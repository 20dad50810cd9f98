import FocusVision.Engine.OscBridge
import FocusVision.Lib.Bytes
import FocusVision.Lib.FloatBits
import FocusVision.Lib.Run

/-!
# OSC messages on the wire

`encode_osc_float` of the engine's `face_tracking/osc_bridge.rs`, and `parse_osc_float`
of its `simulator/osc_loopback.rs`, which stands in for VRChat.  The address is padded
with zeros to a multiple of 4, and its first zero ends it.

Every message of the bridge is read back as it was sent.
-/

namespace FocusVision
namespace Engine

open Bytes

/-- `as_bytes`. -/
def textBytes (text : String) : List UInt8 :=
  text.toByteArray.data.toList

/-- `std::str::from_utf8`. -/
def fromUtf8 (bytes : List UInt8) : Option String :=
  String.fromUTF8? ⟨bytes.toArray⟩

/-- The loop that pads a message. -/
def padTo4 (msg : List UInt8) : List UInt8 :=
  if msg.length % 4 ≠ 0 then padTo4 (msg ++ [0]) else msg
termination_by (4 - msg.length % 4) % 4
decreasing_by
  rw [List.length_append, List.length_singleton]
  omega

/-- `",f\0\0"`. -/
def OSC_FLOAT_TAG : List UInt8 := [0x2C, 0x66, 0, 0]

/-- `f32::to_be_bytes`. -/
def f32BeBytes (value : F32) : List UInt8 :=
  beBytes 4 value.toBits

/-- `f32::from_be_bytes`. -/
def f32OfBeBytes (bytes : List UInt8) : F32 :=
  Flt.ofBits _ (ofLeBytes bytes.reverse)

/-- `encode_osc_float`; it never fails. -/
def encodeOscFloat (address : String) (value : F32) : Option (List UInt8) :=
  some (padTo4 (textBytes address ++ [0]) ++ OSC_FLOAT_TAG ++ f32BeBytes value)

/-- `parse_osc_float`. -/
def parseOscFloat (buf : List UInt8) : Option (String × F32) :=
  match buf.findIdx? (· == 0) with
  | none => none
  | some addrEnd =>
      match fromUtf8 (buf.take addrEnd) with
      | none => none
      | some addr =>
          -- `(addr_end + 4) & !3`
          let afterAddr := (addrEnd + 4) / 4 * 4
          if buf.length < afterAddr + 8 then none
          else if (buf.drop afterAddr).take 4 ≠ OSC_FLOAT_TAG then none
          else some (addr, f32OfBeBytes ((buf.drop (afterAddr + 4)).take 4))

/-! ### Fields of a message -/

theorem fromUtf8_textBytes
    (text : String) :
    fromUtf8 (textBytes text) = some text := by
  have hbytes : (⟨(textBytes text).toArray⟩ : ByteArray) = text.toByteArray := by
    rw [textBytes, Array.toArray_toList]
  rw [fromUtf8, hbytes, String.fromUTF8?, dif_pos text.isValidUTF8]
  rfl

theorem f32OfBeBytes_f32BeBytes
    (value : F32) :
    f32OfBeBytes (f32BeBytes value) = value := by
  have hlt : value.toBits < 256 ^ 4 := value.toBits_lt
  rw [f32OfBeBytes, f32BeBytes, beBytes, List.reverse_reverse, ofLeBytes_leBytes hlt,
    Flt.ofBits_toBits]

theorem padTo4_eq
    (msg : List UInt8) :
    padTo4 msg = msg ++ List.replicate ((4 - msg.length % 4) % 4) 0 := by
  induction msg using padTo4.induct with
  | case1 msg hmore ih =>
      rw [padTo4, if_pos hmore, ih, List.append_assoc, List.length_append, List.length_singleton]
      have hcount : (4 - msg.length % 4) % 4 = (4 - (msg.length + 1) % 4) % 4 + 1 := by omega
      rw [hcount, List.replicate_succ]
      rfl
  | case2 msg hdone =>
      have hzero : msg.length % 4 = 0 := not_not.mp hdone
      rw [padTo4, if_neg hdone, hzero]
      exact (List.append_nil msg).symm

/-- An address takes its length, rounded up with the zero behind it. -/
theorem padded_address
    (address : List UInt8) :
    ∃ padding, padTo4 (address ++ [0]) = address ++ 0 :: padding ∧
      (address ++ 0 :: padding).length = (address.length + 4) / 4 * 4 := by
  refine ⟨List.replicate ((4 - (address ++ [0]).length % 4) % 4) 0, ?_, ?_⟩
  · rw [padTo4_eq, List.append_assoc]
    rfl
  · simp only [List.length_append, List.length_cons, List.length_replicate, List.length_nil]
    omega

/-- The first zero of a text without one is the zero behind it. -/
theorem findIdx_zero
    {address : List UInt8} (h : (0 : UInt8) ∉ address) (rest : List UInt8) :
    (address ++ 0 :: rest).findIdx? (· == 0) = some address.length := by
  induction address with
  | nil => rfl
  | cons b address ih =>
      rw [List.mem_cons, not_or] at h
      have hb : ¬(b == 0) = true := by
        rw [beq_iff_eq]
        exact fun hzero => h.1 hzero.symm
      rw [List.cons_append, List.findIdx?_cons, if_neg hb, ih h.2]
      rfl

/--
What is read as a message: the address, a zero, padding of any bytes, the tag and the
value.  What comes behind them does not matter.
-/
structure IsOscFloat (buf : List UInt8) (address : List UInt8) (padding bytes rest : List UInt8) :
    Prop where
  buf_eq : buf = address ++ 0 :: padding ++ (OSC_FLOAT_TAG ++ (bytes ++ rest))
  no_zero : (0 : UInt8) ∉ address
  aligned : (address ++ 0 :: padding).length = (address.length + 4) / 4 * 4
  four_bytes : bytes.length = 4

theorem IsOscFloat.parse
    {buf padding bytes rest : List UInt8} {address : String}
    (h : IsOscFloat buf (textBytes address) padding bytes rest) :
    parseOscFloat buf = some (address, f32OfBeBytes bytes) := by
  have hzero : buf.findIdx? (· == 0) = some (textBytes address).length := by
    have hfirst := findIdx_zero h.no_zero (padding ++ (OSC_FLOAT_TAG ++ (bytes ++ rest)))
    rw [h.buf_eq, List.append_assoc]
    exact hfirst
  have htake : buf.take (textBytes address).length = textBytes address := by
    rw [h.buf_eq, List.append_assoc]
    exact List.take_left' rfl
  have hdrop : buf.drop (((textBytes address).length + 4) / 4 * 4) =
      OSC_FLOAT_TAG ++ (bytes ++ rest) := by
    rw [h.buf_eq]
    exact List.drop_left' h.aligned
  have hlong : ¬buf.length < ((textBytes address).length + 4) / 4 * 4 + 8 := by
    have htag : OSC_FLOAT_TAG.length = 4 := rfl
    rw [h.buf_eq, List.length_append, h.aligned, List.length_append, List.length_append, htag,
      h.four_bytes]
    omega
  have htag : (OSC_FLOAT_TAG ++ (bytes ++ rest)).take 4 = OSC_FLOAT_TAG := List.take_left' rfl
  have hvalue : ((OSC_FLOAT_TAG ++ (bytes ++ rest)).drop 4).take 4 = bytes :=
    List.take_left' h.four_bytes
  simp only [parseOscFloat, hzero, htake, fromUtf8_textBytes, if_neg hlong, ← List.drop_drop,
    hdrop, htag, ne_eq, not_true_eq_false, if_false, hvalue]

/-- The bytes of a text that was read. -/
theorem textBytes_of_fromUtf8
    {bytes : List UInt8} {text : String} (h : fromUtf8 bytes = some text) :
    textBytes text = bytes := by
  unfold fromUtf8 String.fromUTF8? at h
  split at h
  · rw [Option.some.injEq] at h
    subst h
    rfl
  · cases h

/-- The first zero ends the address. -/
theorem split_at_zero
    {buf : List UInt8} {addrEnd : Nat} (h : buf.findIdx? (· == 0) = some addrEnd) :
    buf = buf.take addrEnd ++ 0 :: buf.drop (addrEnd + 1) ∧ (0 : UInt8) ∉ buf.take addrEnd ∧
      addrEnd < buf.length := by
  obtain ⟨hlt, hzero, hbefore⟩ := List.findIdx?_eq_some_iff_getElem.mp h
  refine ⟨?_, ?_, hlt⟩
  · have hat : buf[addrEnd] = 0 := beq_iff_eq.mp hzero
    conv_lhs => rw [← List.take_append_drop addrEnd buf, List.drop_eq_getElem_cons hlt, hat]
  · intro hmem
    obtain ⟨j, hj, hval⟩ := List.mem_take_iff_getElem.mp hmem
    exact hbefore j (by omega) (beq_iff_eq.mpr hval)

theorem isOscFloat_of_parse
    {buf : List UInt8} {address : String} {value : F32}
    (h : parseOscFloat buf = some (address, value)) :
    ∃ padding bytes rest, IsOscFloat buf (textBytes address) padding bytes rest ∧
      value = f32OfBeBytes bytes := by
  unfold parseOscFloat at h
  cases hzero : buf.findIdx? (· == 0) with
  | none =>
      rw [hzero] at h
      cases h
  | some addrEnd =>
      rw [hzero] at h
      simp only at h
      cases htext : fromUtf8 (buf.take addrEnd) with
      | none =>
          rw [htext] at h
          cases h
      | some text =>
          rw [htext] at h
          simp only at h
          split_ifs at h with hshort htag
          rw [Option.some.injEq, Prod.mk.injEq] at h
          obtain ⟨rfl, rfl⟩ := h
          obtain ⟨hsplit, hnoZero, hlt⟩ := split_at_zero hzero
          have hbytes := textBytes_of_fromUtf8 htext
          have hlength : (textBytes text).length = addrEnd := by
            rw [hbytes, List.length_take]
            omega
          have hdrop : (buf.drop (addrEnd + 1)).drop ((addrEnd + 4) / 4 * 4 - (addrEnd + 1)) =
              buf.drop ((addrEnd + 4) / 4 * 4) := by
            rw [List.drop_drop]
            congr 1
            omega
          have htail : OSC_FLOAT_TAG ++ ((buf.drop ((addrEnd + 4) / 4 * 4 + 4)).take 4 ++
              (buf.drop ((addrEnd + 4) / 4 * 4 + 4)).drop 4) =
              buf.drop ((addrEnd + 4) / 4 * 4) := by
            have hbehind : buf.drop ((addrEnd + 4) / 4 * 4 + 4) =
                (buf.drop ((addrEnd + 4) / 4 * 4)).drop 4 :=
              List.drop_drop.symm
            rw [List.take_append_drop, hbehind, ← not_not.mp htag, List.take_append_drop]
          refine ⟨(buf.drop (addrEnd + 1)).take ((addrEnd + 4) / 4 * 4 - (addrEnd + 1)),
            (buf.drop ((addrEnd + 4) / 4 * 4 + 4)).take 4,
            (buf.drop ((addrEnd + 4) / 4 * 4 + 4)).drop 4, ⟨?_, ?_, ?_, ?_⟩, rfl⟩
          · rw [htail, hbytes, List.append_assoc, List.cons_append, ← hdrop,
              List.take_append_drop]
            exact hsplit
          · rw [hbytes]
            exact hnoZero
          · rw [List.length_append, List.length_cons, hlength, List.length_take, List.length_drop]
            omega
          · rw [List.length_take, List.length_drop]
            omega

/-- A message is read back if its address has no zero. -/
theorem parseOscFloat_encode
    {address : String} (h : (0 : UInt8) ∉ textBytes address) (value : F32)
    (rest : List UInt8) :
    (encodeOscFloat address value).bind (fun msg => parseOscFloat (msg ++ rest)) =
      some (address, value) := by
  obtain ⟨padding, hpadded, hlength⟩ := padded_address (textBytes address)
  have hform : IsOscFloat
      (textBytes address ++ 0 :: padding ++ OSC_FLOAT_TAG ++ f32BeBytes value ++ rest)
      (textBytes address) padding (f32BeBytes value) rest := by
    refine ⟨?_, h, hlength, length_beBytes 4 _⟩
    simp only [List.append_assoc]
  rw [encodeOscFloat, Option.bind_some, hpadded, hform.parse, f32OfBeBytes_f32BeBytes]

/-! ### Messages of the bridge -/

theorem lipNames_noZero :
    ∀ i : Fin 37, (0 : UInt8) ∉ textBytes (parameterAddress (LIP_NAMES.get i)) := by
  decide +kernel

theorem eyeNames_noZero :
    ∀ i : Fin 14, (0 : UInt8) ∉ textBytes (parameterAddress (EYE_NAMES.get i)) := by
  decide +kernel

/-- A message can be read if its address has no zero. -/
def OscMessage.Readable (m : OscMessage) : Prop :=
  (0 : UInt8) ∉ textBytes m.address

theorem Group.readable
    {n : Nat} {g : Group n}
    (hnames : ∀ i, (0 : UInt8) ∉ textBytes (parameterAddress (g.names.get i)))
    (raw : Fin n → F32) (alpha : F32) (profile : Profile) :
    ∀ m ∈ (g.applySmoothingAndSend raw alpha profile).1, m.Readable := by
  intro m hm
  obtain ⟨i, -, hi⟩ := List.mem_filterMap.mp hm
  obtain ⟨value, -, rfl⟩ := Option.map_eq_some_iff.mp hi
  exact hnames i

theorem OscBridge.readable
    (b : OscBridge) (data : FaceData) :
    ∀ m ∈ (b.sendFaceData data).1, m.Readable := by
  have hlip : ∀ b : OscBridge, ∀ m ∈ (b.sendLip data).1, m.Readable := by
    intro b m hm
    unfold OscBridge.sendLip at hm
    split at hm
    · exact @Group.readable 37 b.lipGroup lipNames_noZero data.lip b.smoothing b.profile m hm
    · cases hm
  have heye : ∀ b : OscBridge, ∀ m ∈ (b.sendEye data).1, m.Readable := by
    intro b m hm
    unfold OscBridge.sendEye at hm
    split at hm
    · exact @Group.readable 14 b.eyeGroup eyeNames_noZero data.eye b.smoothing b.profile m hm
    · cases hm
  intro m hm
  unfold OscBridge.sendFaceData at hm
  split_ifs at hm
  · cases hm
  · cases hm
  · rcases List.mem_append.mp hm with hm | hm
    · exact hlip b m hm
    · exact heye _ m hm

theorem OscBridge.readable_run
    (b : OscBridge) (calls : List FaceData) :
    ∀ m ∈ (Run.outputs OscBridge.sendFaceData b calls).flatten, m.Readable := by
  induction calls generalizing b with
  | nil => exact fun m hm => absurd hm List.not_mem_nil
  | cons data calls ih =>
      intro m hm
      rw [Run.outputs_cons, List.flatten_cons, List.mem_append] at hm
      rcases hm with hm | hm
      · exact b.readable data m hm
      · exact ih (b.sendFaceData data).2 m hm

/-- The datagrams of some messages. -/
def oscDatagrams (messages : List OscMessage) : List (List UInt8) :=
  messages.filterMap fun m => encodeOscFloat m.address m.value

theorem parse_oscDatagrams
    {messages : List OscMessage} (h : ∀ m ∈ messages, m.Readable) :
    (oscDatagrams messages).map parseOscFloat =
      messages.map fun m => some (m.address, m.value) := by
  induction messages with
  | nil => rfl
  | cons m messages ih =>
      have hrest := ih fun x hx => h x (List.mem_cons_of_mem m hx)
      have hparse := parseOscFloat_encode (h m List.mem_cons_self) m.value []
      simp only [encodeOscFloat, Option.bind_some, List.append_nil] at hparse
      rw [List.map_cons, ← hrest, ← hparse]
      rfl

/--
**OSC on the wire.**  Exactly the buffers that begin with an address, a zero, padding
to a multiple of 4, the tag and four bytes are read as a message with these, whatever the
padding is and whatever comes behind.  So every message that the bridge sends,
over any run, is read back with its address and its value.
-/
theorem osc_wire :
    (∀ (buf : List UInt8) (address : String) (value : F32),
      parseOscFloat buf = some (address, value) ↔
        ∃ padding bytes rest, IsOscFloat buf (textBytes address) padding bytes rest ∧
          value = f32OfBeBytes bytes) ∧
    ∀ (b : OscBridge) (calls : List FaceData),
      (oscDatagrams (Run.outputs OscBridge.sendFaceData b calls).flatten).map parseOscFloat =
        (Run.outputs OscBridge.sendFaceData b calls).flatten.map
          fun m => some (m.address, m.value) := by
  refine ⟨fun buf address value => ⟨isOscFloat_of_parse, ?_⟩, fun b calls => ?_⟩
  · rintro ⟨padding, bytes, rest, hform, rfl⟩
    exact hform.parse
  · exact parse_oscDatagrams (b.readable_run calls)

end Engine
end FocusVision
