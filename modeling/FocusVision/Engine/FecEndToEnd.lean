import FocusVision.Engine.SentFrame
import FocusVision.Engine.RsCode

/-!
# From the encoder to the reassembler

Whatever layout `FrameFecEncoder` picks, its batches are the packets of a
`SentFrame`.  With the receiver's side, `emitted_sent`, a frame comes through
whenever enough shards of every batch do.
-/

namespace FocusVision
namespace Engine

open Bytes

variable {crate : RsCrate}

/-! ### Code words -/

theorem Received.take_getD
    {word : List Shard} {shards : List (Option Shard)} (h : Received word shards) {d : Nat}
    (hall : (shards.take d).all Option.isSome = true) :
    ((shards.take d).map fun s => s.getD []) = word.take d := by
  unfold Received at h
  induction h generalizing d with
  | nil => simp
  | cons hhead htail ih =>
      cases d with
      | zero => rfl
      | succ d =>
          rw [List.take_succ_cons, List.all_cons, Bool.and_eq_true] at hall
          rcases hhead with rfl | rfl
          · exact absurd hall.1 (by simp)
          · rw [List.take_succ_cons, List.take_succ_cons, List.map_cons, ih hall.2]
            rfl

/-- The data shards come back, with parity or when there is none. -/
theorem rebuildData_eq
    {data parity : List Shard} (h : Protects crate data parity ∨ parity = [])
    {shards : List (Option Shard)} (hreceived : Received (data ++ parity) shards)
    (henough : data.length ≤ presentCount shards) :
    rebuildData crate shards data.length = some data := by
  unfold rebuildData
  split_ifs with hall
  · rw [hreceived.take_getD hall, List.take_left' rfl]
  · rcases h with hprotects | rfl
    · rw [hprotects shards hreceived henough]
    · -- without parity every shard is here
      exfalso
      apply hall
      have hlen := hreceived.length_eq
      rw [List.append_nil] at hlen
      have hle := List.countP_le_length (p := Option.isSome) (l := shards)
      unfold presentCount at henough
      have hcount : shards.countP Option.isSome = shards.length := by omega
      rw [List.countP_eq_length] at hcount
      rw [List.all_eq_true]
      exact fun s hs => hcount s (List.mem_of_mem_take hs)

/-- The code word of some data shards and their parity. -/
def CodeWord.ofShards (data parity : List Shard) (size : Nat) (hne : data ≠ [])
    (hsize : 0 < size) (hlen : ∀ shard ∈ data ++ parity, shard.length = size)
    (hle : (data ++ parity).length ≤ MAX_FRAME_SHARDS)
    (h : Protects crate data parity ∨ parity = []) : CodeWord crate where
  shards := data ++ parity
  dataCount := data.length
  size
  dataCount_pos := List.length_pos_iff.mpr hne
  dataCount_le := by simp
  length_le := hle
  size_pos := hsize
  length_eq := hlen
  rebuild := fun _ hreceived henough => by
    rw [List.take_left' rfl]
    exact rebuildData_eq h hreceived henough

/-- The batch is the packets of this word, in order. -/
structure CodeWord.SentAs (word : CodeWord crate) (frameIndex : UInt32) (flags : UInt16)
    (batch : List Packet) : Prop where
  length : batch.length = word.shards.length
  packet : ∀ (i : Nat) packet, batch[i]? = some packet →
    readFvpHeader packet = some (word.header frameIndex flags i) ∧
      word.shards[i]? = some (payload packet)

theorem shardsToPackets_sentAs
    (word : CodeWord crate) (frameIndex timestamp : UInt32) (flags sequence : UInt16) :
    word.SentAs frameIndex flags
      (shardsToPackets word.shards word.dataCount frameIndex timestamp flags sequence).1 := by
  unfold shardsToPackets
  simp only
  rw [if_neg (Nat.not_lt.mpr word.length_le)]
  constructor
  · rw [List.length_mapIdx]
  · intro i packet hpacket
    rw [List.getElem?_mapIdx] at hpacket
    cases hi : word.shards[i]? with
    | none => exact absurd hpacket (by simp [hi])
    | some shard =>
        rw [hi, Option.map_some, Option.some.injEq] at hpacket
        subst hpacket
        exact ⟨readFvpHeader_makePacket _ _ _ _ _, by rw [payload_makePacket]⟩

theorem CodeWord.SentAs.isEmpty_eq_false
    {word : CodeWord crate} {frameIndex : UInt32} {flags : UInt16} {batch : List Packet}
    (h : word.SentAs frameIndex flags batch) :
    batch.isEmpty = false := by
  have hlen := h.length
  have hpos := word.dataCount_pos
  have hle := word.dataCount_le
  cases batch with
  | nil =>
      simp only [List.length_nil] at hlen
      omega
  | cons _ _ => rfl

/-- The batches are the packets of this frame. -/
structure SentFrame.SentAs (sent : SentFrame crate) (batches : List (List Packet)) :
    Prop where
  length : batches.length = sent.words.length
  batch : ∀ (g : Nat) word batch, sent.words[g]? = some word → batches[g]? = some batch →
    word.SentAs sent.frameIndex (sent.flags g) batch

/-! ### The layouts -/

theorem toDataShards_ne_nil
    {data : List UInt8} (h : data ≠ []) :
    toDataShards data ≠ [] := by
  have hpos := @ceilDiv_pos data.length FEC_SHARD_SIZE (by decide)
    (List.length_pos_iff.mpr h)
  intro hnil
  have hlen := congrArg List.length hnil
  rw [toDataShards, length_paddedBlocks, List.length_nil] at hlen
  omega

theorem length_toDataShards
    (data : List UInt8) :
    (toDataShards data).length = ceilDiv data.length FEC_SHARD_SIZE :=
  length_paddedBlocks _ _ _

theorem length_of_mem_toDataShards
    {data : List UInt8} {shard : Shard} (h : shard ∈ toDataShards data) :
    shard.length = FEC_SHARD_SIZE :=
  length_of_mem_paddedBlocks h

/-- The data, padded with zeros to whole shards. -/
theorem flatten_toDataShards
    (data : List UInt8) :
    (toDataShards data).flatten =
      data ++ List.replicate
        (ceilDiv data.length FEC_SHARD_SIZE * FEC_SHARD_SIZE - data.length) 0 :=
  flatten_paddedBlocks (le_ceilDiv_mul data.length (by decide))

/-- The length prefix is read back, and the padding cut off. -/
theorem stripLength_prefixed
    {data padding : List UInt8} (h : data.length < 256 ^ 4) :
    stripLength (leBytes SLICE_LEN_PREFIX data.length ++ data ++ padding) = some data := by
  have hprefix : (leBytes 4 data.length).length = 4 := length_leBytes 4 _
  unfold stripLength SLICE_LEN_PREFIX
  rw [if_neg (by simp only [List.length_append, hprefix]; omega), List.append_assoc,
    List.take_left' hprefix, ofLeBytes_leBytes h]
  simp only
  rw [if_neg (by simp only [List.length_append, hprefix]; omega), List.drop_take,
    List.drop_left' hprefix, Nat.add_sub_cancel_left, List.take_left' rfl]

/-- Data shards that fit in a code word are encoded to one. -/
theorem encode_word
    (hcrate : crate.Correct) {enc : FecEncoder crate} (henc : enc.CacheOk)
    (hunit : UnitInterval enc.redundancy) {data : List UInt8} (hne : data ≠ [])
    (hmax : ceilDiv data.length FEC_SHARD_SIZE ≤ maxDataShards enc.redundancy) :
    ∃ word : CodeWord crate,
      (enc.encode (toDataShards data)).1 = .ok word.shards ∧
      word.dataCount = (toDataShards data).length ∧
      word.shards.take word.dataCount = toDataShards data ∧
      word.dataCount < word.shards.length ∧ word.size = FEC_SHARD_SIZE := by
  obtain ⟨parity, hencode, hcount, hfits, hparity, hprotects⟩ :=
    FecEncoder.encode_ok hcrate henc hunit (toDataShards_ne_nil hne) (by decide)
      (fun shard hshard => length_of_mem_toDataShards hshard)
      (by rw [length_toDataShards]; exact hmax)
  have hlen : ∀ shard ∈ toDataShards data ++ parity, shard.length = FEC_SHARD_SIZE := by
    intro shard hshard
    rcases List.mem_append.mp hshard with h | h
    · exact length_of_mem_toDataShards h
    · exact hparity shard h
  have hle : (toDataShards data ++ parity).length ≤ MAX_FRAME_SHARDS := by
    rw [List.length_append]
    simp only [RS_MAX_TOTAL_SHARDS, MAX_FRAME_SHARDS] at hfits ⊢
    omega
  have hparityPos := parityFor_pos enc.redundancy (toDataShards data).length
  refine ⟨CodeWord.ofShards (toDataShards data) parity FEC_SHARD_SIZE
    (toDataShards_ne_nil hne) (by decide) hlen hle (Or.inl hprotects), hencode, rfl,
    List.take_left' rfl, ?_, rfl⟩
  simp only [CodeWord.ofShards, List.length_append]
  omega

/-- Without parity the data shards alone are a code word. -/
theorem exists_unprotected_word
    {data : List UInt8} (hne : data ≠ [])
    (hle : (toDataShards data).length ≤ MAX_FRAME_SHARDS) :
    ∃ word : CodeWord crate, word.shards = toDataShards data ∧
      word.dataCount = (toDataShards data).length ∧ word.size = FEC_SHARD_SIZE := by
  have hnil : toDataShards data ++ [] = toDataShards data := List.append_nil _
  refine ⟨CodeWord.ofShards (toDataShards data) [] FEC_SHARD_SIZE (toDataShards_ne_nil hne)
    (by decide) ?_ ?_ (Or.inr rfl), hnil, rfl, rfl⟩
  · rw [hnil]
    exact fun shard hshard => length_of_mem_toDataShards hshard
  · rw [hnil]
    exact hle

/-- An encoder in good order, at redundancy `r`. -/
def FecEncoder.Ok (r : F32) (enc : FecEncoder crate) : Prop :=
  enc.CacheOk ∧ enc.redundancy = r

/-- Every slice becomes a code word whose data is the slice. -/
theorem encodeSlices_spec
    (hcrate : crate.Correct) {r : F32} (hunit : UnitInterval r)
    (frameIndex timestamp : UInt32) (isKeyframe : Bool) (sliceCount : Nat)
    {sliceIdx : Nat} {slices : List (List UInt8)} {encoders : List (FecEncoder crate)}
    {sequence : UInt16}
    (hencoders : ∀ enc ∈ encoders, enc.Ok r) (hlen : slices.length ≤ encoders.length)
    (hfits : ∀ slice ∈ slices, sliceDataShards slice.length ≤ maxDataShards r) :
    ∃ (batches : List (List Packet)) (words : List (CodeWord crate)),
      (encodeSlices frameIndex timestamp isKeyframe sliceCount sliceIdx slices encoders
        sequence).1 = some batches ∧
      batches.length = slices.length ∧
      words.map (fun word => groupBytes true (word.shards.take word.dataCount)) =
        slices.map some ∧
      (∀ word ∈ words, word.size = FEC_SHARD_SIZE) ∧
      ∀ (g : Nat) word batch, words[g]? = some word → batches[g]? = some batch →
        word.SentAs frameIndex
          (FvpFlags.encode isKeyframe (UInt8.ofNat (sliceIdx + g)) (UInt8.ofNat sliceCount) 0)
          batch := by
  induction slices generalizing sliceIdx encoders sequence with
  | nil => exact ⟨[], [], by simp [encodeSlices], rfl, rfl, by simp, by simp⟩
  | cons slice slices ih =>
      cases encoders with
      | nil => exact absurd hlen (by simp)
      | cons enc encoders =>
          obtain ⟨hcache, hr⟩ := hencoders enc List.mem_cons_self
          have hshards := hfits slice List.mem_cons_self
          have hceil : ceilDiv (leBytes SLICE_LEN_PREFIX slice.length ++ slice).length
              FEC_SHARD_SIZE = sliceDataShards slice.length := by
            rw [List.length_append, length_leBytes, Nat.add_comm]
            rfl
          obtain ⟨word, hencode, hcount, hdata, -, hsize⟩ :=
            @encode_word crate hcrate enc hcache (by rw [hr]; exact hunit)
              (leBytes SLICE_LEN_PREFIX slice.length ++ slice)
              (by simp [SLICE_LEN_PREFIX, leBytes]) (by rw [hceil, hr]; exact hshards)
          have hshort : slice.length < 256 ^ 4 := by
            have hmax := Nat.le_trans hshards (maxDataShards_le r)
            rw [sliceDataShards, ceilDiv_le_iff (by decide)] at hmax
            simp only [FEC_SHARD_SIZE] at hmax
            omega
          have hbytes : groupBytes true (word.shards.take word.dataCount) = some slice := by
            rw [hdata, groupBytes, if_pos rfl, flatten_toDataShards]
            exact stripLength_prefixed hshort
          have hsent := shardsToPackets_sentAs word frameIndex timestamp
            (FvpFlags.encode isKeyframe (UInt8.ofNat sliceIdx) (UInt8.ofNat sliceCount) 0)
            sequence
          rw [hcount] at hsent
          simp only [encodeSlices]
          generalize hres : enc.encode
            (toDataShards (leBytes SLICE_LEN_PREFIX slice.length ++ slice)) = res at hencode ⊢
          obtain ⟨answer, enc'⟩ := res
          simp only at hencode
          subst hencode
          simp only
          generalize shardsToPackets word.shards
            (toDataShards (leBytes SLICE_LEN_PREFIX slice.length ++ slice)).length frameIndex
            timestamp
            (FvpFlags.encode isKeyframe (UInt8.ofNat sliceIdx) (UInt8.ofNat sliceCount) 0)
            sequence = out at hsent ⊢
          obtain ⟨packets, sequence'⟩ := out
          obtain ⟨batches, words, hrest, hcountRest, hwords, hsizes, hbatches⟩ :=
            @ih (sliceIdx + 1) encoders sequence'
              (fun enc henc => hencoders enc (List.mem_cons_of_mem _ henc))
              (by simpa using hlen)
              (fun slice hslice => hfits slice (List.mem_cons_of_mem _ hslice))
          refine ⟨packets :: batches, word :: words, ?_, ?_, ?_, ?_, ?_⟩
          · rw [hrest]
            rfl
          · rw [List.length_cons, List.length_cons, hcountRest]
          · rw [List.map_cons, List.map_cons, hbytes, hwords]
          · exact List.forall_mem_cons.mpr ⟨hsize, hsizes⟩
          · intro g word' batch hword hbatch
            cases g with
            | zero =>
                simp only [List.getElem?_cons_zero, Option.some.injEq] at hword hbatch
                subst hword hbatch
                exact hsent
            | succ g =>
                have hnext := hbatches g word' batch hword hbatch
                rwa [Nat.add_right_comm] at hnext

/-- The data that a receiver gets: a frame without slices is padded with zeros. -/
def receivedData (layout : FecLayout) (frameData : List UInt8) : List UInt8 :=
  match layout with
  | .sliced _ => frameData
  | .bulk | .unprotected =>
      frameData ++ List.replicate
        (ceilDiv frameData.length FEC_SHARD_SIZE * FEC_SHARD_SIZE - frameData.length) 0

/-- The slices of a layout that have a code word of their own. -/
def FecLayout.slices : FecLayout → Nat
  | .sliced n => n
  | .bulk | .unprotected => 0

/-- A frame of one code word. -/
def SentFrame.single (frameIndex : UInt32) (isKeyframe : Bool) (word : CodeWord crate) :
    SentFrame crate where
  frameIndex
  isKeyframe
  sliced := false
  words := [word]
  parts := [(word.shards.take word.dataCount).flatten]
  words_ne := by simp
  length_slices := by simp
  length_bulk := by simp
  parts_eq := by simp [groupBytes]

theorem SentFrame.single_sentAs
    {frameIndex : UInt32} {isKeyframe : Bool} {word : CodeWord crate} {batch : List Packet}
    (h : word.SentAs frameIndex (FvpFlags.encodeSimple isKeyframe) batch) :
    (SentFrame.single frameIndex isKeyframe word).SentAs [batch] := by
  refine ⟨rfl, ?_⟩
  intro g word' batch' hword hbatch
  cases g with
  | zero =>
      simp only [SentFrame.single, List.getElem?_cons_zero, Option.some.injEq] at hword hbatch
      subst hword hbatch
      exact h
  | succ g => exact absurd hword (by simp [SentFrame.single])

/-- A frame with a code word for each slice. -/
def SentFrame.ofSlices (frameIndex : UInt32) (isKeyframe : Bool)
    (words : List (CodeWord crate)) (slices : List (List UInt8)) (hne : slices ≠ [])
    (hle : slices.length ≤ MAX_SLICE_COUNT)
    (h : words.map (fun word => groupBytes true (word.shards.take word.dataCount)) =
      slices.map some) : SentFrame crate where
  frameIndex
  isKeyframe
  sliced := true
  words
  parts := slices
  words_ne := by
    rintro rfl
    cases slices with
    | nil => exact hne rfl
    | cons _ _ => exact absurd h (by simp)
  length_slices := fun _ => by
    have hlen := congrArg List.length h
    simp only [List.length_map] at hlen
    omega
  length_bulk := by simp
  parts_eq := h

/-- All its shards have the size of the encoder's. -/
def SentFrame.Sized (sent : SentFrame crate) : Prop :=
  ∀ word ∈ sent.words, word.size = FEC_SHARD_SIZE

/-- An encoder that a session can have: every part has the same redundancy. -/
structure FrameFecEncoder.Ok (enc : FrameFecEncoder crate) : Prop where
  unit : UnitInterval enc.bulk.redundancy
  bulk : enc.bulk.CacheOk
  length : enc.slices.length = MAX_SLICE_COUNT
  slices : ∀ slice ∈ enc.slices, slice.Ok enc.bulk.redundancy

namespace FrameFecEncoder

/-- The frame does not exceed the shards that a receiver accepts. -/
def Fits (enc : FrameFecEncoder crate) (frameData : List UInt8) : Prop :=
  enc.layout frameData = .unprotected →
    (toDataShards frameData).length ≤ MAX_FRAME_SHARDS

section Encode

variable {enc : FrameFecEncoder crate} {frameData : List UInt8}
variable {frameIndex timestamp : UInt32} {isKeyframe : Bool} {sequence : UInt16}

/-- One code word, sent as one batch. -/
theorem exists_single
    {word : CodeWord crate} {packets : List Packet}
    (hdata : word.shards.take word.dataCount = toDataShards frameData)
    (hsize : word.size = FEC_SHARD_SIZE)
    (hsent : word.SentAs frameIndex (FvpFlags.encodeSimple isKeyframe) packets) :
    ∃ sent : SentFrame crate,
      sent.SentAs [packets] ∧ sent.Sized ∧ sent.sliceCount.toNat = 0 ∧
      sent.result = ⟨frameIndex, isKeyframe, (toDataShards frameData).flatten⟩ :=
  ⟨SentFrame.single frameIndex isKeyframe word, SentFrame.single_sentAs hsent,
    List.forall_mem_singleton.mpr hsize, rfl, by
      simp [SentFrame.result, SentFrame.single, hdata]⟩

/-- A bulk frame is one code word, with some parity. -/
theorem encode_bulk
    (hcrate : crate.Correct) (henc : enc.Ok) (hne : frameData ≠ [])
    (hlayout : enc.layout frameData = .bulk) :
    ∃ (word : CodeWord crate) (packets : List Packet),
      (enc.encode frameData frameIndex timestamp isKeyframe sequence).1 = [packets] ∧
      word.SentAs frameIndex (FvpFlags.encodeSimple isKeyframe) packets ∧
      word.shards.take word.dataCount = toDataShards frameData ∧
      word.dataCount = ceilDiv frameData.length FEC_SHARD_SIZE ∧
      word.dataCount < word.shards.length ∧ word.size = FEC_SHARD_SIZE := by
  obtain ⟨word, hencode, hcount, hdata, hparity, hsize⟩ :=
    encode_word hcrate henc.bulk henc.unit hne (chooseFecLayout_bulk hlayout)
  have hsent := shardsToPackets_sentAs word frameIndex timestamp
    (FvpFlags.encodeSimple isKeyframe) sequence
  rw [hcount] at hsent
  have hshards : (toDataShards frameData).isEmpty = false := by
    rw [List.isEmpty_eq_false_iff]
    exact toDataShards_ne_nil hne
  refine ⟨word, _, ?_, hsent, hdata, by rw [hcount, length_toDataShards], hparity, hsize⟩
  simp only [encode, hlayout, encodeFrameToPacketsWithFec, hshards, Bool.false_eq_true,
    if_false]
  generalize enc.bulk.encode (toDataShards frameData) = res at hencode ⊢
  obtain ⟨answer, bulk⟩ := res
  simp only at hencode
  subst hencode
  simp only [hsent.isEmpty_eq_false, Bool.false_eq_true, if_false]

/-- What `encode` returns is a sent frame, whatever the layout. -/
theorem encode_sentAs
    (hcrate : crate.Correct) (henc : enc.Ok) (hne : frameData ≠ [])
    (hfits : enc.Fits frameData) :
    ∃ sent : SentFrame crate,
      sent.SentAs (enc.encode frameData frameIndex timestamp isKeyframe sequence).1 ∧
      sent.Sized ∧ sent.sliceCount.toNat = (enc.layout frameData).slices ∧
      sent.result = ⟨frameIndex, isKeyframe,
        receivedData (enc.layout frameData) frameData⟩ := by
  cases hlayout : enc.layout frameData with
  | bulk =>
      obtain ⟨word, packets, hpackets, hsent, hdata, -, -, hsize⟩ :=
        @encode_bulk crate enc frameData frameIndex timestamp isKeyframe sequence hcrate henc
          hne hlayout
      rw [hpackets, receivedData, ← flatten_toDataShards]
      exact exists_single hdata hsize hsent
  | unprotected =>
      obtain ⟨word, hshards, hcount, hsize⟩ :=
        @exists_unprotected_word crate frameData hne (hfits hlayout)
      have hsent := shardsToPackets_sentAs word frameIndex timestamp
        (FvpFlags.encodeSimple isKeyframe) sequence
      rw [hshards, hcount] at hsent
      have hdata : word.shards.take word.dataCount = toDataShards frameData := by
        rw [hshards, hcount, List.take_length]
      simp only [encode, hlayout, encodeFrameWithoutFec, hsent.isEmpty_eq_false,
        Bool.false_eq_true, if_false]
      rw [receivedData, ← flatten_toDataShards]
      exact exists_single hdata hsize hsent
  | sliced n =>
      obtain ⟨hn, hnMax, hnLen, hshards⟩ := chooseFecLayout_sliced hlayout
      have hmin : min (min n MAX_SLICE_COUNT) (min frameData.length 255) = n := by
        have hmax : MAX_SLICE_COUNT = 15 := rfl
        omega
      obtain ⟨hflat, hcount, hbound⟩ := split_spec hne hn
      obtain ⟨batches, words, hbatches, hlen, hwords, hsizes, hsent⟩ :=
        @encodeSlices_spec crate hcrate _ henc.unit frameIndex timestamp isKeyframe n 0
          (split frameData n) enc.slices sequence henc.slices
          (by rw [hcount, henc.length]; exact hnMax)
          (fun slice hslice =>
            Nat.le_trans (sliceDataShards_mono (hbound slice hslice)) hshards)
      have hsplit : split frameData n ≠ [] := by
        intro hnil
        rw [hnil] at hcount
        exact absurd hcount (Nat.ne_of_lt hn)
      have hwordsLen : words.length = n := by
        have h := congrArg List.length hwords
        simpa [hcount] using h
      refine ⟨SentFrame.ofSlices frameIndex isKeyframe words (split frameData n) hsplit
        (by rw [hcount]; exact hnMax) hwords, ?_, hsizes, ?_, ?_⟩
      · simp only [encode, hlayout, encodeFrameSliced, hmin]
        rw [if_neg (by omega), if_neg (by rw [henc.length]; omega)]
        generalize hres : encodeSlices frameIndex timestamp isKeyframe n 0
          (split frameData n) enc.slices sequence = res at hbatches ⊢
        obtain ⟨answer, encoders, sequence'⟩ := res
        simp only at hbatches
        subst hbatches
        refine ⟨?_, ?_⟩
        · simp only [SentFrame.ofSlices, hwordsLen]
          rw [hlen, hcount]
        · intro g word batch hword hbatch
          have h := hsent g word batch hword hbatch
          rw [Nat.zero_add] at h
          simpa [SentFrame.ofSlices, SentFrame.flags, hwordsLen] using h
      · rw [SentFrame.sliceCount_toNat]
        exact hwordsLen
      · simp [SentFrame.result, SentFrame.ofSlices, hflat, receivedData]

end Encode

/-- A frame that is empty or too long sends nothing. -/
theorem encode_eq_nil
    {enc : FrameFecEncoder crate} {frameData : List UInt8}
    (h : frameData = [] ∨ ¬enc.Fits frameData) (frameIndex timestamp : UInt32)
    (isKeyframe : Bool) (sequence : UInt16) :
    (enc.encode frameData frameIndex timestamp isKeyframe sequence).1 = [] := by
  rcases h with rfl | hfits
  · unfold encode
    cases hlayout : enc.layout [] with
    | bulk => rfl
    | unprotected => rfl
    | sliced n =>
        obtain ⟨hpos, -, hle, -⟩ := chooseFecLayout_sliced hlayout
        exact absurd hle (by simp; omega)
  · unfold Fits at hfits
    push Not at hfits
    obtain ⟨hlayout, hlong⟩ := hfits
    simp [encode, hlayout, encodeFrameWithoutFec, shardsToPackets, hlong]

/-- What `encode` returns is nothing or a sent frame. -/
theorem encode_cases
    (hcrate : crate.Correct) {enc : FrameFecEncoder crate} (henc : enc.Ok)
    (frameData : List UInt8) (frameIndex timestamp : UInt32) (isKeyframe : Bool)
    (sequence : UInt16) :
    (enc.encode frameData frameIndex timestamp isKeyframe sequence).1 = [] ∨
      ∃ sent : SentFrame crate,
        sent.SentAs (enc.encode frameData frameIndex timestamp isKeyframe sequence).1 ∧
        sent.result = ⟨frameIndex, isKeyframe,
          receivedData (enc.layout frameData) frameData⟩ := by
  by_cases hnone : frameData = [] ∨ ¬enc.Fits frameData
  · exact Or.inl (encode_eq_nil hnone frameIndex timestamp isKeyframe sequence)
  · push Not at hnone
    obtain ⟨sent, hsent, -, -, hresult⟩ :=
      @encode_sentAs crate enc frameData frameIndex timestamp isKeyframe sequence hcrate henc
        hnone.1 hnone.2
    exact Or.inr ⟨sent, hsent, hresult⟩

/-! ### The encoder over a session -/

theorem ok_new
    {redundancy : F32} (hunit : UnitInterval redundancy) (sliceFecEnabled : Bool)
    (sliceCount : Nat) :
    (new redundancy sliceFecEnabled sliceCount : FrameFecEncoder crate).Ok := by
  constructor
  · simp only [new, FecEncoder.new]
    rw [clampUnit_of_unit hunit]
    exact hunit
  · exact FecEncoder.new_cacheOk redundancy
  · exact List.length_replicate
  · intro slice hslice
    rw [List.eq_of_mem_replicate hslice]
    exact ⟨FecEncoder.new_cacheOk redundancy, rfl⟩

theorem Ok.setRedundancy
    {enc : FrameFecEncoder crate} (h : enc.Ok) (redundancy : F32) :
    (enc.setRedundancy redundancy).Ok := by
  constructor
  · exact FecEncoder.setRedundancy_unit h.unit redundancy
  · exact FecEncoder.setRedundancy_cacheOk h.bulk redundancy
  · simpa [FrameFecEncoder.setRedundancy] using h.length
  · intro slice hslice
    obtain ⟨old, hold, rfl⟩ := List.mem_map.mp hslice
    obtain ⟨hcache, hr⟩ := h.slices old hold
    refine ⟨FecEncoder.setRedundancy_cacheOk hcache redundancy, ?_⟩
    simp only [FrameFecEncoder.setRedundancy, FecEncoder.setRedundancy_redundancy, hr]

/-- The loop over the slices keeps the encoders in good order. -/
theorem encodeSlices_encoders
    {r : F32} (frameIndex timestamp : UInt32) (isKeyframe : Bool) (sliceCount : Nat)
    {sliceIdx : Nat} {slices : List (List UInt8)} {encoders : List (FecEncoder crate)}
    {sequence : UInt16} (hencoders : ∀ enc ∈ encoders, enc.Ok r) :
    (encodeSlices frameIndex timestamp isKeyframe sliceCount sliceIdx slices encoders
        sequence).2.1.length = encoders.length ∧
      ∀ enc ∈ (encodeSlices frameIndex timestamp isKeyframe sliceCount sliceIdx slices
        encoders sequence).2.1, enc.Ok r := by
  induction slices generalizing sliceIdx encoders sequence with
  | nil =>
      simp only [encodeSlices]
      exact ⟨trivial, hencoders⟩
  | cons slice slices ih =>
      cases encoders with
      | nil =>
          simp only [encodeSlices]
          exact ⟨trivial, hencoders⟩
      | cons enc encoders =>
          obtain ⟨hcache, hr⟩ := hencoders enc List.mem_cons_self
          have hstate := FecEncoder.encode_state hcache
            (toDataShards (leBytes SLICE_LEN_PREFIX slice.length ++ slice))
          have hrest : ∀ enc ∈ encoders, enc.Ok r :=
            fun enc henc => hencoders enc (List.mem_cons_of_mem _ henc)
          simp only [encodeSlices]
          generalize enc.encode
            (toDataShards (leBytes SLICE_LEN_PREFIX slice.length ++ slice)) = res at hstate ⊢
          obtain ⟨answer, enc'⟩ := res
          have hok : enc'.Ok r := ⟨hstate.1, hstate.2.trans hr⟩
          cases answer with
          | error e =>
              refine ⟨rfl, ?_⟩
              intro other hother
              rcases List.mem_cons.mp hother with rfl | hother
              · exact hok
              · exact hrest other hother
          | ok shards =>
              simp only
              generalize shardsToPackets shards _ frameIndex timestamp _ sequence = out
              obtain ⟨hlen, hall⟩ := @ih (sliceIdx + 1) encoders out.2 hrest
              refine ⟨by rw [List.length_cons, List.length_cons, hlen], ?_⟩
              intro other hother
              rcases List.mem_cons.mp hother with rfl | hother
              · exact hok
              · exact hall other hother

theorem Ok.encode
    {enc : FrameFecEncoder crate} (h : enc.Ok) (frameData : List UInt8)
    (frameIndex timestamp : UInt32) (isKeyframe : Bool) (sequence : UInt16) :
    (enc.encode frameData frameIndex timestamp isKeyframe sequence).2.1.Ok := by
  unfold FrameFecEncoder.encode
  cases enc.layout frameData with
  | unprotected => exact h
  | bulk =>
      have hstate := FecEncoder.encode_state h.bulk (toDataShards frameData)
      have hok : ∀ bulk : FecEncoder crate, bulk.CacheOk →
          bulk.redundancy = enc.bulk.redundancy →
            ({ enc with bulk } : FrameFecEncoder crate).Ok := by
        intro bulk hcache hr
        exact
          { unit := by rw [hr]; exact h.unit
            bulk := hcache
            length := h.length
            slices := fun slice hslice => by rw [hr]; exact h.slices slice hslice }
      simp only [encodeFrameToPacketsWithFec]
      split_ifs
      · exact hok _ h.bulk rfl
      · generalize enc.bulk.encode (toDataShards frameData) = res at hstate ⊢
        obtain ⟨answer, bulk⟩ := res
        cases answer with
        | error e => exact hok _ hstate.1 hstate.2
        | ok shards => exact hok _ hstate.1 hstate.2
  | sliced n =>
      have hok : ∀ slices : List (FecEncoder crate), slices.length = enc.slices.length →
          (∀ slice ∈ slices, slice.Ok enc.bulk.redundancy) →
          ({ enc with slices } : FrameFecEncoder crate).Ok := by
        intro slices hlen hslices
        exact
          { unit := h.unit
            bulk := h.bulk
            length := hlen.trans h.length
            slices := hslices }
      simp only [encodeFrameSliced]
      split_ifs
      · exact hok _ rfl h.slices
      · exact hok _ rfl h.slices
      · obtain ⟨hlen, hall⟩ := @encodeSlices_encoders crate _ frameIndex timestamp isKeyframe
          (min (min n MAX_SLICE_COUNT) (min frameData.length 255)) 0
          (split frameData (min (min n MAX_SLICE_COUNT) (min frameData.length 255)))
          enc.slices sequence h.slices
        generalize encodeSlices frameIndex timestamp isKeyframe _ 0 _ enc.slices sequence = res
          at hlen hall ⊢
        obtain ⟨answer, encoders, sequence'⟩ := res
        cases answer with
        | none => exact hok _ hlen hall
        | some batches => exact hok _ hlen hall

/-- What a session does with its encoder. -/
inductive Call where
  | setRedundancy (redundancy : F32)
  | encode (frameData : List UInt8) (frameIndex timestamp90khz : UInt32)
      (isKeyframe : Bool) (sequence : UInt16)

def apply (enc : FrameFecEncoder crate) : Call → FrameFecEncoder crate
  | .setRedundancy redundancy => enc.setRedundancy redundancy
  | .encode frameData frameIndex timestamp isKeyframe sequence =>
      (enc.encode frameData frameIndex timestamp isKeyframe sequence).2.1

/-- The encoder after some calls. -/
def after (enc : FrameFecEncoder crate) (calls : List Call) : FrameFecEncoder crate :=
  calls.foldl apply enc

theorem Ok.after
    {enc : FrameFecEncoder crate} (h : enc.Ok) (calls : List Call) :
    (enc.after calls).Ok := by
  induction calls generalizing enc with
  | nil => exact h
  | cons call calls ih =>
      refine ih ?_
      cases call with
      | setRedundancy redundancy => exact h.setRedundancy redundancy
      | encode frameData frameIndex timestamp isKeyframe sequence =>
          exact h.encode frameData frameIndex timestamp isKeyframe sequence

end FrameFecEncoder

/-! ### The packets that arrive -/

/-- The `data_shard_count` that a batch announces. -/
def dataShardCount (batch : List Packet) : Nat :=
  match batch.head?.bind readFvpHeader with
  | some hdr => hdr.dataShardCount.toNat
  | none => 0

/-- How many different packets of a batch are among the packets. -/
def distinctIn (batch packets : List Packet) : Nat :=
  (packets.toFinset.filter fun p => p ∈ batch).card

/-- Enough different shards of every code word. -/
def EnoughShards (batches : List (List Packet)) (packets : List Packet) : Prop :=
  ∀ batch ∈ batches, dataShardCount batch ≤ distinctIn batch packets

section Arrivals

variable {sent : SentFrame crate} {batches : List (List Packet)}

theorem SentFrame.SentAs.carries
    (h : sent.SentAs batches) {g i : Nat} {word : CodeWord crate} {batch : List Packet}
    {packet : Packet} (hword : sent.words[g]? = some word) (hbatch : batches[g]? = some batch)
    (hpacket : batch[i]? = some packet) :
    sent.Carries g i packet :=
  ⟨word, hword, (h.batch g word batch hword hbatch).packet i packet hpacket⟩

/-- Every packet of the batches is one of the frame's. -/
theorem SentFrame.SentAs.sends
    (h : sent.SentAs batches) {packet : Packet} (hpacket : packet ∈ batches.flatten) :
    ∃ (g i : Nat) (word : CodeWord crate) (batch : List Packet),
      sent.words[g]? = some word ∧ batches[g]? = some batch ∧ batch[i]? = some packet := by
  obtain ⟨batch, hbatch, hmem⟩ := List.mem_flatten.mp hpacket
  obtain ⟨g, hg⟩ := List.mem_iff_getElem?.mp hbatch
  obtain ⟨i, hi⟩ := List.mem_iff_getElem?.mp hmem
  have hlt : g < sent.words.length := by
    rw [← h.length]
    exact (List.getElem?_eq_some_iff.mp hg).1
  exact ⟨g, i, _, batch, List.getElem?_eq_getElem hlt, hg, hi⟩

theorem SentFrame.SentAs.dataShardCount_eq
    (h : sent.SentAs batches) {g : Nat} {word : CodeWord crate} {batch : List Packet}
    (hword : sent.words[g]? = some word) (hbatch : batches[g]? = some batch) :
    dataShardCount batch = word.dataCount := by
  have hsent := h.batch g word batch hword hbatch
  have hpos := word.dataCount_pos
  have hle := word.dataCount_le
  have hlen := hsent.length
  cases batch with
  | nil =>
      simp only [List.length_nil] at hlen
      omega
  | cons packet rest =>
      obtain ⟨hheader, -⟩ := hsent.packet 0 packet rfl
      have hcounts := @SentFrame.header_counts crate word sent.frameIndex (sent.flags g) 0
        (by omega)
      simp only [dataShardCount, List.head?_cons, Option.bind_some, hheader]
      exact hcounts.2.2

/-- Different packets of a batch carry different shards. -/
theorem SentFrame.SentAs.distinctIn_eq
    (h : sent.SentAs batches) {packets : List Packet}
    (hpackets : ∀ p ∈ packets, p ∈ batches.flatten)
    {g : Nat} {word : CodeWord crate} {batch : List Packet}
    (hword : sent.words[g]? = some word) (hbatch : batches[g]? = some batch) :
    distinctIn batch packets = (seenIn packets g).card := by
  have hposition : ∀ p ∈ batch, ∃ i, batch[i]? = some p ∧ position p = (g, i) := by
    intro p hp
    obtain ⟨i, hi⟩ := List.mem_iff_getElem?.mp hp
    exact ⟨i, hi, (h.carries hword hbatch hi).position_eq⟩
  have himage : seenIn packets g =
      (packets.toFinset.filter fun p => p ∈ batch).image fun p => (position p).2 := by
    ext j
    simp only [seenIn, List.mem_toFinset, List.mem_map, List.mem_filter, decide_eq_true_eq,
      Finset.mem_image, Finset.mem_filter]
    constructor
    · rintro ⟨p, ⟨hp, hg⟩, hj⟩
      obtain ⟨g', i, word', batch', hword', hbatch', hi⟩ := h.sends (hpackets p hp)
      rw [(h.carries hword' hbatch' hi).position_eq] at hg
      subst hg
      rw [hbatch] at hbatch'
      cases hbatch'
      exact ⟨p, ⟨hp, List.mem_of_getElem? hi⟩, hj⟩
    · rintro ⟨p, ⟨hp, hmem⟩, hj⟩
      obtain ⟨i, -, hpos⟩ := hposition p hmem
      exact ⟨p, ⟨hp, by rw [hpos]⟩, hj⟩
  unfold distinctIn
  rw [himage, Finset.card_image_of_injOn]
  intro p hp q hq hpq
  obtain ⟨i, hi, hposP⟩ := hposition p (Finset.mem_filter.mp hp).2
  obtain ⟨j, hj, hposQ⟩ := hposition q (Finset.mem_filter.mp hq).2
  simp only [hposP, hposQ] at hpq
  subst hpq
  rw [hi] at hj
  exact Option.some.inj hj

theorem SentFrame.SentAs.enough_iff
    (h : sent.SentAs batches) {packets : List Packet}
    (hpackets : ∀ p ∈ packets, p ∈ batches.flatten) :
    EnoughShards batches packets ↔ sent.Complete (seenIn packets) := by
  constructor
  · intro henough g word hword
    have hlt : g < batches.length := by
      rw [h.length]
      exact (List.getElem?_eq_some_iff.mp hword).1
    have hbatch := List.getElem?_eq_getElem hlt
    rw [← h.distinctIn_eq hpackets hword hbatch, ← h.dataShardCount_eq hword hbatch]
    exact henough _ (List.getElem_mem hlt)
  · intro hcomplete batch hmem
    obtain ⟨g, hbatch⟩ := List.mem_iff_getElem?.mp hmem
    have hlt : g < sent.words.length := by
      rw [← h.length]
      exact (List.getElem?_eq_some_iff.mp hbatch).1
    have hword := List.getElem?_eq_getElem hlt
    rw [h.distinctIn_eq hpackets hword hbatch, h.dataShardCount_eq hword hbatch]
    exact hcomplete g _ hword

/-- Without any loss there are enough shards. -/
theorem SentFrame.SentAs.complete_of_all
    (h : sent.SentAs batches) {packets : List Packet}
    (hall : ∀ p ∈ batches.flatten, p ∈ packets) :
    sent.Complete (seenIn packets) := by
  intro g word hword
  have hlt : g < batches.length := by
    rw [h.length]
    exact (List.getElem?_eq_some_iff.mp hword).1
  have hbatch := List.getElem?_eq_getElem hlt
  have hlen := (h.batch g word _ hword hbatch).length
  have hsubset : Finset.range word.shards.length ⊆ seenIn packets g := by
    intro i hi
    rw [Finset.mem_range, ← hlen] at hi
    have hposition := (h.carries hword hbatch (List.getElem?_eq_getElem hi)).position_eq
    have hmem := hall _ (List.mem_flatten_of_mem (List.getElem_mem hlt) (List.getElem_mem hi))
    simp only [seenIn, List.mem_toFinset, List.mem_map, List.mem_filter, decide_eq_true_eq]
    exact ⟨_, ⟨hmem, by rw [hposition]⟩, by rw [hposition]⟩
  have hcard := Finset.card_le_card hsubset
  rw [Finset.card_range] at hcard
  exact Nat.le_trans word.dataCount_le hcard

end Arrivals

/--
**FEC end to end.**  The packets of a frame, in any order, with losses and
duplicates, are fed to a fresh reassembler.  With enough different shards of
every code word exactly one frame is returned, the one that was sent; otherwise
none is.
-/
theorem fec_end_to_end
    (hcrate : crate.Correct) {redundancy : F32} (hunit : UnitInterval redundancy)
    (sliceFecEnabled : Bool) (sliceCount : Nat) (calls : List FrameFecEncoder.Call)
    {frameData : List UInt8} (hframe : frameData ≠ [])
    (frameIndex timestamp : UInt32) (isKeyframe : Bool) (sequence : UInt16) :
    let enc := (FrameFecEncoder.new redundancy sliceFecEnabled sliceCount :
      FrameFecEncoder crate).after calls
    let batches := (enc.encode frameData frameIndex timestamp isKeyframe sequence).1
    enc.Fits frameData →
    ∀ packets : List Packet, (∀ p ∈ packets, p ∈ batches.flatten) →
      (EnoughShards batches packets →
        FecFrameReassembler.frames crate FecFrameReassembler.new packets =
          [⟨frameIndex, isKeyframe, receivedData (enc.layout frameData) frameData⟩]) ∧
      (¬ EnoughShards batches packets →
        FecFrameReassembler.frames crate FecFrameReassembler.new packets = []) := by
  intro enc batches hfits packets hpackets
  have henc : enc.Ok := (FrameFecEncoder.ok_new hunit sliceFecEnabled sliceCount).after calls
  obtain ⟨sent, hsent, -, -, hresult⟩ :=
    @FrameFecEncoder.encode_sentAs crate enc frameData frameIndex timestamp isKeyframe
      sequence hcrate henc hframe hfits
  have hsends : ∀ p ∈ packets, sent.Sends p := by
    intro p hp
    obtain ⟨g, i, word, batch, hword, hbatch, hi⟩ := hsent.sends (hpackets p hp)
    exact ⟨g, i, hsent.carries hword hbatch hi⟩
  have hother : OtherFrame sent FecFrameReassembler.new :=
    fun frame hnone => absurd hnone (by simp [FecFrameReassembler.new])
  obtain ⟨houtcome, -⟩ := emitted_sent hother packets hsends
  rw [hsent.enough_iff hpackets, ← hresult]
  exact ⟨houtcome.complete, houtcome.incomplete⟩

/-- An encoder whose redundancy was changed once. -/
def sampleEncoder : FrameFecEncoder galois8 :=
  (FrameFecEncoder.new (f32 1 2) false 4).after [.setRedundancy (f32 2 5)]

/-- The packets of a keyframe of three bytes. -/
def sampleBatches : List (List Packet) :=
  (sampleEncoder.encode [1, 2, 3] 7 90 true 65535).1

theorem sample_bulk :
    UnitInterval (f32 1 2) ∧ sampleEncoder.layout [1, 2, 3] = .bulk := by
  decide +kernel

/-- All packets of the frame, backwards and then again in order. -/
theorem fec_end_to_end_reversed :
    EnoughShards sampleBatches (sampleBatches.flatten.reverse ++ sampleBatches.flatten) ∧
      FecFrameReassembler.frames galois8 FecFrameReassembler.new
          (sampleBatches.flatten.reverse ++ sampleBatches.flatten) =
        [⟨7, true, [1, 2, 3] ++ List.replicate 1197 0⟩] := by
  obtain ⟨hunit, hlayout⟩ := sample_bulk
  have hfits : sampleEncoder.Fits [1, 2, 3] := by
    intro hunprotected
    rw [hlayout] at hunprotected
    exact absurd hunprotected (by simp)
  have hpackets : ∀ p ∈ sampleBatches.flatten.reverse ++ sampleBatches.flatten,
      p ∈ sampleBatches.flatten := by
    intro p hp
    rcases List.mem_append.mp hp with h | h
    · exact List.mem_reverse.mp h
    · exact h
  obtain ⟨sent, hsent, -⟩ :=
    @FrameFecEncoder.encode_sentAs galois8 sampleEncoder [1, 2, 3] 7 90 true 65535
      galois8_vandermonde.correct ((FrameFecEncoder.ok_new hunit false 4).after _)
      (by simp) hfits
  have henough :
      EnoughShards sampleBatches (sampleBatches.flatten.reverse ++ sampleBatches.flatten) :=
    (hsent.enough_iff hpackets).mpr
      (hsent.complete_of_all fun p hp => List.mem_append_right _ hp)
  have h := (@fec_end_to_end galois8 galois8_vandermonde.correct (f32 1 2) hunit false 4
    [.setRedundancy (f32 2 5)] [1, 2, 3] (by simp) 7 90 true 65535 hfits _ hpackets).1 henough
  have hdata : receivedData (sampleEncoder.layout [1, 2, 3]) [1, 2, 3] =
      [1, 2, 3] ++ List.replicate 1197 0 := by
    rw [hlayout]
    rfl
  refine ⟨henough, h.trans ?_⟩
  exact congrArg (fun data => [(⟨7, true, data⟩ : ReassembledFrame)]) hdata

end Engine
end FocusVision
