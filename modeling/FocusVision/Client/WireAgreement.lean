import FocusVision.Client.ClientProtocol
import FocusVision.Client.PacketHeader
import FocusVision.Engine.WireFormats

/-!
# The engine and the client agree on the wire

Every payload that one side writes is read back by the other side with the same
values, and both sides read the pose in front of a frame alike.
-/

namespace FocusVision
namespace Client

open Bytes Engine

/-! ### Reading a field -/

theorem readU16Le_field
    {bs : List UInt8} {offset : Nat} {v : UInt16} (h : FieldAt bs offset (leBytes 2 v.toNat)) :
    Engine.readU16Le bs offset = v := by
  have hread := h.ofLeBytes_eq (show v.toNat < 256 ^ 2 from v.toNat_lt)
  unfold window at hread
  rw [Engine.readU16Le, hread, UInt16.ofNat_toNat]

theorem readU32Le_field
    {bs : List UInt8} {offset : Nat} {v : UInt32} (h : FieldAt bs offset (leBytes 4 v.toNat)) :
    Engine.readU32Le bs offset = v := by
  have hread := h.ofLeBytes_eq (show v.toNat < 256 ^ 4 from v.toNat_lt)
  unfold window at hread
  rw [Engine.readU32Le, hread, UInt32.ofNat_toNat]

theorem readU64_field
    {bs : List UInt8} {offset : Nat} {v : UInt64} (h : FieldAt bs offset (leBytes 8 v.toNat)) :
    readU64 bs offset = v := by
  have hread := h.ofLeBytes_eq (show v.toNat < 256 ^ 8 from v.toNat_lt)
  unfold window at hread
  rw [readU64, hread, UInt64.ofNat_toNat]

/-- Both sides read a float in the same way. -/
theorem copyF32_eq
    (bs : List UInt8) (offset : Nat) :
    copyF32 bs offset = readF32 bs offset :=
  rfl

theorem readF32_field
    {bs : List UInt8} {offset : Nat} {x : F32} (h : FieldAt bs offset (f32Bytes x)) :
    readF32 bs offset = x := by
  have hread := h.ofLeBytes_eq (show x.toBits < 256 ^ 4 from x.toBits_lt)
  rw [← copyF32_eq, copyF32, hread, Flt.ofBits_toBits]

/-- The client reads a number as the engine does. -/
theorem client_readU32Le_field
    {bs : List UInt8} {offset : Nat} {v : UInt32} (h : FieldAt bs offset (leBytes 4 v.toNat)) :
    Client.readU32Le bs offset = v := by
  have hlength := h.length_le (List.ne_nil_of_length_pos (by simp))
  rw [length_leBytes] at hlength
  rw [readU32Le_eq hlength, readU32Le_field h]

/-! ### `STREAM_CONFIG` -/

/-- What a client reads of a `STREAM_CONFIG` is what was encoded. -/
theorem parseStreamConfig_encode
    (v : VideoConfig) (codec : VideoCodec) (clientCaps : UInt8) (out : StreamConfigView) :
    parseStreamConfig (encodeStreamConfig v codec clientCaps) out =
      (true,
        { width := v.resolutionPerEye.1
          height := v.resolutionPerEye.2
          bitrateMbps := v.bitrateMbps
          framerate := v.framerate
          codec := codec.byte
          encodedWidth := (encodedDims v clientCaps).1
          encodedHeight := (encodedDims v clientCaps).2
          layout := STEREO_SIDE_BY_SIDE
          framePose := decide (clientCaps &&& HelloCaps.FRAME_POSE ≠ 0) }) := by
  simp only [encodeStreamConfig]
  generalize encodedDims v clientCaps = enc
  generalize hpose : (if clientCaps &&& HelloCaps.FRAME_POSE ≠ 0 then 1 else 0 : UInt8) = pose
  generalize hfields : [leBytes 4 v.resolutionPerEye.1.toNat,
    leBytes 4 v.resolutionPerEye.2.toNat, leBytes 4 v.bitrateMbps.toNat,
    leBytes 4 v.framerate.toNat, [codec.byte], leBytes 4 enc.1.toNat,
    leBytes 4 enc.2.toNat, [SIDE_BY_SIDE], [pose]] = fields
  have hlength : fields.flatten.length = 27 := by subst hfields; rfl
  have hfield := @fieldAt_flatten fields
  subst hfields
  unfold parseStreamConfig
  rw [if_neg (by omega)]
  simp only [hlength]
  rw [client_readU32Le_field (hfield 0 0 rfl rfl),
    client_readU32Le_field (hfield 1 4 rfl rfl),
    client_readU32Le_field (hfield 2 8 rfl rfl),
    client_readU32Le_field (hfield 3 12 rfl rfl),
    client_readU32Le_field (hfield 5 17 rfl rfl),
    client_readU32Le_field (hfield 6 21 rfl rfl),
    (hfield 4 16 rfl rfl).getD_eq, (hfield 7 25 rfl rfl).getD_eq,
    (hfield 8 26 rfl rfl).getD_eq]
  have hflag : pose = 1 ↔ clientCaps &&& HelloCaps.FRAME_POSE ≠ 0 := by
    rw [← hpose]
    split
    · exact ⟨fun _ => ‹_›, fun _ => rfl⟩
    · exact ⟨fun h => absurd h (by decide), fun h => absurd h ‹_›⟩
  simp [hflag, SIDE_BY_SIDE, STEREO_SIDE_BY_SIDE]

/-! ### The pose of a frame -/

/-- The engine's orientation, as the client keeps it. -/
def FramePose.of : Option (F32 × F32 × F32 × F32) → FramePose
  | none => {}
  | some q => ⟨true, q⟩

/-- All four components are finite. -/
def finiteOrientation (q : F32 × F32 × F32 × F32) : Bool :=
  q.1.isFinite && q.2.1.isFinite && q.2.2.1.isFinite && q.2.2.2.isFinite

theorem byteAt_eq_iff
    (bs : List UInt8) (i : Nat) (b : UInt8) :
    byteAt bs i = b.toNat ↔ bs.getD i 0 = b :=
  UInt8.toNat_inj

/-- Both sides ask for the same first three bytes. -/
theorem take_two_eq_iff
    {frame : List UInt8} (h : 2 ≤ frame.length) :
    frame.take 2 = Engine.FramePose.MAGIC ↔ byteAt frame 0 = 0x46 ∧ byteAt frame 1 = 0x50 := by
  match frame, h with
  | a :: b :: rest, _ =>
      have ha := byteAt_eq_iff (a :: b :: rest) 0 0x46
      have hb := byteAt_eq_iff (a :: b :: rest) 1 0x50
      simp only [List.getD_cons_zero, List.getD_cons_succ] at ha hb
      have hbytes : (0x46 : UInt8).toNat = 0x46 ∧ (0x50 : UInt8).toNat = 0x50 := ⟨rfl, rfl⟩
      rw [hbytes.1] at ha
      rw [hbytes.2] at hb
      rw [ha, hb, Engine.FramePose.MAGIC]
      simp

theorem prefix_iff
    (frame : List UInt8) :
    (frame.length < FRAME_POSE_LEN ∨ byteAt frame 0 ≠ 0x46 ∨ byteAt frame 1 ≠ 0x50 ∨
        byteAt frame 2 ≠ 1) ↔
      (frame.length < Engine.FramePose.LEN ∨ frame.take 2 ≠ Engine.FramePose.MAGIC ∨
        frame.getD 2 0 ≠ Engine.FramePose.VERSION) := by
  have hlen : Engine.FramePose.LEN = FRAME_POSE_LEN := rfl
  rw [hlen]
  by_cases hshort : frame.length < FRAME_POSE_LEN
  · simp [hshort]
  · have htwo : 2 ≤ frame.length := by
      unfold FRAME_POSE_LEN at hshort
      omega
    have hversion := byteAt_eq_iff frame 2 Engine.FramePose.VERSION
    have hone : Engine.FramePose.VERSION.toNat = 1 := rfl
    rw [hone] at hversion
    have htake := take_two_eq_iff htwo
    simp only [ne_eq, ← hversion, htake]
    tauto

/-- The flag in byte 3. -/
theorem known_iff
    (frame : List UInt8) :
    byteAt frame 3 &&& 0x01 ≠ 0 ↔
      frame.getD 3 0 &&& Engine.FramePose.ORIENTATION_KNOWN ≠ 0 := by
  have hand : (frame.getD 3 0 &&& Engine.FramePose.ORIENTATION_KNOWN).toNat =
      byteAt frame 3 &&& 0x01 := by
    rw [UInt8.toNat_and]
    rfl
  rw [← hand, ne_eq, ne_eq, ← UInt8.toNat_inj]
  rfl

/-- On every byte string, both parsers find the same prefix. -/
theorem parseFramePose_eq
    (frame : List UInt8) (out : FramePose) :
    match Engine.FramePose.parse frame with
    | none => parseFramePose frame out = (0, out)
    | some (orientation, rest) =>
        parseFramePose frame out = (FRAME_POSE_LEN, .of orientation) ∧
          rest = frame.drop FRAME_POSE_LEN := by
  unfold Engine.FramePose.parse parseFramePose
  by_cases hprefix : frame.length < FRAME_POSE_LEN ∨ byteAt frame 0 ≠ 0x46 ∨
      byteAt frame 1 ≠ 0x50 ∨ byteAt frame 2 ≠ 1
  · rw [if_pos hprefix, if_pos ((prefix_iff frame).mp hprefix)]
  · rw [if_neg hprefix, if_neg (fun h => hprefix ((prefix_iff frame).mpr h))]
    by_cases hknown : frame.getD 3 0 &&& Engine.FramePose.ORIENTATION_KNOWN ≠ 0
    · rw [if_pos ((known_iff frame).mpr hknown)]
      rw [if_neg hknown]
      have hsame : (fun i => copyF32 frame (4 + i * 4)) =
          fun i => readF32 frame (4 + i * 4) := rfl
      rw [hsame]
      generalize (fun i => readF32 frame (4 + i * 4)) = f
      cases hfinite : (f 0).isFinite && (f 1).isFinite && (f 2).isFinite && (f 3).isFinite with
      | true =>
          simp only [hfinite, if_true]
          exact ⟨rfl, rfl⟩
      | false =>
          simp only [hfinite]
          exact ⟨rfl, rfl⟩
    · rw [if_neg (fun h => hknown ((known_iff frame).mp h))]
      simp only [if_pos (not_not.mp hknown)]
      exact ⟨rfl, rfl⟩

/-- A known pose, field by field. -/
theorem encode_some
    (x y z w : F32) :
    Engine.FramePose.encode (some (x, y, z, w)) =
      [[0x46, 0x50, 1, 1], f32Bytes x, f32Bytes y, f32Bytes z, f32Bytes w].flatten := by
  have hheader : ((overwrite (List.replicate Engine.FramePose.LEN 0) 0
      Engine.FramePose.MAGIC).set 2 Engine.FramePose.VERSION).set 3
      Engine.FramePose.ORIENTATION_KNOWN = [0x46, 0x50, 1, 1] ++ List.replicate 16 0 := by
    decide
  simp only [Engine.FramePose.encode]
  rw [hheader, overwriteAll_eq (by simp)]
  simp [overwrite]

/-- A frame that starts with a known orientation. -/
theorem parse_known
    {frame : List UInt8} (hlength : 20 ≤ frame.length)
    (hhead : frame.take 4 = [0x46, 0x50, 1, 1]) :
    Engine.FramePose.parse frame =
      some ((some (readF32 frame 4, readF32 frame 8, readF32 frame 12,
        readF32 frame 16)).filter finiteOrientation, frame.drop 20) := by
  obtain ⟨rest, rfl⟩ : ∃ rest, frame = [0x46, 0x50, 1, 1] ++ rest :=
    ⟨frame.drop 4, by rw [← hhead, List.take_append_drop]⟩
  generalize hframe : [0x46, 0x50, 1, 1] ++ rest = frame at *
  have hmagic : frame.take 2 = Engine.FramePose.MAGIC := by subst hframe; rfl
  have hversion : frame.getD 2 0 = Engine.FramePose.VERSION := by subst hframe; rfl
  have hflags : frame.getD 3 0 = 1 := by subst hframe; rfl
  have hknown : ¬(1 : UInt8) &&& Engine.FramePose.ORIENTATION_KNOWN = 0 := by decide
  have hprefix : ¬(frame.length < Engine.FramePose.LEN ∨
      frame.take 2 ≠ Engine.FramePose.MAGIC ∨
      frame.getD 2 0 ≠ Engine.FramePose.VERSION) := by
    rintro (hshort | hother | hother)
    · exact absurd hlength (Nat.not_le.mpr hshort)
    · exact hother hmagic
    · exact hother hversion
  unfold Engine.FramePose.parse
  rw [if_neg hprefix]
  simp only [hflags, if_neg hknown]
  rw [Option.filter_some]
  unfold finiteOrientation
  split
  · rfl
  · rfl

/-- What the engine reads of an encoded pose: a component that is not finite makes it
unknown. -/
theorem parse_encode
    (orientation : Option (F32 × F32 × F32 × F32)) (rest : List UInt8) :
    Engine.FramePose.parse (Engine.FramePose.encode orientation ++ rest) =
      some (orientation.filter finiteOrientation, rest) := by
  cases orientation with
  | none =>
      have hencode : Engine.FramePose.encode none =
          [0x46, 0x50, 1, 0] ++ List.replicate 16 0 := by decide
      rw [hencode]
      simp [Engine.FramePose.parse, Engine.FramePose.LEN, Engine.FramePose.MAGIC,
        Engine.FramePose.VERSION]
  | some q =>
      obtain ⟨x, y, z, w⟩ := q
      rw [encode_some]
      generalize hfields :
        [[0x46, 0x50, 1, 1], f32Bytes x, f32Bytes y, f32Bytes z, f32Bytes w, rest] = fields
      have hframe : [[0x46, 0x50, 1, 1], f32Bytes x, f32Bytes y, f32Bytes z,
          f32Bytes w].flatten ++ rest = fields.flatten := by
        subst hfields
        simp
      have hlength : 20 ≤ fields.flatten.length := by
        rw [← hframe]
        simp only [List.length_append, List.flatten_cons, List.flatten_nil, List.length_cons,
          List.length_nil, length_f32Bytes]
        omega
      have hrest : fields.flatten.drop 20 = rest := by
        rw [← hframe]
        exact List.drop_left' (by simp)
      have hfield := @fieldAt_flatten fields
      rw [hframe, parse_known hlength (by subst hfields; rfl), hrest]
      subst hfields
      rw [readF32_field (hfield 1 4 rfl rfl), readF32_field (hfield 2 8 rfl rfl),
        readF32_field (hfield 3 12 rfl rfl), readF32_field (hfield 4 16 rfl rfl)]

/-- What the client reads of an encoded pose in front of a frame. -/
theorem parseFramePose_encode
    (orientation : Option (F32 × F32 × F32 × F32)) (rest : List UInt8) (out : FramePose) :
    parseFramePose (Engine.FramePose.encode orientation ++ rest) out =
        (FRAME_POSE_LEN, .of (orientation.filter finiteOrientation)) ∧
      (Engine.FramePose.encode orientation ++ rest).drop FRAME_POSE_LEN = rest := by
  have hboth := parseFramePose_eq (Engine.FramePose.encode orientation ++ rest) out
  rw [parse_encode] at hboth
  exact ⟨hboth.1, hboth.2.symm⟩

/-! ### Tracking packets -/

/-- The engine reads the pose that the client sends. -/
theorem parseHeadPose_send
    (pose : XrPosef) (timestampNs : Int64) (gazeX gazeY : F32) (gazeValid : Bool) :
    ∃ payload,
      TrackingSender.sendHeadPose ⟨true⟩ pose timestampNs gazeX gazeY gazeValid =
          some (Engine.PACKET_HEAD_POSE :: payload) ∧
        parseHeadPose payload = some
          { position := pose.position
            orientation := pose.orientation
            timestampNs := timestampNs.toUInt64
            gazeX
            gazeY
            gazeValid := if gazeValid then 1 else 0 } := by
  generalize hts : timestampNs.toUInt64 = ts
  generalize hvalid : (if gazeValid then 1 else 0 : UInt8) = valid
  generalize hfields : [leBytes 8 ts.toNat, f32Bytes pose.position.1,
    f32Bytes pose.position.2.1, f32Bytes pose.position.2.2, f32Bytes pose.orientation.1,
    f32Bytes pose.orientation.2.1, f32Bytes pose.orientation.2.2.1,
    f32Bytes pose.orientation.2.2.2, f32Bytes gazeX, f32Bytes gazeY, [valid]] = fields
  refine ⟨fields.flatten, ?_, ?_⟩
  · subst hfields hts hvalid
    rfl
  have hlength : fields.flatten.length = 45 := by subst hfields; rfl
  have hfield := @fieldAt_flatten fields
  unfold parseHeadPose
  rw [if_neg (by omega), if_pos (by omega)]
  subst hfields
  rw [readU64_field (hfield 0 0 rfl rfl), readF32_field (hfield 1 8 rfl rfl),
    readF32_field (hfield 2 12 rfl rfl), readF32_field (hfield 3 16 rfl rfl),
    readF32_field (hfield 4 20 rfl rfl), readF32_field (hfield 5 24 rfl rfl),
    readF32_field (hfield 6 28 rfl rfl), readF32_field (hfield 7 32 rfl rfl),
    readF32_field (hfield 8 36 rfl rfl), readF32_field (hfield 9 40 rfl rfl),
    (hfield 10 44 rfl rfl).getD_eq]

/-- The engine reads the controller that the client sends. -/
theorem parseController_send
    (controllerId : UInt8) (pose : XrPosef) (timestampNs : Int64)
    (trigger grip thumbstickX thumbstickY : F32) (buttonFlags : UInt32) (battery : UInt8) :
    ∃ payload,
      TrackingSender.sendControllerState ⟨true⟩ controllerId pose timestampNs trigger grip
          thumbstickX thumbstickY buttonFlags battery =
          some (Engine.PACKET_CONTROLLER :: payload) ∧
        parseController payload = some
          { controllerId
            timestampNs := timestampNs.toUInt64
            position := pose.position
            orientation := pose.orientation
            trigger
            grip
            thumbstickX
            thumbstickY
            buttonFlags
            batteryLevel := battery } := by
  generalize hts : timestampNs.toUInt64 = ts
  generalize hfields : [[controllerId], leBytes 8 ts.toNat, f32Bytes pose.position.1,
    f32Bytes pose.position.2.1, f32Bytes pose.position.2.2, f32Bytes pose.orientation.1,
    f32Bytes pose.orientation.2.1, f32Bytes pose.orientation.2.2.1,
    f32Bytes pose.orientation.2.2.2, f32Bytes trigger, f32Bytes grip, f32Bytes thumbstickX,
    f32Bytes thumbstickY, leBytes 4 buttonFlags.toNat, [battery]] = fields
  refine ⟨fields.flatten, ?_, ?_⟩
  · subst hfields hts
    rfl
  have hlength : fields.flatten.length = 58 := by subst hfields; rfl
  have hfield := @fieldAt_flatten fields
  have hbuttons : Engine.readU32Le fields.flatten 53 = buttonFlags :=
    readU32Le_field (hfield 13 53 (by subst hfields; rfl) (by subst hfields; rfl))
  unfold parseController
  rw [if_neg (by omega), if_pos (by omega), if_pos (by omega)]
  unfold Engine.readU32Le at hbuttons
  rw [hbuttons]
  subst hfields
  rw [readU64_field (hfield 1 1 rfl rfl), readF32_field (hfield 2 9 rfl rfl),
    readF32_field (hfield 3 13 rfl rfl), readF32_field (hfield 4 17 rfl rfl),
    readF32_field (hfield 5 21 rfl rfl), readF32_field (hfield 6 25 rfl rfl),
    readF32_field (hfield 7 29 rfl rfl), readF32_field (hfield 8 33 rfl rfl),
    readF32_field (hfield 9 37 rfl rfl), readF32_field (hfield 10 41 rfl rfl),
    readF32_field (hfield 11 45 rfl rfl), readF32_field (hfield 12 49 rfl rfl),
    (hfield 0 0 rfl rfl).getD_eq, (hfield 14 57 rfl rfl).getD_eq]

/-! ### `VIEW_CONFIG` and `HEARTBEAT` -/

/-- The field of view, on the engine's side. -/
def EyeFov.toEngine (e : EyeFov) : Engine.EyeFov :=
  ⟨e.left, e.right, e.up, e.down⟩

/-- The engine reads the views that the client reports, if it finds them plausible. -/
theorem parseViewConfig_build
    (left right : EyeFov) (ipdM : F32) :
    parseViewConfig (buildViewConfigPayload left right ipdM) =
      if plausibleEye left.toEngine && plausibleEye right.toEngine &&
          plausibleIpd (roundedIpd ipdM) then
        some ⟨(left.toEngine, right.toEngine), roundedIpd ipdM⟩
      else none := by
  simp only [buildViewConfigPayload]
  generalize roundedIpd ipdM = ipd
  generalize hfields : [left.left, left.right, left.up, left.down, right.left, right.right,
    right.up, right.down, ipd].map f32Bytes = fields
  have hlength : fields.flatten.length = 36 := by subst hfields; rfl
  have hfield := @fieldAt_flatten fields
  have hpayload : overwriteAll (List.replicate VIEW_CONFIG_PAYLOAD_LEN 0) 0 fields =
      fields.flatten := by
    rw [overwriteAll_eq (by simp [hlength, VIEW_CONFIG_PAYLOAD_LEN]),
      overwrite_all (by simp [hlength, VIEW_CONFIG_PAYLOAD_LEN])]
  rw [hpayload]
  unfold parseViewConfig
  rw [if_neg (by simp [hlength, Engine.VIEW_CONFIG_PAYLOAD_LEN])]
  subst hfields
  simp only [Nat.zero_mul, Nat.zero_add, Nat.reduceMul, Nat.reduceAdd]
  rw [readF32_field (hfield 0 0 rfl rfl), readF32_field (hfield 1 4 rfl rfl),
    readF32_field (hfield 2 8 rfl rfl), readF32_field (hfield 3 12 rfl rfl),
    readF32_field (hfield 4 16 rfl rfl), readF32_field (hfield 5 20 rfl rfl),
    readF32_field (hfield 6 24 rfl rfl), readF32_field (hfield 7 28 rfl rfl),
    readF32_field (hfield 8 32 rfl rfl)]
  rfl

/-- The engine reads the statistics that the client sends. -/
theorem heartbeatStats_build
    (sequence : UInt32) (timestampMs : UInt64) (s : HeartbeatStats) :
    heartbeatStats (buildHeartbeatPayload sequence timestampMs s) =
      some
        { packetsReceived := s.packetsReceived
          packetsLost := s.packetsLost
          avgDecodeUs := s.avgDecodeUs
          fps := s.fps } := by
  generalize hfields : [leBytes 4 s.packetsReceived.toNat, leBytes 4 s.packetsLost.toNat,
    leBytes 4 s.avgDecodeUs.toNat, leBytes 2 s.fps.toNat] = fields
  have hlength : (buildHeartbeatPayload sequence timestampMs s).length = 26 := rfl
  have hstats : (buildHeartbeatPayload sequence timestampMs s).drop 12 = fields.flatten := by
    subst hfields
    rfl
  have hfield := @fieldAt_flatten fields
  unfold heartbeatStats
  rw [if_pos (by omega)]
  simp only [hstats]
  subst hfields
  rw [readU32Le_field (hfield 0 0 rfl rfl), readU32Le_field (hfield 1 4 rfl rfl),
    readU32Le_field (hfield 2 8 rfl rfl), readU16Le_field (hfield 3 12 rfl rfl)]

/-- **The wire.**  Each side reads what the other one wrote. -/
theorem wire_agrees :
    (∀ (v : VideoConfig) (codec : VideoCodec) (clientCaps : UInt8) (out : StreamConfigView),
      parseStreamConfig (encodeStreamConfig v codec clientCaps) out =
        (true,
          { width := v.resolutionPerEye.1
            height := v.resolutionPerEye.2
            bitrateMbps := v.bitrateMbps
            framerate := v.framerate
            codec := codec.byte
            encodedWidth := (encodedDims v clientCaps).1
            encodedHeight := (encodedDims v clientCaps).2
            layout := STEREO_SIDE_BY_SIDE
            framePose := decide (clientCaps &&& HelloCaps.FRAME_POSE ≠ 0) })) ∧
    (∀ (orientation : Option (F32 × F32 × F32 × F32)) (rest : List UInt8) (out : FramePose),
      parseFramePose (Engine.FramePose.encode orientation ++ rest) out =
          (FRAME_POSE_LEN, .of (orientation.filter finiteOrientation)) ∧
        (Engine.FramePose.encode orientation ++ rest).drop FRAME_POSE_LEN = rest) ∧
    (∀ (frame : List UInt8) (out : FramePose),
      match Engine.FramePose.parse frame with
      | none => parseFramePose frame out = (0, out)
      | some (orientation, rest) =>
          parseFramePose frame out = (FRAME_POSE_LEN, .of orientation) ∧
            rest = frame.drop FRAME_POSE_LEN) ∧
    (∀ (pose : XrPosef) (timestampNs : Int64) (gazeX gazeY : F32) (gazeValid : Bool),
      ∃ payload,
        TrackingSender.sendHeadPose ⟨true⟩ pose timestampNs gazeX gazeY gazeValid =
            some (Engine.PACKET_HEAD_POSE :: payload) ∧
          parseHeadPose payload = some
            { position := pose.position
              orientation := pose.orientation
              timestampNs := timestampNs.toUInt64
              gazeX
              gazeY
              gazeValid := if gazeValid then 1 else 0 }) ∧
    (∀ (controllerId : UInt8) (pose : XrPosef) (timestampNs : Int64)
        (trigger grip thumbstickX thumbstickY : F32) (buttonFlags : UInt32)
        (battery : UInt8),
      ∃ payload,
        TrackingSender.sendControllerState ⟨true⟩ controllerId pose timestampNs trigger grip
            thumbstickX thumbstickY buttonFlags battery =
            some (Engine.PACKET_CONTROLLER :: payload) ∧
          parseController payload = some
            { controllerId
              timestampNs := timestampNs.toUInt64
              position := pose.position
              orientation := pose.orientation
              trigger
              grip
              thumbstickX
              thumbstickY
              buttonFlags
              batteryLevel := battery }) ∧
    (∀ (left right : EyeFov) (ipdM : F32),
      parseViewConfig (buildViewConfigPayload left right ipdM) =
        if plausibleEye left.toEngine && plausibleEye right.toEngine &&
            plausibleIpd (roundedIpd ipdM) then
          some ⟨(left.toEngine, right.toEngine), roundedIpd ipdM⟩
        else none) ∧
    (∀ (sequence : UInt32) (timestampMs : UInt64) (s : HeartbeatStats),
      heartbeatStats (buildHeartbeatPayload sequence timestampMs s) =
        some
          { packetsReceived := s.packetsReceived
            packetsLost := s.packetsLost
            avgDecodeUs := s.avgDecodeUs
            fps := s.fps }) :=
  ⟨parseStreamConfig_encode, parseFramePose_encode, parseFramePose_eq, parseHeadPose_send,
    parseController_send, parseViewConfig_build, heartbeatStats_build⟩

end Client
end FocusVision
