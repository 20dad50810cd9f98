import FocusVision.Client.FrameAssembler
import FocusVision.Lib.ByteFields
import FocusVision.Lib.FloatBits

/-!
# Payloads on the client's side

The payloads that the client writes and reads: the builders and parsers of
`client_protocol.h`, and the packets of `TrackingSender`.  A float is copied with its
bits.

Left out: the socket of `TrackingSender`; a send returns the datagram it hands over.
-/

namespace FocusVision
namespace Client

open Bytes

def writeU16Le (p : List UInt8) (offset : Nat) (v : UInt16) : List UInt8 :=
  overwrite p offset (leBytes 2 v.toNat)

def writeU32Le (p : List UInt8) (offset : Nat) (v : UInt32) : List UInt8 :=
  overwrite p offset (leBytes 4 v.toNat)

def writeU64Le (p : List UInt8) (offset : Nat) (v : UInt64) : List UInt8 :=
  overwrite p offset (leBytes 8 v.toNat)

/-- A float from its four bytes: `memcpy` on the little-endian headset. -/
def copyF32 (p : List UInt8) (offset : Nat) : F32 :=
  Flt.ofBits ⟨23, 8⟩ (ofLeBytes (window p offset 4))

/-! ### `VIEW_CONFIG` -/

/-- `EyeFov`. -/
structure EyeFov where
  left : F32 := f32 0 1
  right : F32 := f32 0 1
  up : F32 := f32 0 1
  down : F32 := f32 0 1
deriving DecidableEq

def VIEW_CONFIG_PAYLOAD_LEN : Nat := 36

/-- The IPD that is sent, rounded to 0.1 mm. -/
def roundedIpd (ipdM : F32) : F32 :=
  ((ipdM.mul (f32 10000 1)).roundHalfAway).div (f32 10000 1)

/-- `buildViewConfigPayload`. -/
def buildViewConfigPayload (left right : EyeFov) (ipdM : F32) : List UInt8 :=
  let values :=
    [left.left, left.right, left.up, left.down,
      right.left, right.right, right.up, right.down,
      roundedIpd ipdM]
  overwriteAll (List.replicate VIEW_CONFIG_PAYLOAD_LEN 0) 0 (values.map f32Bytes)

/-! ### `HEARTBEAT` -/

/-- `HeartbeatStats`. -/
structure HeartbeatStats where
  packetsReceived : UInt32 := 0
  packetsLost : UInt32 := 0
  avgDecodeUs : UInt32 := 0
  fps : UInt16 := 0

def HEARTBEAT_PAYLOAD_LEN : Nat := 26

/-- `buildHeartbeatPayload`. -/
def buildHeartbeatPayload (sequence : UInt32) (timestampMs : UInt64) (s : HeartbeatStats) :
    List UInt8 :=
  let p := List.replicate HEARTBEAT_PAYLOAD_LEN 0
  let p := writeU32Le p 0 sequence
  let p := writeU64Le p 4 timestampMs
  let p := writeU32Le p 12 s.packetsReceived
  let p := writeU32Le p 16 s.packetsLost
  let p := writeU32Le p 20 s.avgDecodeUs
  writeU16Le p 24 s.fps

/-! ### The pose of a frame -/

def FRAME_POSE_LEN : Nat := 20

/-- `FramePose`. -/
structure FramePose where
  known : Bool := false
  orientation : F32 × F32 × F32 × F32 := (f32 0 1, f32 0 1, f32 0 1, f32 1 1)
deriving DecidableEq

/-- `parseFramePose`: the length of the prefix, and `out` afterwards. -/
def parseFramePose (frame : List UInt8) (out : FramePose) : Nat × FramePose :=
  if frame.length < FRAME_POSE_LEN ∨ byteAt frame 0 ≠ 0x46 ∨ byteAt frame 1 ≠ 0x50 ∨
      byteAt frame 2 ≠ 1 then (0, out)
  else if byteAt frame 3 &&& 0x01 ≠ 0 then
    let v (i : Nat) : F32 := copyF32 frame (4 + i * 4)
    let known := (v 0).isFinite && (v 1).isFinite && (v 2).isFinite && (v 3).isFinite
    (FRAME_POSE_LEN, if known then ⟨known, v 0, v 1, v 2, v 3⟩ else {})
  else (FRAME_POSE_LEN, {})

/-! ### `STREAM_CONFIG` -/

def STEREO_MONO : UInt8 := 0
def STEREO_SIDE_BY_SIDE : UInt8 := 1

/-- `StreamConfigView`. -/
structure StreamConfigView where
  width : UInt32 := 0
  height : UInt32 := 0
  bitrateMbps : UInt32 := 0
  framerate : UInt32 := 0
  codec : UInt8 := 0
  encodedWidth : UInt32 := 0
  encodedHeight : UInt32 := 0
  layout : UInt8 := STEREO_MONO
  framePose : Bool := false
deriving DecidableEq

/-- `parseStreamConfig`: its answer, and `out` afterwards. -/
def parseStreamConfig (payload : List UInt8) (out : StreamConfigView) :
    Bool × StreamConfigView :=
  if payload.length < 17 then (false, out)
  else
    let width := readU32Le payload 0
    let height := readU32Le payload 4
    let hasEncoded := 25 ≤ payload.length
    (true,
      { width, height
        bitrateMbps := readU32Le payload 8
        framerate := readU32Le payload 12
        codec := payload.getD 16 0
        encodedWidth := if hasEncoded then readU32Le payload 17 else width
        encodedHeight := if hasEncoded then readU32Le payload 21 else height
        layout :=
          if 26 ≤ payload.length ∧ payload.getD 25 0 = STEREO_SIDE_BY_SIDE then
            STEREO_SIDE_BY_SIDE
          else STEREO_MONO
        framePose := decide (27 ≤ payload.length ∧ payload.getD 26 0 = 1) })

/-! ### Tracking packets -/

/-- `XrPosef`. -/
structure XrPosef where
  position : F32 × F32 × F32
  orientation : F32 × F32 × F32 × F32

def PACKET_HEAD_POSE : UInt8 := 0x01
def PACKET_CONTROLLER : UInt8 := 0x02

structure TrackingSender where
  m_initialized : Bool := false

namespace TrackingSender

/-- `sendHeadPose`: the fields in the order in which they are appended. -/
def sendHeadPose (s : TrackingSender) (pose : XrPosef) (timestampNs : Int64)
    (gazeX gazeY : F32) (gazeValid : Bool) : Option (List UInt8) :=
  if !s.m_initialized then none
  else
    some
      [[PACKET_HEAD_POSE],
        leBytes 8 timestampNs.toUInt64.toNat,
        f32Bytes pose.position.1,
        f32Bytes pose.position.2.1,
        f32Bytes pose.position.2.2,
        f32Bytes pose.orientation.1,
        f32Bytes pose.orientation.2.1,
        f32Bytes pose.orientation.2.2.1,
        f32Bytes pose.orientation.2.2.2,
        f32Bytes gazeX,
        f32Bytes gazeY,
        [if gazeValid then 1 else 0]].flatten

/-- `sendControllerState`. -/
def sendControllerState (s : TrackingSender) (controllerId : UInt8) (pose : XrPosef)
    (timestampNs : Int64) (trigger grip thumbstickX thumbstickY : F32)
    (buttonFlags : UInt32) (battery : UInt8) : Option (List UInt8) :=
  if !s.m_initialized then none
  else
    some
      [[PACKET_CONTROLLER],
        [controllerId],
        leBytes 8 timestampNs.toUInt64.toNat,
        f32Bytes pose.position.1,
        f32Bytes pose.position.2.1,
        f32Bytes pose.position.2.2,
        f32Bytes pose.orientation.1,
        f32Bytes pose.orientation.2.1,
        f32Bytes pose.orientation.2.2.1,
        f32Bytes pose.orientation.2.2.2,
        f32Bytes trigger,
        f32Bytes grip,
        f32Bytes thumbstickX,
        f32Bytes thumbstickY,
        leBytes 4 buttonFlags.toNat,
        [battery]].flatten

end TrackingSender

end Client
end FocusVision
