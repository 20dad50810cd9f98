import FocusVision.Engine.FrameLoop
import FocusVision.Engine.Rtp
import FocusVision.Engine.Tracking
import FocusVision.Lib.ByteFields
import FocusVision.Lib.FloatBits

/-!
# Payloads on the engine's side

The payloads that the engine writes for the headset and reads from it:
`encode_stream_config` of `control/tcp_server.rs`, with the encoded dimensions of
`config.rs`; `frame_pose` and `parse_view_config` of `protocol.rs`; and the
`HEARTBEAT` branch of `handle_tcp_control`.
-/

namespace FocusVision
namespace Engine

open Bytes

/-! ### `STREAM_CONFIG` -/

/-- `VideoCodec`. -/
inductive VideoCodec where
  | h264
  | h265
deriving DecidableEq

/-- Its byte in `STREAM_CONFIG`. -/
def VideoCodec.byte : VideoCodec → UInt8
  | .h264 => 0
  | .h265 => 1

namespace HelloCaps

def RESOLUTION_SCALE : UInt8 := 0x01
def FRAME_POSE : UInt8 := 0x02

end HelloCaps

/-- `stereo_layout::SIDE_BY_SIDE`. -/
def SIDE_BY_SIDE : UInt8 := 1

/-- `round_to_align`. -/
def roundToAlign (v align : UInt32) : UInt32 :=
  let aligned := saturatingAdd v (align / 2) / align * align
  max aligned align

/-- `compute_encoded_dims`. -/
def computeEncodedDims (renderW renderH : UInt32) (scale : F32) (align : UInt32) :
    UInt32 × UInt32 :=
  let s := scale.clampUnit
  let scaled (size : UInt32) : UInt32 :=
    UInt32.ofNat (((Flt.ofNat size.toNat).mul s).roundHalfAway.toUnsigned 32)
  (roundToAlign (scaled renderW) align, roundToAlign (scaled renderH) align)

/-- `enc_w` and `enc_h` of `encode_stream_config`. -/
def encodedDims (v : VideoConfig) (clientCaps : UInt8) : UInt32 × UInt32 :=
  if clientCaps &&& HelloCaps.RESOLUTION_SCALE ≠ 0 ∧ v.resolutionScale < f32 1 1 then
    computeEncodedDims v.resolutionPerEye.1 v.resolutionPerEye.2 v.resolutionScale 2
  else v.resolutionPerEye

/-- `encode_stream_config`, for the video section and its codec. -/
def encodeStreamConfig (v : VideoConfig) (codec : VideoCodec) (clientCaps : UInt8) :
    List UInt8 :=
  let (encW, encH) := encodedDims v clientCaps
  [leBytes 4 v.resolutionPerEye.1.toNat,
    leBytes 4 v.resolutionPerEye.2.toNat,
    leBytes 4 v.bitrateMbps.toNat,
    leBytes 4 v.framerate.toNat,
    [codec.byte],
    leBytes 4 encW.toNat,
    leBytes 4 encH.toNat,
    [SIDE_BY_SIDE],
    [if clientCaps &&& HelloCaps.FRAME_POSE ≠ 0 then 1 else 0]].flatten

/-! ### The pose of a frame -/

namespace FramePose

def LEN : Nat := 20
/-- `"FP"`. -/
def MAGIC : List UInt8 := [0x46, 0x50]
def VERSION : UInt8 := 1
def ORIENTATION_KNOWN : UInt8 := 0x01

/-- `frame_pose::encode`. -/
def encode (orientation : Option (F32 × F32 × F32 × F32)) : List UInt8 :=
  let out := (overwrite (List.replicate LEN 0) 0 MAGIC).set 2 VERSION
  match orientation with
  | none => out
  | some (x, y, z, w) =>
      overwriteAll (out.set 3 ORIENTATION_KNOWN) 4
        [f32Bytes x, f32Bytes y, f32Bytes z, f32Bytes w]

/-- `frame_pose::parse`. -/
def parse (frame : List UInt8) :
    Option (Option (F32 × F32 × F32 × F32) × List UInt8) :=
  if frame.length < LEN ∨ frame.take 2 ≠ MAGIC ∨ frame.getD 2 0 ≠ VERSION then none
  else
    let rest := frame.drop LEN
    if frame.getD 3 0 &&& ORIENTATION_KNOWN = 0 then some (none, rest)
    else
      let f (i : Nat) : F32 := readF32 frame (4 + i * 4)
      if (f 0).isFinite && (f 1).isFinite && (f 2).isFinite && (f 3).isFinite then
        some (some (f 0, f 1, f 2, f 3), rest)
      else some (none, rest)

end FramePose

/-! ### `VIEW_CONFIG` -/

/-- `EyeFov`. -/
structure EyeFov where
  left : F32
  right : F32
  up : F32
  down : F32
deriving DecidableEq

/-- `ViewConfig`: the left eye, and then the right one. -/
structure ViewConfig where
  eyes : EyeFov × EyeFov
  ipdM : F32
deriving DecidableEq

def VIEW_CONFIG_PAYLOAD_LEN : Nat := 36

/-- `std::f32::consts::PI`. -/
def PI : F32 :=
  f32 314159265358979323846264338327950288 100000000000000000000000000000000000

def MAX_FOV_HALF_ANGLE : F32 :=
  ((f32 85 1).mul PI).div (f32 180 1)

/-- The check of one angle. -/
def plausibleAngle (a : F32) : Bool :=
  a.isFinite && decide (a.abs < MAX_FOV_HALF_ANGLE)

/-- `plausible_eye`. -/
def plausibleEye (e : EyeFov) : Bool :=
  plausibleAngle e.left && plausibleAngle e.right && plausibleAngle e.up &&
    plausibleAngle e.down && decide (e.left < e.right) && decide (e.down < e.up)

/-- `plausible_ipd`. -/
def plausibleIpd (ipdM : F32) : Bool :=
  ipdM.isFinite && decide (f32 40 1000 ≤ ipdM ∧ ipdM ≤ f32 90 1000)

/-- `parse_view_config`. -/
def parseViewConfig (payload : List UInt8) : Option ViewConfig :=
  if payload.length < VIEW_CONFIG_PAYLOAD_LEN then none
  else
    let f (i : Nat) : F32 := readF32 payload (i * 4)
    let eye (base : Nat) : EyeFov := ⟨f base, f (base + 1), f (base + 2), f (base + 3)⟩
    let config : ViewConfig := ⟨(eye 0, eye 4), f 8⟩
    if plausibleEye config.eyes.1 && plausibleEye config.eyes.2 && plausibleIpd config.ipdM
    then some config
    else none

/-! ### `HEARTBEAT` -/

/-- `HmdStats`, with the two fields that the bitrate does not depend on. -/
structure HmdReport extends HmdStats where
  avgDecodeUs : UInt32
  fps : UInt16

/-- What the `HEARTBEAT` branch reads from a payload. -/
def heartbeatStats (payload : List UInt8) : Option HmdReport :=
  if 26 ≤ payload.length then
    let statsOffset := 12
    let s := payload.drop statsOffset
    some
      { packetsReceived := readU32Le s 0
        packetsLost := readU32Le s 4
        avgDecodeUs := readU32Le s 8
        fps := readU16Le s 12 }
  else none

end Engine
end FocusVision
