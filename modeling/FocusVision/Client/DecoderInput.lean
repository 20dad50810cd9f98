import FocusVision.Client.ClientProtocol
import FocusVision.Lib.Run
import Mathlib.Logic.Function.Basic

/-!
# The decoder's input

What happens to a popped frame: `submitDecodedFrame` and `configureDecoder` of the
client's `openxr_app.cpp`, `VideoDecoder::submitPacket` and `flush` of
`video_decoder.cpp`, and `NalValidator`.  The codec owns its input buffers; `held` are
the indices of those that it has handed out and not got back.  A frame is shorter than
`2 ^ 31` bytes, as the assembler's limits make it.

Left out: the decoder's output, the latency statistics and the log messages.
-/

namespace FocusVision
namespace Client

/-! ### `NalValidator` -/

inductive NalResult where
  | valid
  | tooShort
  | forbiddenBit
  | invalidType
  | invalidTid
deriving DecidableEq

/-- `NalValidator::validate`. -/
def NalResult.validate (data : List UInt8) : NalResult :=
  if data.length < 3 then .tooShort
  else
    let byte0 := byteAt data 0
    let forbiddenBit := byte0 >>> 7 &&& 0x01
    let nalType := byte0 >>> 1 &&& 0x3F
    let tidPlus1 := byteAt data 1 &&& 0x07
    if forbiddenBit ≠ 0 then .forbiddenBit
    else if 41 ≤ nalType ∧ nalType ≤ 47 then .invalidType
    else if tidPlus1 = 0 then .invalidTid
    else .valid

/-- A frame behind its Annex B start code, of four or three bytes. -/
def skipStartCode (nalData : List UInt8) : List UInt8 :=
  if nalData.take 4 = [0, 0, 0, 1] then nalData.drop 4
  else if nalData.take 3 = [0, 0, 1] then nalData.drop 3
  else nalData

/-- The check of a frame: for H.264 only the forbidden bit. -/
def validNal (decoderCodec : UInt8) (nal : List UInt8) : Bool :=
  if decoderCodec = 1 then NalResult.validate nal == .valid
  else decide (1 ≤ nal.length ∧ byteAt nal 0 &&& 0x80 = 0)

/-! ### The resolution -/

/-- `decoderInitDims`. -/
def decoderInitDims (nativeW nativeH encodedW encodedH : UInt32) (layout : UInt8) :
    UInt32 × UInt32 :=
  let (width, height) :=
    if encodedW > 0 ∧ encodedH > 0 then (encodedW, encodedH) else (nativeW, nativeH)
  (if layout = STEREO_SIDE_BY_SIDE then width * 2 else width, height)

/-! ### The app and its codec -/

/-- What the app does with the codec and the receiver. -/
inductive CodecCall where
  /-- `AMediaCodec_dequeueInputBuffer` handed out a buffer. -/
  | dequeueInputBuffer (bufIdx : Nat)
  | queueInputBuffer (bufIdx : Nat) (data : List UInt8) (timestampUs : Nat)
  | flush
  | requireKeyframe
deriving DecidableEq

/--
The codec's answer to a dequeue: no buffer, or one with its capacity, which is `none`
if `AMediaCodec_getInputBuffer` has no address for it.
-/
abbrev DequeueAnswer := Option (Nat × Option Nat)

/-- The entries of `RenderPoseLog`. -/
def kSize : Nat := 32

/-- The fields of `OpenXRApp` and its `VideoDecoder`, and the buffers the app holds. -/
structure DecoderApp where
  m_initialized : Bool := false
  m_decoderCodec : UInt8 := 1
  m_decoderDims : UInt32 × UInt32 := (0, 0)
  m_framePose : Bool := false
  m_renderPoses : Nat → Option (UInt32 × FramePose) := fun _ => none
  m_frameDurationUs : Nat := 11111
  held : List Nat := []

inductive DecoderEvent where
  /-- A popped frame, and the codec's answer if it is asked for a buffer. -/
  | frame (data : List UInt8) (frameIndex : UInt32) (answer : DequeueAnswer)
  | flush
  /-- A session starts streaming; `initOk` is whether a new codec could be made. -/
  | streaming (config : StreamConfigView) (initOk : Bool)

namespace DecoderApp

/-- `VideoDecoder::flush`: the codec takes back every buffer it has handed out. -/
def flush (app : DecoderApp) : List CodecCall × DecoderApp :=
  if !app.m_initialized then ([], app) else ([.flush], { app with held := [] })

/-- `VideoDecoder::submitPacket`. -/
def submitPacket (app : DecoderApp) (data : List UInt8) (timestampUs : Nat)
    (answer : DequeueAnswer) : Bool × List CodecCall × DecoderApp :=
  if !app.m_initialized then (false, [], app)
  else
    match answer with
    | none => (false, [], app)
    | some (bufIdx, capacity) =>
        let app := { app with held := bufIdx :: app.held }
        match capacity with
        | none => (false, [.dequeueInputBuffer bufIdx], app)
        | some bufSize =>
            if data.length > bufSize then (false, [.dequeueInputBuffer bufIdx], app)
            else
              (true,
                [.dequeueInputBuffer bufIdx, .queueInputBuffer bufIdx data timestampUs],
                { app with held := app.held.erase bufIdx })

/-- `RenderPoseLog::record`. -/
def record (app : DecoderApp) (frameIndex : UInt32) (pose : FramePose) : DecoderApp :=
  { app with
    m_renderPoses :=
      Function.update app.m_renderPoses (frameIndex.toNat % kSize) (some (frameIndex, pose)) }

/-- The part of `submitDecodedFrame` behind the pose. -/
def submitNal (app : DecoderApp) (nalData : List UInt8) (frameIndex : UInt32)
    (answer : DequeueAnswer) : List CodecCall × DecoderApp :=
  if !validNal app.m_decoderCodec (skipStartCode nalData) then
    let (calls, app) := app.flush
    (calls ++ [.requireKeyframe], app)
  else
    let timestampUs := frameIndex.toNat * app.m_frameDurationUs
    let (submitted, calls, app) := app.submitPacket nalData timestampUs answer
    (if submitted then calls else calls ++ [.requireKeyframe], app)

/-- `submitDecodedFrame`. -/
def submitDecodedFrame (app : DecoderApp) (data : List UInt8) (frameIndex : UInt32)
    (answer : DequeueAnswer) : List CodecCall × DecoderApp :=
  if app.m_framePose then
    let (prefixLen, pose) := parseFramePose data {}
    if prefixLen = 0 then ([.requireKeyframe], app)
    else (app.record frameIndex pose).submitNal (data.drop prefixLen) frameIndex answer
  else app.submitNal data frameIndex answer

/-- `configureDecoder`: a codec that fits is flushed, any other one is replaced. -/
def configureDecoder (app : DecoderApp) (config : StreamConfigView) (initOk : Bool) :
    List CodecCall × DecoderApp :=
  let dims := decoderInitDims config.width config.height config.encodedWidth
    config.encodedHeight config.layout
  let dims := if dims.1 = 0 ∨ dims.2 = 0 then (1832, 1920) else dims
  let codec : UInt8 := if config.codec = 0 then 0 else 1
  let app := { app with m_framePose := config.framePose, m_renderPoses := fun _ => none }
  if app.m_initialized && codec == app.m_decoderCodec && dims == app.m_decoderDims then
    app.flush
  else
    let app := { app with m_initialized := false, held := [] }
    ([], if initOk then
        { app with m_initialized := true, m_decoderCodec := codec, m_decoderDims := dims }
      else app)

/-- One turn of the app, with the calls it makes. -/
def step (app : DecoderApp) : DecoderEvent → List CodecCall × DecoderApp
  | .frame data frameIndex answer => app.submitDecodedFrame data frameIndex answer
  | .flush => app.flush
  | .streaming config initOk =>
      let (calls, app) := app.configureDecoder config initOk
      (calls, { app with
        m_frameDurationUs :=
          if config.framerate > 0 then 1000000 / config.framerate.toNat else 11111 })

end DecoderApp

end Client
end FocusVision
