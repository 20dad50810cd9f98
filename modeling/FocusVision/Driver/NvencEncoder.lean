import Mathlib.Data.List.Basic

/-!
# The video encoder

`NvencEncoder::encode` of the driver's `nvenc_encoder.cpp`.  What NVENC answers
to the calls of one `encode` is a value of `NvencResults`.

`requestIdr` comes from another thread and shares nothing but a flag with
`encode`, which takes the flag in one atomic step.  So `encode` is split after
that step: `beginEncode` decides what to ask NVENC for, and `finishEncode` makes
the calls.  The map of the foveated encoding, which the calls only pass on, is
left out.
-/

namespace FocusVision
namespace Driver

/-- `NVENCSTATUS`, of the NVENC header. -/
inductive NVENCSTATUS where
  | NV_ENC_SUCCESS
  | NV_ENC_ERR_NO_ENCODE_DEVICE
  | NV_ENC_ERR_UNSUPPORTED_DEVICE
  | NV_ENC_ERR_INVALID_ENCODERDEVICE
  | NV_ENC_ERR_INVALID_DEVICE
  | NV_ENC_ERR_DEVICE_NOT_EXIST
  | NV_ENC_ERR_INVALID_PTR
  | NV_ENC_ERR_INVALID_EVENT
  | NV_ENC_ERR_INVALID_PARAM
  | NV_ENC_ERR_INVALID_CALL
  | NV_ENC_ERR_OUT_OF_MEMORY
  | NV_ENC_ERR_ENCODER_NOT_INITIALIZED
  | NV_ENC_ERR_UNSUPPORTED_PARAM
  | NV_ENC_ERR_LOCK_BUSY
  | NV_ENC_ERR_NOT_ENOUGH_BUFFER
  | NV_ENC_ERR_INVALID_VERSION
  | NV_ENC_ERR_MAP_FAILED
  | NV_ENC_ERR_NEED_MORE_INPUT
  | NV_ENC_ERR_ENCODER_BUSY
  | NV_ENC_ERR_EVENT_NOT_REGISTERD
  | NV_ENC_ERR_GENERIC
  | NV_ENC_ERR_INCOMPATIBLE_CLIENT_KEY
  | NV_ENC_ERR_UNIMPLEMENTED
  | NV_ENC_ERR_RESOURCE_REGISTER_FAILED
  | NV_ENC_ERR_RESOURCE_NOT_REGISTERED
  | NV_ENC_ERR_RESOURCE_NOT_MAPPED
  | NV_ENC_ERR_NEED_MORE_OUTPUT
deriving DecidableEq

open NVENCSTATUS

def NV_ENC_PIC_FLAG_FORCEIDR : UInt32 := 0x2
def NV_ENC_PIC_FLAG_OUTPUT_SPSPPS : UInt32 := 0x4

/-- `picFlagsFor` of `nvenc_config.h`. -/
def picFlagsFor (idr : Bool) : UInt32 :=
  if idr then NV_ENC_PIC_FLAG_FORCEIDR ||| NV_ENC_PIC_FLAG_OUTPUT_SPSPPS else 0

/-- The parts of `NV_ENC_PIC_PARAMS` that change from frame to frame. -/
structure PicParams where
  frameIdx : UInt32
  inputTimeStamp : UInt64
  encodePicFlags : UInt32
deriving DecidableEq

/-- Is the picture to be an IDR picture? -/
def PicParams.forcesIdr (p : PicParams) : Bool :=
  p.encodePicFlags &&& NV_ENC_PIC_FLAG_FORCEIDR != 0

/-- The answers of NVENC to the calls of one `encode`. -/
structure NvencResults where
  mapInputResource : NVENCSTATUS
  encodePicture : NVENCSTATUS
  lockBitstream : NVENCSTATUS
  bitstream : List UInt8
  /-- Is the locked picture an IDR picture? -/
  isIdrPicture : Bool

/-- What `encode` returns and leaves in its two outputs, and what it submitted. -/
structure Encoded where
  returned : Bool
  outNalData : List UInt8
  outIsIdr : Bool
  submitted : Option PicParams
deriving DecidableEq

structure NvencEncoder where
  m_encoder : Bool := false
  m_initialized : Bool := false
  m_frameCount : UInt32 := 0
  m_idrInterval : UInt32 := 180
  m_pendingBitrate : UInt32 := 0
  /-- `m_settings.bitrate_bps` -/
  m_bitrateBps : UInt32 := 80000000
  m_reconfigureFailures : UInt32 := 0
  s_idrRequested : Bool := false
deriving DecidableEq

namespace NvencEncoder

def requestIdr (e : NvencEncoder) : NvencEncoder :=
  { e with s_idrRequested := true }

def requestBitrate (e : NvencEncoder) (bitrateBps : UInt32) : NvencEncoder :=
  if bitrateBps ≠ 0 then { e with m_pendingBitrate := bitrateBps } else e

/-- `applyPendingBitrate`, with the answer of `nvEncReconfigureEncoder`. -/
def applyPendingBitrate (e : NvencEncoder) (reconfigure : NVENCSTATUS) : NvencEncoder :=
  let bps := e.m_pendingBitrate
  let e := { e with m_pendingBitrate := 0 }
  if bps = 0 ∨ bps = e.m_bitrateBps then e
  else if reconfigure ≠ NV_ENC_SUCCESS then
    { e with m_reconfigureFailures := e.m_reconfigureFailures + 1 }
  else { e with m_bitrateBps := bps }

/-- Is the next frame one of those that are IDR frames anyway? -/
def idrDue (e : NvencEncoder) : Bool :=
  e.m_frameCount % e.m_idrInterval == 0

/-- `encode` up to the count of the frame: is the frame to be an IDR frame? -/
def beginEncode (e : NvencEncoder) (forceIdr : Bool) (reconfigure : NVENCSTATUS) :
    Bool × NvencEncoder :=
  let e := e.applyPendingBitrate reconfigure
  let isIdr := forceIdr || e.s_idrRequested || e.idrDue
  (isIdr,
    { e with
      -- a forced IDR leaves the request to the next frame
      s_idrRequested := if forceIdr then e.s_idrRequested else false
      m_frameCount := e.m_frameCount + 1 })

/-- The rest of `encode`: the calls of NVENC. -/
def finishEncode (e : NvencEncoder) (isIdr : Bool) (outNalData : List UInt8)
    (r : NvencResults) : Encoded :=
  if r.mapInputResource ≠ NV_ENC_SUCCESS then
    { returned := false, outNalData, outIsIdr := isIdr, submitted := none }
  else
    let picParams : PicParams :=
      { frameIdx := e.m_frameCount - 1
        inputTimeStamp := (e.m_frameCount - 1).toUInt64
        encodePicFlags := picFlagsFor isIdr }
    if r.encodePicture = NV_ENC_ERR_NEED_MORE_INPUT then
      { returned := true, outNalData := [], outIsIdr := isIdr, submitted := some picParams }
    else if r.encodePicture ≠ NV_ENC_SUCCESS then
      { returned := false, outNalData, outIsIdr := isIdr, submitted := some picParams }
    else if r.lockBitstream ≠ NV_ENC_SUCCESS then
      { returned := false, outNalData, outIsIdr := isIdr, submitted := some picParams }
    else
      { returned := true
        outNalData := r.bitstream
        outIsIdr := r.isIdrPicture
        submitted := some picParams }

/-- `encode`, when nothing comes between its two parts. -/
def encode (e : NvencEncoder) (forceIdr : Bool) (outNalData : List UInt8) (outIsIdr : Bool)
    (reconfigure : NVENCSTATUS) (r : NvencResults) : Encoded × NvencEncoder :=
  if !e.m_initialized || !e.m_encoder then
    ({ returned := false, outNalData, outIsIdr, submitted := none }, e)
  else
    let (isIdr, e) := e.beginEncode forceIdr reconfigure
    (e.finishEncode isIdr outNalData r, e)

@[simp] theorem applyPendingBitrate_frameCount
    (e : NvencEncoder) (reconfigure : NVENCSTATUS) :
    (e.applyPendingBitrate reconfigure).m_frameCount = e.m_frameCount := by
  unfold applyPendingBitrate
  simp only
  split_ifs <;> rfl

@[simp] theorem applyPendingBitrate_idrInterval
    (e : NvencEncoder) (reconfigure : NVENCSTATUS) :
    (e.applyPendingBitrate reconfigure).m_idrInterval = e.m_idrInterval := by
  unfold applyPendingBitrate
  simp only
  split_ifs <;> rfl

@[simp] theorem applyPendingBitrate_idrRequested
    (e : NvencEncoder) (reconfigure : NVENCSTATUS) :
    (e.applyPendingBitrate reconfigure).s_idrRequested = e.s_idrRequested := by
  unfold applyPendingBitrate
  simp only
  split_ifs <;> rfl

@[simp] theorem beginEncode_isIdr
    (e : NvencEncoder) (forceIdr : Bool) (reconfigure : NVENCSTATUS) :
    (e.beginEncode forceIdr reconfigure).1 = (forceIdr || e.s_idrRequested || e.idrDue) := by
  simp [beginEncode, idrDue]

@[simp] theorem beginEncode_idrRequested
    (e : NvencEncoder) (forceIdr : Bool) (reconfigure : NVENCSTATUS) :
    (e.beginEncode forceIdr reconfigure).2.s_idrRequested = (forceIdr && e.s_idrRequested) := by
  cases forceIdr <;> simp [beginEncode]

end NvencEncoder

end Driver
end FocusVision
