import FocusVision.Engine.FrameEncoder
import FocusVision.Engine.WireFormats

/-!
# From the driver to the network

`fvp_submit_encoded_frame` of the engine's `lib.rs` and `VideoSender` of its `engine.rs`.
The engine is there, and its frame queue has room: every frame that is accepted reaches
the sender, in order.

Left out: the recording, the latency figures and the log of the send times.
-/

namespace FocusVision
namespace Engine

/-- `EncodedFrame` of `engine.rs`. -/
structure SubmittedFrame where
  frameIndex : UInt32
  nalData : List UInt8
  isIdr : Bool
  renderOrientation : Option (F32 × F32 × F32 × F32)

def MAX_NAL_DATA_LEN : UInt32 := 32 * 1024 * 1024

/-- Are all four parts finite? -/
def finiteOrientation (q : F32 × F32 × F32 × F32) : Bool :=
  q.1.isFinite && q.2.1.isFinite && q.2.2.1.isFinite && q.2.2.2.isFinite

/-- `fvp_submit_encoded_frame`: the frame that is queued. -/
def fvpSubmitEncodedFrame (nalData : List UInt8) (nalDataLen frameIndex : UInt32) (isIdr : Bool)
    (renderOrientation : Option (F32 × F32 × F32 × F32)) : Option SubmittedFrame :=
  if nalDataLen = 0 then none
  else if nalDataLen > MAX_NAL_DATA_LEN then none
  else
    some
      { frameIndex
        nalData := nalData.take nalDataLen.toNat
        isIdr
        renderOrientation := renderOrientation.filter finiteOrientation }

/-- `RTP_CLOCK_RATE`. -/
def RTP_CLOCK_RATE : Nat := 90000

/-- `VideoSender`, with the sequence number of its packetizer. -/
structure VideoSender (crate : RsCrate) where
  framePose : Bool
  fecEncoder : FrameFecEncoder crate
  sequence : UInt16 := 0
  frameCount : Nat := 0

namespace VideoSender

variable {crate : RsCrate}

/-- `VideoSender::new`, from the network section of the config. -/
def new (fecRedundancy : F32) (sliceFecEnabled : Bool) (sliceCount : Nat) (framePose : Bool) :
    VideoSender crate :=
  { framePose
    fecEncoder := FrameFecEncoder.new fecRedundancy sliceFecEnabled sliceCount }

/-- The data that is sent for a frame. -/
def payload (v : VideoSender crate) (frame : SubmittedFrame) : List UInt8 :=
  if v.framePose then FramePose.encode frame.renderOrientation ++ frame.nalData
  else frame.nalData

/-- `send_frame`: the packets, in batches. -/
def sendFrame (v : VideoSender crate) (frame : SubmittedFrame) (framerate : Nat) :
    List (List Packet) × VideoSender crate :=
  let timestamp90khz := UInt32.ofNat (v.frameCount * RTP_CLOCK_RATE / framerate)
  let (batches, fecEncoder, sequence) := v.fecEncoder.encode (v.payload frame) frame.frameIndex
    timestamp90khz frame.isIdr v.sequence
  (batches, { v with fecEncoder, sequence, frameCount := v.frameCount + 1 })

end VideoSender

end Engine
end FocusVision
