import FocusVision.Driver.SwapTextures
import FocusVision.Engine.VideoSender

/-!
# The compositor's frames

`SubmitLayer` and `Present` of the driver's `direct_mode.cpp`, with the swap texture sets
that they look the textures up in.

What the graphics calls of a `Present` answer is an input: which textures have a shader
view, whether the compositor's frame is ready in time, what the encoder gives, and the
orientation of the head pose.  Left out: the drawing, the fields of view, the frame
pacing, the time of the encode and the log messages.
-/

namespace FocusVision
namespace Driver

open Engine (SubmittedFrame fvpSubmitEncodedFrame)

/-- `kMaxLayers`. -/
def kMaxLayers : Nat := 16

structure DirectModeComponent where
  m_swapSets : SwapTextureSets := {}
  m_encoderReady : Bool := false
  /-- The texture of each eye, the scene first. -/
  m_layers : List (UInt64 × UInt64) := []
  m_frameIndex : UInt32 := 0

/-- What the calls of one `Present` answer. -/
structure PresentCalls where
  /-- Which textures have a shader view. -/
  hasView : UInt64 → Bool
  /-- `m_sync.acquire`. -/
  acquired : Bool
  /-- The data of `m_encoder.encode` and its `isIdr`, or nothing when it failed. -/
  encoded : Option (List UInt8 × Bool)
  /-- `orientationOf` the scene's head pose. -/
  orientation : Option (F32 × F32 × F32 × F32)

namespace DirectModeComponent

/-- `SubmitLayer`. -/
def submitLayer (c : DirectModeComponent) (perEye : UInt64 × UInt64) : DirectModeComponent :=
  if c.m_layers.length ≥ kMaxLayers then c
  else { c with m_layers := c.m_layers ++ [perEye] }

/-- Can the texture be read? -/
def readable (c : DirectModeComponent) (hasView : UInt64 → Bool) (handle : UInt64) : Bool :=
  (c.m_swapSets.find handle).isSome && hasView handle

/-- `Present`: the frame that the engine takes, if there is one. -/
def present (c : DirectModeComponent) (p : PresentCalls) :
    Option SubmittedFrame × DirectModeComponent :=
  let c := { c with m_frameIndex := c.m_frameIndex + 1 }
  let layers := c.m_layers
  let c := { c with m_layers := [] }
  match layers with
  | [] => (none, c)
  | scene :: _ =>
      if !c.m_encoderReady then (none, c)
      else if !c.readable p.hasView scene.1 ∨ !c.readable p.hasView scene.2 then (none, c)
      else if !p.acquired then (none, c)
      else
        match p.encoded with
        | none => (none, c)
        | some (nal, isIdr) =>
            if nal.isEmpty then (none, c)
            else
              (fvpSubmitEncodedFrame nal (UInt32.ofNat nal.length) c.m_frameIndex isIdr
                p.orientation, c)

end DirectModeComponent

/-- The calls of the compositor. -/
inductive DirectModeCall where
  | swap (call : SwapCall)
  | submitLayer (perEye : UInt64 × UInt64)
  | present (p : PresentCalls)

namespace DirectModeComponent

/-- One call, with the frame that it gives to the engine. -/
def step (c : DirectModeComponent) : DirectModeCall → Option SubmittedFrame × DirectModeComponent
  | .swap call => (none, { c with m_swapSets := (c.m_swapSets.step call).2 })
  | .submitLayer perEye => (none, c.submitLayer perEye)
  | .present p => c.present p

end DirectModeComponent

end Driver
end FocusVision
