import FocusVision.Lib.FloatDistance
import FocusVision.Lib.FloatMean
import Mathlib.Data.List.FinRange

/-!
# The face tracking bridge

`OscBridge` of the engine's `face_tracking/osc_bridge.rs`: the headset's blendshapes,
smoothed and scaled by a profile, go to VRChat as OSC parameters.  Floats are as the
code has them, every operation rounded.

A message is its address and its value; its encoding, the target and the log messages
are left out, and every message that is sent arrives.
-/

namespace FocusVision
namespace Engine

/-- `LIP_NAMES`. -/
def LIP_NAMES : Vector String 37 :=
  #v["JawRight", "JawLeft", "JawForward", "JawOpen",
    "MouthApeShape", "MouthUpperRight", "MouthUpperLeft",
    "MouthLowerRight", "MouthLowerLeft",
    "MouthUpperOverturn", "MouthLowerOverturn",
    "MouthPout", "MouthSmileRight", "MouthSmileLeft",
    "MouthSadRight", "MouthSadLeft",
    "CheekPuffRight", "CheekPuffLeft", "CheekSuck",
    "MouthUpperUpRight", "MouthUpperUpLeft",
    "MouthLowerDownRight", "MouthLowerDownLeft",
    "MouthUpperInside", "MouthLowerInside",
    "MouthLowerOverlay",
    "TongueLongStep1", "TongueLeft", "TongueRight", "TongueUp", "TongueDown",
    "TongueRoll", "TongueLongStep2",
    "TongueUpRightMorph", "TongueUpLeftMorph",
    "TongueDownRightMorph", "TongueDownLeftMorph"]

/-- `EYE_NAMES`. -/
def EYE_NAMES : Vector String 14 :=
  #v["EyeLeftBlink", "EyeLeftWide",
    "EyeRightBlink", "EyeRightWide",
    "EyeLeftSqueeze", "EyeRightSqueeze",
    "EyeLeftDown", "EyeRightDown",
    "EyeLeftLeft", "EyeRightLeft",
    "EyeLeftRight", "EyeRightRight",
    "EyeLeftUp", "EyeRightUp"]

/-- `REST_THRESHOLD`. -/
def REST_THRESHOLD : F32 := f32 1 100

/-- The part of `FtProfile` that the bridge uses. -/
structure FtProfile where
  weights : List F32
  smoothingOverride : Option F32 := none
  offsets : List F32 := []

/-- `Profile`: the active profile's weights and resting values, if any. -/
structure Profile where
  weights : Option (List F32)
  offsets : Option (List F32)

/-- `Profile::apply`. -/
def Profile.apply (p : Profile) (index : Nat) (value : F32) : F32 :=
  let weight := (p.weights.bind fun w => w[index]?).getD (f32 1 1)
  let offset := (p.offsets.bind fun o => o[index]?).getD (f32 0 1)
  Flt.clampUnit (Flt.mul (Flt.sub value offset) weight)

structure OscMessage where
  address : String
  value : F32
deriving DecidableEq

/-- The address of a parameter. -/
def parameterAddress (name : String) : String :=
  "/avatar/parameters/" ++ name

/-- `Group`: one blendshape group's names and state. -/
structure Group (n : Nat) where
  names : Vector String n
  prev : Fin n → F32
  sent : Fin n → F32
  first : Nat

/-- What a smoothed value is sent as: its scaled value, or 0 at rest. -/
def restedValue (profile : Profile) (index : Nat) (smoothed : F32) : F32 :=
  let scaled := profile.apply index smoothed
  if REST_THRESHOLD < scaled then scaled else f32 0 1

/-- The loop's body for one parameter: the value that is sent, if any, and the
parameter's `prev` and `sent`. -/
def updateParameter (alpha : F32) (profile : Profile) (index : Nat) (raw prev sent : F32) :
    Option F32 × F32 × F32 :=
  if !raw.isFinite then (none, prev, sent)
  else
    let smoothed := Flt.mean alpha prev (Flt.clampUnit raw)
    let value := restedValue profile index smoothed
    if value.Same (f32 0 1) ∧ sent.Same (f32 0 1) then (none, smoothed, sent)
    else (some value, smoothed, value)

/-- `apply_smoothing_and_send`: the messages, and the group after it. -/
def Group.applySmoothingAndSend {n : Nat} (group : Group n) (raw : Fin n → F32) (alpha : F32)
    (profile : Profile) : List OscMessage × Group n :=
  let updated := fun (i : Fin n) =>
    updateParameter alpha profile (group.first + i) (raw i) (group.prev i) (group.sent i)
  ((List.finRange n).filterMap fun i =>
      (updated i).1.map fun value => ⟨parameterAddress (group.names.get i), value⟩,
    { group with
      prev := fun i => (updated i).2.1
      sent := fun i => (updated i).2.2 })

/-- `OscBridge`; `socket` says whether it has one. -/
structure OscBridge where
  socket : Bool := true
  enabled : Bool := true
  smoothing : F32
  prevLip : Fin 37 → F32 := fun _ => f32 0 1
  prevEye : Fin 14 → F32 := fun _ => f32 0 1
  sentLip : Fin 37 → F32 := fun _ => f32 0 1
  sentEye : Fin 14 → F32 := fun _ => f32 0 1
  profileWeights : Option (List F32) := none
  profileOffsets : Option (List F32) := none

/-- The arguments of `send_face_data`. -/
structure FaceData where
  lipValid : Bool
  eyeValid : Bool
  lip : Fin 37 → F32
  eye : Fin 14 → F32

namespace OscBridge

/-- `with_smoothing`, with a socket. -/
def withSmoothing (smoothing : F32) : OscBridge :=
  { smoothing := Flt.clampTo (f32 0 1) (f32 99 100) smoothing }

/-- `set_profile`. -/
def setProfile (b : OscBridge) (profile : Option FtProfile) : OscBridge :=
  { b with
    profileWeights := profile.map FtProfile.weights
    profileOffsets := profile.map FtProfile.offsets
    smoothing :=
      match profile.bind FtProfile.smoothingOverride with
      | some s => Flt.clampTo (f32 0 1) (f32 99 100) s
      | none => b.smoothing }

def profile (b : OscBridge) : Profile :=
  { weights := b.profileWeights
    offsets := b.profileOffsets }

def lipGroup (b : OscBridge) : Group 37 :=
  { names := LIP_NAMES
    prev := b.prevLip
    sent := b.sentLip
    first := 0 }

def eyeGroup (b : OscBridge) : Group 14 :=
  { names := EYE_NAMES
    prev := b.prevEye
    sent := b.sentEye
    first := 37 }

/-- The lip half of `send_face_data`. -/
def sendLip (b : OscBridge) (data : FaceData) : List OscMessage × OscBridge :=
  if data.lipValid then
    let r := b.lipGroup.applySmoothingAndSend data.lip b.smoothing b.profile
    (r.1, { b with prevLip := r.2.prev, sentLip := r.2.sent })
  else ([], b)

/-- The eye half of `send_face_data`. -/
def sendEye (b : OscBridge) (data : FaceData) : List OscMessage × OscBridge :=
  if data.eyeValid then
    let r := b.eyeGroup.applySmoothingAndSend data.eye b.smoothing b.profile
    (r.1, { b with prevEye := r.2.prev, sentEye := r.2.sent })
  else ([], b)

/-- `send_face_data`. -/
def sendFaceData (b : OscBridge) (data : FaceData) : List OscMessage × OscBridge :=
  if !b.enabled then ([], b)
  else if !b.socket then ([], b)
  else
    let lip := b.sendLip data
    let eye := lip.2.sendEye data
    (lip.1 ++ eye.1, eye.2)

end OscBridge

end Engine
end FocusVision
