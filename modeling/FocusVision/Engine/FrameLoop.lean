import FocusVision.Engine.BitrateRun
import FocusVision.Engine.Config
import FocusVision.Engine.Tracking

/-!
# The frame loop of a session

`SleepDetector` of the engine's `sleep_mode.rs`, and the part of `engine.rs` that
decides on the bitrate: `AdaptiveState`, the thermal ceiling and `check_sleep_mode`
in the frame loop of `run_session`.  A method that tells the driver's encoder a
bitrate returns the values it passes to `notify_bitrate_change`, in order.

Left out: the adaptive FEC, which `tick` looks at after the bitrate, the statistics
that only status.json and the session log show, the log messages, and the sleep
messages to the headset.  What the thermal governor answers is an input.
-/

namespace FocusVision
namespace Engine

/-! ### Sleep -/

inductive SleepTransition where
  | sleep
  | wake
deriving DecidableEq

structure SleepDetector where
  enabled : Bool
  motionThreshold : F32
  timeoutSeconds : UInt32
  sleepBitrateMbps : UInt32
  prevPosition : Option (F32 × F32 × F32) := none
  /-- 64 bits in the source, more than a session has frames; here it is not bounded. -/
  idleFrames : Nat := 0
  isSleeping : Bool := false

namespace SleepDetector

/-- The distance from the previous position. -/
def motion (det : SleepDetector) (tracking : TrackingData) : F32 :=
  match det.prevPosition with
  | some prev =>
      let pos := tracking.position
      let dx := Flt.sub pos.1 prev.1
      let dy := Flt.sub pos.2.1 prev.2.1
      let dz := Flt.sub pos.2.2 prev.2.2
      Flt.sqrt (Flt.add (Flt.add (Flt.mul dx dx) (Flt.mul dy dy)) (Flt.mul dz dz))
  | none => f32 0 1

def update (det : SleepDetector) (tracking : TrackingData) :
    Option SleepTransition × SleepDetector :=
  if !det.enabled then (none, det)
  else
    let motion := det.motion tracking
    let det := { det with prevPosition := some tracking.position }
    if det.motionThreshold < motion then
      let det := { det with idleFrames := 0 }
      if det.isSleeping then (some .wake, { det with isSleeping := false })
      else (none, det)
    else
      let det := { det with idleFrames := det.idleFrames + 1 }
      let thresholdFrames := 90 * det.timeoutSeconds.toNat
      if !det.isSleeping ∧ det.idleFrames ≥ thresholdFrames then
        (some .sleep, { det with isSleeping := true })
      else (none, det)

end SleepDetector

/-! ### The adaptive state -/

/-- The part of `HmdStats` that `tick` uses. -/
structure HmdStats where
  packetsReceived : UInt32
  packetsLost : UInt32

/-- `u32::saturating_add`. -/
def saturatingAdd (a b : UInt32) : UInt32 :=
  UInt32.ofNat (min (a.toNat + b.toNat) (2 ^ 32 - 1))

/-- An event from the control task. -/
inductive ControlEvent where
  | heartbeat (stats : HmdStats)
  | transportFeedback (entries : List TransportFeedbackEntry)
  | bitrateSetting (mbps : UInt32)

structure AdaptiveState where
  bwEstimator : BandwidthEstimator
  bitrateCtrl : BitrateController
  burstDetector : BurstDetector
  gccEstimator : GccEstimator
  gccEnabled : Bool
  sleepDetector : SleepDetector
  pendingStats : Option HmdStats

/-- The value passed to `notify_bitrate_change` for a bitrate: `bps as u32`. -/
def asU32 (bps : Nat) : Nat :=
  bps % 2 ^ 32

namespace AdaptiveState

/-- `AdaptiveState::new`; `sleepEnabled` is `config.sleep_mode.enabled`. -/
def new (config : AppConfig) (sleepEnabled : Bool) (now : Nat) : AdaptiveState :=
  { bwEstimator := {}
    bitrateCtrl := BitrateController.new config.video.bitrateMbps.toNat now
    burstDetector := {}
    gccEstimator := GccEstimator.new
    gccEnabled := config.network.congestionControl == "gcc"
    sleepDetector :=
      { enabled := sleepEnabled
        motionThreshold := config.sleepMode.motionThreshold
        timeoutSeconds := config.sleepMode.timeoutSeconds
        sleepBitrateMbps := config.sleepMode.sleepBitrateMbps }
    pendingStats := none }

/-- `on_event`. -/
def onEvent (s : AdaptiveState) (event : ControlEvent) (now : Nat) : List Nat × AdaptiveState :=
  match event with
  | .heartbeat stats =>
      let stats :=
        match s.pendingStats with
        | some p =>
            { packetsReceived := saturatingAdd p.packetsReceived stats.packetsReceived
              packetsLost := saturatingAdd p.packetsLost stats.packetsLost }
        | none => stats
      ([], { s with pendingStats := some stats })
  | .transportFeedback entries =>
      if s.gccEnabled then
        ([], { s with gccEstimator := s.gccEstimator.processFeedback entries })
      else ([], s)
  | .bitrateSetting mbps =>
      let bitrateCtrl := s.bitrateCtrl.setSettingMbps mbps.toNat now
      ([asU32 bitrateCtrl.currentBitrateBps], { s with bitrateCtrl })

/-- The loss of the interval that a tick looks at. -/
def intervalLoss (stats : HmdStats) : F64 :=
  let total := stats.packetsReceived.toNat + stats.packetsLost.toNat
  if total = 0 then f64 0 1
  else Flt.div (Flt.ofNat stats.packetsLost.toNat) (Flt.ofNat total)

/-- The estimators that a tick takes the heartbeat's figures into. -/
def takeIn (s : AdaptiveState) (stats : HmdStats) (now : Nat) : AdaptiveState :=
  let s :=
    { s with
      pendingStats := none
      bwEstimator :=
        s.bwEstimator.update stats.packetsReceived stats.packetsLost (f64 0 1) }
  if s.gccEnabled then
    { s with burstDetector := s.burstDetector.record (intervalLoss stats) now }
  else s

/-- The delay estimator that `tick` adjusts with: a neutral one without GCC. -/
def tickGcc (s : AdaptiveState) : GccEstimator :=
  if s.gccEnabled then s.gccEstimator else GccEstimator.new

/-- The burst detector that `tick` adjusts with. -/
def tickBurst (s : AdaptiveState) : BurstDetector :=
  if s.gccEnabled then s.burstDetector else {}

/-- `tick`, as far as the bitrate goes. -/
def tick (s : AdaptiveState) (now : Nat) : List Nat × AdaptiveState :=
  match s.pendingStats with
  | none => ([], s)
  | some stats =>
      let s := s.takeIn stats now
      let (changed, bitrateCtrl) :=
        s.bitrateCtrl.adjust s.bwEstimator s.tickGcc s.tickBurst now
      (if changed then [asU32 bitrateCtrl.currentBitrateBps] else [], { s with bitrateCtrl })

/-- The thermal ceiling for a multiplier of the governor. -/
def thermalCeiling (s : AdaptiveState) (multiplier : F64) : Nat :=
  (Flt.mul (Flt.ofNat (s.bitrateCtrl.settingMbps * 1000000)) multiplier).toUnsigned 64

/-- The answer of the thermal governor: `none` when it did not poll. -/
def applyThermal (s : AdaptiveState) (multiplier : Option F64) : AdaptiveState :=
  match multiplier with
  | none => s
  | some multiplier =>
      { s with
        bitrateCtrl := s.bitrateCtrl.setThermalCeilingBps (s.thermalCeiling multiplier) }

/-- `check_sleep_mode`, with the newest tracking data. -/
def checkSleepMode (s : AdaptiveState) (tracking : Option TrackingData) :
    List Nat × AdaptiveState :=
  match tracking with
  | none => ([], s)
  | some data =>
      match s.sleepDetector.update data with
      | (none, sleepDetector) => ([], { s with sleepDetector })
      | (some .sleep, sleepDetector) =>
          ([asU32 (sleepDetector.sleepBitrateMbps.toNat * 1000000)], { s with sleepDetector })
      | (some .wake, sleepDetector) =>
          ([asU32 (s.bitrateCtrl.settingMbps * 1000000)], { s with sleepDetector })

end AdaptiveState

/-! ### The loop -/

/-- What the frame loop of `run_session` does with the bitrate. -/
inductive LoopInput where
  | event (event : ControlEvent)
  | tick
  | thermal (multiplier : Option F64)
  | checkSleep (tracking : Option TrackingData)

/-- A step of the loop, some time after the one before. -/
structure LoopStep where
  elapsed : Nat
  input : LoopInput

/-- The frame loop, with the last bitrate that the encoder was told. -/
structure FrameLoop where
  adaptive : AdaptiveState
  now : Nat
  commanded : Nat

namespace FrameLoop

/-- The start of a session, which tells the encoder the controller's bitrate. -/
def start (config : AppConfig) (sleepEnabled : Bool) (now : Nat) : FrameLoop :=
  let adaptive := AdaptiveState.new config sleepEnabled now
  { adaptive, now, commanded := asU32 adaptive.bitrateCtrl.currentBitrateBps }

/-- One input, at a time. -/
def handle (adaptive : AdaptiveState) (now : Nat) : LoopInput → List Nat × AdaptiveState
  | .event event => adaptive.onEvent event now
  | .tick => adaptive.tick now
  | .thermal multiplier => ([], adaptive.applyThermal multiplier)
  | .checkSleep tracking => adaptive.checkSleepMode tracking

def step (s : FrameLoop) (call : LoopStep) : List Nat × FrameLoop :=
  let now := s.now + call.elapsed
  let (notified, adaptive) := handle s.adaptive now call.input
  (notified, { adaptive, now, commanded := notified.getLast?.getD s.commanded })

end FrameLoop

end Engine
end FocusVision
