import FocusVision.Engine.ConfigSafe
import FocusVision.Engine.FrameEncoder
import FocusVision.Engine.FrameLoop
import FocusVision.Lib.FloatDistance

/-!
# Adaptive FEC

`AdaptiveFecController` of the engine's `transport/fec.rs`, and what
`AdaptiveState::tick` does with it and the encoder after the bitrate.  A constructor
that panics has no result.

The lemmas say when the controller moves its redundancy, and how far.
-/

namespace FocusVision
namespace Engine

/-- `AdaptiveFecController`. -/
structure AdaptiveFecController where
  currentRedundancy : F32
  minRedundancy : F32
  maxRedundancy : F32
  maxChangePerStep : F32 := f32 5 100
  boostActive : Bool := false
  lastAdjustment : Nat
  adjustmentInterval : Nat := 1000000000
  range : minRedundancy ≤ maxRedundancy

namespace AdaptiveFecController

/-- `new`: the clamps panic on an empty range. -/
def new (minRedundancy maxRedundancy initial : F32) (now : Nat) :
    Option AdaptiveFecController :=
  let min := clampUnit minRedundancy
  match Flt.clamp maxRedundancy min (f32 1 1) with
  | none => none
  | some max =>
      if h : min ≤ max then
        some
          { currentRedundancy := Flt.clampTo min max initial
            minRedundancy := min
            maxRedundancy := max
            lastAdjustment := now
            range := h }
      else none

/-- The loss rate that `adjust` goes by. -/
def usableLoss (lossRate : F64) : F64 :=
  if lossRate.isNaN || lossRate.isInfinite then f64 0 1
  else Flt.clampTo (f64 0 1) (f64 1 1) lossRate

/-- The redundancy for a loss rate. -/
def targetFor (loss : F64) : F32 :=
  if loss < f64 1 100 then f32 5 100
  else if loss < f64 3 100 then f32 15 100
  else if loss < f64 5 100 then f32 25 100
  else f32 40 100

/-- One step of the current redundancy towards the target. -/
def towardsTarget (afec : AdaptiveFecController) (lossRate : F64) : F32 :=
  let target := Flt.clampTo afec.minRedundancy afec.maxRedundancy
    (targetFor (usableLoss lossRate))
  let diff := Flt.sub target afec.currentRedundancy
  let clampedDiff := Flt.clampTo afec.maxChangePerStep.negate afec.maxChangePerStep diff
  Flt.clampTo afec.minRedundancy afec.maxRedundancy
    (Flt.add afec.currentRedundancy clampedDiff)

/-- `adjust`: whether the redundancy was changed, and the controller after it. -/
def adjust (afec : AdaptiveFecController) (lossRate : F64) (now : Nat) :
    Bool × AdaptiveFecController :=
  if now - afec.lastAdjustment < afec.adjustmentInterval then (false, afec)
  else
    let newRedundancy := afec.towardsTarget lossRate
    if f32Epsilon < (Flt.sub newRedundancy afec.currentRedundancy).abs then
      (true, { afec with currentRedundancy := newRedundancy, lastAdjustment := now })
    else (false, afec)

def activateBoost (afec : AdaptiveFecController) : AdaptiveFecController :=
  { afec with boostActive := true }

def deactivateBoost (afec : AdaptiveFecController) : AdaptiveFecController :=
  { afec with boostActive := false }

/-- `effective_redundancy`. -/
def effectiveRedundancy (afec : AdaptiveFecController) : F32 :=
  if afec.boostActive then Flt.maxNum afec.maxRedundancy afec.currentRedundancy
  else afec.currentRedundancy

end AdaptiveFecController

/-- `recommend_fec_boost`. -/
def BurstDetector.recommendFecBoost (det : BurstDetector) : Bool :=
  det.pattern = .burst

section Tick

variable {crate : RsCrate}

/-- `redundancy`. -/
def FrameFecEncoder.redundancy (enc : FrameFecEncoder crate) : F32 :=
  enc.bulk.redundancy

/-- The loss-based adjustment at the end of `tick`. -/
def adjustToLoss (afec : AdaptiveFecController) (encoder : FrameFecEncoder crate)
    (lossRate : F64) (now : Nat) : AdaptiveFecController × FrameFecEncoder crate :=
  let (changed, afec) := afec.adjust lossRate now
  (afec, if changed then encoder.setRedundancy afec.effectiveRedundancy else encoder)

/-- What `tick` does after the bitrate. -/
def respond (adaptive : AdaptiveState) (afec : AdaptiveFecController)
    (encoder : FrameFecEncoder crate) (now : Nat) :
    AdaptiveFecController × FrameFecEncoder crate :=
  let lossRate := adaptive.bwEstimator.lossRateEwma
  if adaptive.gccEnabled then
    if adaptive.burstDetector.recommendFecBoost then
      let afec := afec.activateBoost
      (afec, encoder.setRedundancy afec.effectiveRedundancy)
    else
      if ¬afec.effectiveRedundancy.Same afec.currentRedundancy then
        let afec := afec.deactivateBoost
        adjustToLoss afec (encoder.setRedundancy afec.effectiveRedundancy) lossRate now
      else adjustToLoss afec encoder lossRate now
  else adjustToLoss afec encoder lossRate now

/-- A session's frame loop with adaptive FEC. -/
structure FecLoop (crate : RsCrate) where
  loop : FrameLoop
  afec : AdaptiveFecController
  encoder : FrameFecEncoder crate

namespace FecLoop

/-- The start of a session with adaptive FEC. -/
def start (config : AppConfig) (sleepEnabled sliceFecEnabled : Bool) (now : Nat) :
    Option (FecLoop crate) :=
  match AdaptiveFecController.new config.network.fecRedundancyMin
    config.network.fecRedundancyMax config.network.fecRedundancy now with
  | none => none
  | some afec =>
      some
        { loop := FrameLoop.start config sleepEnabled now
          afec
          encoder := FrameFecEncoder.new config.network.fecRedundancy sliceFecEnabled
            config.network.sliceCount.toNat }

/-- Does the input make the loop take a heartbeat's figures in? -/
def consumes (s : FecLoop crate) : LoopInput → Bool
  | .tick => s.loop.adaptive.pendingStats.isSome
  | _ => false

def step (s : FecLoop crate) (call : LoopStep) : List Nat × FecLoop crate :=
  let (notified, loop) := s.loop.step call
  if s.consumes call.input then
    let (afec, encoder) := respond loop.adaptive s.afec s.encoder loop.now
    (notified, { loop, afec, encoder })
  else (notified, { s with loop })

end FecLoop

end Tick

/-! ### The controller -/

/-- A change that is taken over. -/
def Apart (x y : F32) : Prop :=
  f32Epsilon < (Flt.sub x y).abs

instance (x y : F32) : Decidable (Apart x y) :=
  inferInstanceAs (Decidable (_ < _))

theorem not_apart_of_nan
    {x y : F32} (h : x.isNaN = true ∨ y.isNaN = true) :
    ¬Apart x y := by
  intro hapart
  have habs := hapart.2.1
  rw [Flt.isNaN_abs_sub h] at habs
  exact absurd habs (by decide)

namespace AdaptiveFecController

variable {afec : AdaptiveFecController}

/-- It is time for an adjustment, and the redundancy has more than `f32::EPSILON`
to go. -/
def AdjustmentDue (afec : AdaptiveFecController) (lossRate : F64) (now : Nat) : Prop :=
  ¬now - afec.lastAdjustment < afec.adjustmentInterval ∧
    Apart (afec.towardsTarget lossRate) afec.currentRedundancy

instance (lossRate : F64) (now : Nat) : Decidable (afec.AdjustmentDue lossRate now) :=
  inferInstanceAs (Decidable (_ ∧ _))

theorem adjust_of_not_due
    {lossRate : F64} {now : Nat} (h : ¬afec.AdjustmentDue lossRate now) :
    afec.adjust lossRate now = (false, afec) := by
  unfold adjust
  simp only
  split_ifs with hearly hchange
  · rfl
  · exact absurd ⟨hearly, hchange⟩ h
  · rfl

/-- An adjustment moves the redundancy by more than `f32::EPSILON`, within its bounds. -/
theorem adjust_of_due
    {lossRate : F64} {now : Nat} (h : afec.AdjustmentDue lossRate now) :
    ∃ new, afec.adjust lossRate now =
        (true, { afec with currentRedundancy := new, lastAdjustment := now }) ∧
      Apart new afec.currentRedundancy ∧ afec.minRedundancy ≤ new ∧ new ≤ afec.maxRedundancy := by
  obtain ⟨hearly, hchange⟩ := h
  refine ⟨afec.towardsTarget lossRate, ?_, hchange, ?_⟩
  · unfold adjust
    simp only
    rw [if_neg hearly]
    exact if_pos hchange
  · refine Flt.clampTo_mem afec.range ?_
    by_contra hnan
    rw [Bool.not_eq_false] at hnan
    exact not_apart_of_nan (Or.inl hnan) hchange

theorem effectiveRedundancy_boosted
    (hboost : afec.boostActive = true) (hmax : afec.currentRedundancy ≤ afec.maxRedundancy) :
    afec.effectiveRedundancy = afec.maxRedundancy := by
  rw [effectiveRedundancy, if_pos hboost]
  exact Flt.maxNum_eq hmax

theorem effectiveRedundancy_calm
    (hboost : afec.boostActive = false) :
    afec.effectiveRedundancy = afec.currentRedundancy := by
  rw [effectiveRedundancy, hboost, if_neg (by decide)]

end AdaptiveFecController

end Engine
end FocusVision
