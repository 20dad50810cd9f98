import FocusVision.Lib.FloatExact

/-!
# Bitrate control

`arbitrate` and `BitrateController` of the engine's `adaptive` modules, with the
three estimators that feed them.  An `Instant` is a number of nanoseconds, and each
method that reads the clock takes the time as `now`.  Counters wrap as in a release
build.  Left out: the log messages, the time of the last report, which nothing
here reads, and the delay samples and the trend of `GccEstimator`, which the
controller does not use.

The lemmas say what the network signals make of the bitrate: the multiplier is the
least of the reasons to back off, and only if there is none can it be an increase.
-/

namespace FocusVision
namespace Engine

/-! ### Estimators -/

/-- `BandwidthEstimator`: averages of the packet loss and the round trip. -/
structure BandwidthEstimator where
  lossRateEwma : F64 := f64 0 1
  rttMsEwma : F64 := f64 10 1
  alpha : F64 := f64 3 10
  hasData : Bool := false

/-- `self.alpha * sample + (1.0 - self.alpha) * average`. -/
def ewma (alpha sample average : F64) : F64 :=
  Flt.add (Flt.mul alpha sample) (Flt.mul (Flt.sub (f64 1 1) alpha) average)

/-- `BandwidthEstimator::update`. -/
def BandwidthEstimator.update (est : BandwidthEstimator)
    (packetsReceived packetsLost : UInt32) (rttMs : F64) : BandwidthEstimator :=
  let total := packetsReceived + packetsLost
  let loss : F64 :=
    if total > 0 then Flt.div (Flt.ofNat packetsLost.toNat) (Flt.ofNat total.toNat)
    else f64 0 1
  if est.hasData then
    { est with
      lossRateEwma := ewma est.alpha loss est.lossRateEwma
      rttMsEwma := ewma est.alpha rttMs est.rttMsEwma }
  else { est with lossRateEwma := loss, rttMsEwma := rttMs, hasData := true }

inductive LossPattern where
  | none
  | burst
  | sustained
deriving DecidableEq

/-- `BurstDetector`: tells a burst of loss from sustained loss. -/
structure BurstDetector where
  pattern : LossPattern := .none
  burstStart : Option Nat := none
  sustainedThreshold : Nat := 500000000
  lossRateThreshold : F64 := f64 5 100

/-- `BurstDetector::record`. -/
def BurstDetector.record (det : BurstDetector) (lossRate : F64) (now : Nat) : BurstDetector :=
  if det.lossRateThreshold ≤ lossRate then
    match det.burstStart with
    | none => { det with burstStart := some now, pattern := .burst }
    | some start =>
        if now - start > det.sustainedThreshold then { det with pattern := .sustained }
        else det
  else if det.burstStart.isSome then { det with burstStart := none, pattern := .none }
  else det

/-- `TransportFeedbackEntry`. -/
structure TransportFeedbackEntry where
  sequence : UInt16
  recvDeltaUs : Int32

/-- The delay gradient between two entries, in milliseconds. -/
def gradientMs (older newer : TransportFeedbackEntry) : F64 :=
  Flt.div (Flt.ofInt (newer.recvDeltaUs - older.recvDeltaUs).toInt) (f64 1000 1)

/-- The smoothing factor of `GccEstimator`. -/
def gccAlpha : F64 :=
  f64 3 10

/-- The gradient after one more window; the first batch is not smoothed. -/
def filterGradient (smooth : Bool) (filtered : F64)
    (window : TransportFeedbackEntry × TransportFeedbackEntry) : F64 :=
  if smooth then ewma gccAlpha (gradientMs window.1 window.2) filtered
  else gradientMs window.1 window.2

/-- The factors of the estimators' averages, and of `arbitrate`. -/
theorem factors_finite :
    (gccAlpha.mag < FloatFormat.infBits ⟨52, 11⟩ ∧ gccAlpha.mag ≤ (f64 1 1).mag ∧
      (Flt.sub (f64 1 1) gccAlpha).mag ≠ 0 ∧
      (Flt.sub (f64 1 1) gccAlpha).mag < FloatFormat.infBits ⟨52, 11⟩) ∧
    (0 < (f64 80 100).mag ∧ (f64 80 100).mag < (f64 1 1).mag ∧
      (f64 90 100).mag < (f64 1 1).mag ∧ (f64 95 100).mag < (f64 1 1).mag ∧
      (f64 1 1).mag < (f64 105 100).mag ∧
      (f64 105 100).mag < FloatFormat.infBits ⟨52, 11⟩) ∧
    (10000001 * 2 ^ FloatFormat.unit ⟨52, 11⟩ ≤
        10000000 * FloatFormat.units ⟨52, 11⟩ (f64 105 100).mag ∧
      10000000 * FloatFormat.units ⟨52, 11⟩ (f64 95 100).mag ≤
        9999999 * 2 ^ FloatFormat.unit ⟨52, 11⟩) := by
  decide +kernel

/-- The integers up to `2 ^ 31` are floats. -/
theorem units_f64
    {n : Nat} (hn : n ≤ 2 ^ 31) :
    (Flt.ofNat n : F64).mag < FloatFormat.infBits ⟨52, 11⟩ ∧
      FloatFormat.units ⟨52, 11⟩ (Flt.ofNat n : F64).mag =
        n * 2 ^ FloatFormat.unit ⟨52, 11⟩ := by
  refine Flt.units_ofNat (by decide) ?_
  change n < 2 ^ 53
  omega

/-- A gradient is a finite number of at most `2 ^ 31` milliseconds. -/
theorem gradientMs_finite
    (older newer : TransportFeedbackEntry) :
    (gradientMs older newer).mag < FloatFormat.infBits ⟨52, 11⟩ ∧
      FloatFormat.units ⟨52, 11⟩ (gradientMs older newer).mag ≤
        2 ^ 31 * 2 ^ FloatFormat.unit ⟨52, 11⟩ := by
  have hn : (newer.recvDeltaUs - older.recvDeltaUs).toInt.natAbs ≤ 2 ^ 31 := by
    have hlow := (newer.recvDeltaUs - older.recvDeltaUs).le_toInt
    have hhigh := (newer.recvDeltaUs - older.recvDeltaUs).toInt_lt
    omega
  unfold gradientMs
  generalize (newer.recvDeltaUs - older.recvDeltaUs).toInt = n at hn
  obtain ⟨hfinite, hunits⟩ := units_f64 hn
  obtain ⟨hfinite1000, hunits1000⟩ := @units_f64 1000 (by decide)
  have hmag : (Flt.ofInt n : F64).mag = (Flt.ofNat n.natAbs : F64).mag := by
    rw [Flt.ofNat_mag]
    rfl
  have hzero : (Flt.ofNat 1000 : F64).mag ≠ 0 := by
    intro h
    rw [h, FloatFormat.units_zero] at hunits1000
    have hpos := Nat.two_pow_pos (FloatFormat.unit ⟨52, 11⟩)
    omega
  have hdiv : (Flt.div (Flt.ofInt n) (f64 1000 1)).mag =
      FloatFormat.roundBits ⟨52, 11⟩
        (n.natAbs * 2 ^ FloatFormat.unit ⟨52, 11⟩ * 2 ^ FloatFormat.unit ⟨52, 11⟩)
        (1000 * 2 ^ FloatFormat.unit ⟨52, 11⟩) := by
    change (Flt.div (Flt.ofInt n) (Flt.ofNat 1000)).mag = _
    rw [← hunits, ← hunits1000, ← hmag]
    rw [← hmag] at hfinite
    simp only [Flt.div, Flt.isNaN, Flt.isInfinite, Flt.round,
      Nat.not_lt.mpr (Nat.le_of_lt hfinite), Nat.not_lt.mpr (Nat.le_of_lt hfinite1000),
      Nat.ne_of_lt hfinite, Nat.ne_of_lt hfinite1000, hzero, decide_false, Bool.or_self,
      Bool.false_eq_true, if_false]
  have hle : (Flt.div (Flt.ofInt n) (f64 1000 1)).mag ≤ (Flt.ofNat (2 ^ 31) : F64).mag := by
    rw [hdiv, Flt.ofNat_mag]
    have hpos := Nat.two_pow_pos (FloatFormat.unit ⟨52, 11⟩)
    generalize 2 ^ FloatFormat.unit ⟨52, 11⟩ = u at hpos ⊢
    refine FloatFormat.roundBits_mono _ (Nat.mul_pos (by decide) hpos) Nat.one_pos ?_
    calc n.natAbs * u * u * 1 = n.natAbs * (u * u) := by ring
      _ ≤ 2 ^ 31 * 1000 * (u * u) := Nat.mul_le_mul_right _ (by omega)
      _ = 2 ^ 31 * u * (1000 * u) := by ring
  obtain ⟨hfiniteMax, hunitsMax⟩ := @units_f64 (2 ^ 31) (Nat.le_refl _)
  refine ⟨Nat.lt_of_le_of_lt hle hfiniteMax, ?_⟩
  rw [← hunitsMax]
  exact FloatFormat.units_mono _ hle

/-- The filtered gradient is never a NaN. -/
theorem isNaN_filterGradient
    {filtered : F64} (h : filtered.isNaN = false) (smooth : Bool)
    (window : TransportFeedbackEntry × TransportFeedbackEntry) :
    (filterGradient smooth filtered window).isNaN = false := by
  obtain ⟨hfinite, hbound⟩ := gradientMs_finite window.1 window.2
  obtain ⟨⟨halpha, hone, hrest, hrestFinite⟩, -, -⟩ := factors_finite
  cases smooth with
  | false =>
      rw [filterGradient, if_neg (by decide)]
      exact Flt.isNaN_of_finite hfinite
  | true =>
      rw [filterGradient, if_pos rfl, ewma]
      have hunit : FloatFormat.units ⟨52, 11⟩ gccAlpha.mag ≤
          2 ^ FloatFormat.unit ⟨52, 11⟩ := by
        have h1 := (@units_f64 1 (by decide)).2
        rw [Nat.one_mul] at h1
        rw [← h1]
        exact FloatFormat.units_mono _ hone
      have hproduct := Flt.mul_mag_le halpha hfinite hunit hbound
      have hmax := (@units_f64 (2 ^ 31) (Nat.le_refl _)).1
      exact Flt.isNaN_add (Nat.lt_of_le_of_lt hproduct hmax)
        (Flt.isNaN_mul hrestFinite hrest h)

/-- `GccEstimator`: the filtered one-way delay gradient, in milliseconds. -/
structure GccEstimator where
  filteredGradient : F64
  lastRecvDeltaUs : Option Int32
  gradient_isNaN : filteredGradient.isNaN = false

namespace GccEstimator

def new : GccEstimator :=
  ⟨f64 0 1, none, Flt.isNaN_round _ _ _⟩

/-- The gradient after a batch of entries. -/
def filterAll (gcc : GccEstimator) (entries : List TransportFeedbackEntry) : F64 :=
  (entries.zip entries.tail).foldl (filterGradient gcc.lastRecvDeltaUs.isSome)
    gcc.filteredGradient

theorem isNaN_filterAll
    (gcc : GccEstimator) (entries : List TransportFeedbackEntry) :
    (gcc.filterAll entries).isNaN = false := by
  have hfold : ∀ (windows : List (TransportFeedbackEntry × TransportFeedbackEntry))
      (g : F64), g.isNaN = false →
      (windows.foldl (filterGradient gcc.lastRecvDeltaUs.isSome) g).isNaN = false := by
    intro windows
    induction windows with
    | nil => exact fun g hg => hg
    | cons window windows ih => exact fun g hg => ih _ (isNaN_filterGradient hg _ window)
  exact hfold _ _ gcc.gradient_isNaN

/-- `process_feedback`. -/
def processFeedback (gcc : GccEstimator) (entries : List TransportFeedbackEntry) :
    GccEstimator :=
  if entries.length < 2 then gcc
  else
    { filteredGradient := gcc.filterAll entries
      lastRecvDeltaUs := entries.getLast?.map fun entry => entry.recvDeltaUs
      gradient_isNaN := gcc.isNaN_filterAll entries }

def delayGradientMs (gcc : GccEstimator) : F64 :=
  gcc.filteredGradient

end GccEstimator

/-! ### Arbitration -/

structure ArbitrationInputs where
  currentBps : Nat
  lossRate : F64
  delayGradientMs : F64
  burst : LossPattern
  hysteresisElapsed : Bool
  targetLossRate : F64
  minBps : Nat
  hardMaxBps : Nat
  thermalCeilingBps : Option Nat

/-- `ArbDominant`: which signal forced the decision. -/
inductive ArbDominant where
  | none
  | sustained
  | loss
  | delay
  | thermal
  | increase
  | floor
deriving DecidableEq

structure ArbitrationOutcome where
  targetBps : Nat
  dominant : ArbDominant
deriving DecidableEq

/-- `hard_max`, or the thermal ceiling if it is lower. -/
def effectiveMax (hardMax : Nat) : Option Nat → Nat
  | some thermal => min hardMax thermal
  | none => hardMax

/-- `clamp_with_thermal`: the floor wins over every ceiling. -/
def clampWithThermal (candidate minBps hardMax : Nat) (thermal : Option Nat) : Nat :=
  max (min candidate (effectiveMax hardMax thermal)) minBps

/-- `decide_clamp_dominant`. -/
def decideClampDominant (candidate finalTarget : Nat) (thermal : Option Nat)
    (networkDom : ArbDominant) : ArbDominant :=
  if finalTarget > candidate then .floor
  else
    match thermal with
    | some t => if finalTarget = t ∧ t < candidate then .thermal else networkDom
    | none => networkDom

/-- `if m < multiplier`: a multiplier replaces a larger one. -/
def lowerTo (m : F64) (dominant : ArbDominant) (decision : F64 × ArbDominant) :
    F64 × ArbDominant :=
  if m < decision.1 then (m, dominant) else decision

/-- The reasons to back off, outside of a burst. -/
def backOff (inputs : ArbitrationInputs) : F64 × ArbDominant :=
  if inputs.burst = .sustained then (f64 80 100, .sustained)
  else
    let decision : F64 × ArbDominant := (f64 1 1, .none)
    let decision :=
      if f64 2 1 < inputs.delayGradientMs then lowerTo (f64 90 100) .delay decision
      else decision
    if f64 5 100 < inputs.lossRate then lowerTo (f64 80 100) .loss decision
    else if inputs.targetLossRate < inputs.lossRate then
      lowerTo (f64 95 100) .loss decision
    else decision

/-- The network multiplier, outside of a burst. -/
def networkDecision (inputs : ArbitrationInputs) : F64 × ArbDominant :=
  let decision := backOff inputs
  if f64 1 1 ≤ decision.1 ∧ inputs.hysteresisElapsed ∧ inputs.lossRate < f64 1 100 then
    (f64 105 100, .increase)
  else decision

def arbitrate (inputs : ArbitrationInputs) : ArbitrationOutcome :=
  let clamp := fun candidate =>
    clampWithThermal candidate inputs.minBps inputs.hardMaxBps inputs.thermalCeilingBps
  if inputs.burst = .burst then -- FEC absorbs the loss
    { targetBps := clamp inputs.currentBps
      dominant := decideClampDominant inputs.currentBps (clamp inputs.currentBps)
        inputs.thermalCeilingBps .none }
  else
    let (multiplier, networkDom) := networkDecision inputs
    let candidate := (Flt.mul (Flt.ofNat inputs.currentBps) multiplier).toUnsigned 64
    { targetBps := clamp candidate
      dominant := decideClampDominant candidate (clamp candidate) inputs.thermalCeilingBps
        networkDom }

/-! ### The controller -/

def MIN_BITRATE_MBPS : Nat := 10
def MAX_BITRATE_MBPS : Nat := 200

structure BitrateController where
  currentBitrateBps : Nat
  minBitrateBps : Nat
  maxBitrateBps : Nat
  thermalCeilingBps : Option Nat
  targetLossRate : F64
  lastAdjustment : Nat
  hysteresisDuration : Nat
  lastDecision : ArbDominant

namespace BitrateController

/-- `setting_bps`. -/
def settingBps (mbps : Nat) : Nat :=
  max MIN_BITRATE_MBPS (min mbps MAX_BITRATE_MBPS) * 1000000

def new (bitrateMbps now : Nat) : BitrateController :=
  { currentBitrateBps := settingBps bitrateMbps
    minBitrateBps := MIN_BITRATE_MBPS * 1000000
    maxBitrateBps := settingBps bitrateMbps
    thermalCeilingBps := none
    targetLossRate := f64 2 100
    lastAdjustment := now
    hysteresisDuration := 10000000000
    lastDecision := .none }

/-- `clamp_to_bounds`. -/
def clampToBounds (ctrl : BitrateController) (candidateBps : Nat) : Nat :=
  max (min candidateBps (effectiveMax ctrl.maxBitrateBps ctrl.thermalCeilingBps))
    ctrl.minBitrateBps

/-- `set_setting_mbps`. -/
def setSettingMbps (ctrl : BitrateController) (bitrateMbps now : Nat) : BitrateController :=
  let ctrl := { ctrl with maxBitrateBps := settingBps bitrateMbps }
  { ctrl with
    currentBitrateBps := ctrl.clampToBounds ctrl.maxBitrateBps
    lastAdjustment := now }

/-- `setting_mbps`. -/
def settingMbps (ctrl : BitrateController) : Nat :=
  ctrl.maxBitrateBps / 1000000

/-- The signals that `adjust` hands to `arbitrate`. -/
def inputs (ctrl : BitrateController) (estimator : BandwidthEstimator) (gcc : GccEstimator)
    (burst : BurstDetector) (now : Nat) : ArbitrationInputs :=
  { currentBps := ctrl.currentBitrateBps
    lossRate := estimator.lossRateEwma
    delayGradientMs := gcc.delayGradientMs
    burst := burst.pattern
    hysteresisElapsed := decide (now - ctrl.lastAdjustment > ctrl.hysteresisDuration)
    targetLossRate := ctrl.targetLossRate
    minBps := ctrl.minBitrateBps
    hardMaxBps := ctrl.maxBitrateBps
    thermalCeilingBps := ctrl.thermalCeilingBps }

/-- `adjust`: whether the bitrate was changed, and the controller after it. -/
def adjust (ctrl : BitrateController) (estimator : BandwidthEstimator) (gcc : GccEstimator)
    (burst : BurstDetector) (now : Nat) : Bool × BitrateController :=
  if !estimator.hasData then (false, ctrl)
  else
    let outcome := arbitrate (ctrl.inputs estimator gcc burst now)
    let ctrl := { ctrl with lastDecision := outcome.dominant }
    if outcome.targetBps ≠ ctrl.currentBitrateBps then
      (true, { ctrl with currentBitrateBps := outcome.targetBps, lastAdjustment := now })
    else (false, ctrl)

/-- `set_thermal_ceiling_bps`. -/
def setThermalCeilingBps (ctrl : BitrateController) (ceilingBps : Nat) : BitrateController :=
  let ctrl := { ctrl with thermalCeilingBps := some ceilingBps }
  let clamped := ctrl.clampToBounds ctrl.currentBitrateBps
  if clamped ≠ ctrl.currentBitrateBps then { ctrl with currentBitrateBps := clamped }
  else ctrl

/-- `clear_thermal_ceiling`. -/
def clearThermalCeiling (ctrl : BitrateController) : BitrateController :=
  { ctrl with thermalCeilingBps := none }

end BitrateController

end Engine
end FocusVision
