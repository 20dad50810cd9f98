import FocusVision.Engine.FrameLoop

/-!
# The loss rate

`BandwidthEstimator::update` adds the two counters of a report as `u32`, where the
figure for the burst detector is computed with 64 bits.  A report whose counters add
up to less than `2 ^ 32` gives the exact rate, rounded once, and the average of rates
is a rate.  From `2 ^ 32` on the sum wraps, and the quotient is above 1, or taken for
0 if the sum wraps to 0.
-/

namespace FocusVision
namespace Engine

/-- A rate is a number from 0 to 1. -/
def IsRate (x : F64) : Prop :=
  f64 0 1 ≤ x ∧ x ≤ f64 1 1

/-- The bits of a rate, which is not a negative zero. -/
def RateBits (x : F64) : Prop :=
  x.neg = false ∧ x.mag ≤ (f64 1 1).mag

/-- The numbers that the average and the wrapped quotient depend on. -/
theorem rate_facts :
    (f64 1 1).mag < FloatFormat.infBits ⟨52, 11⟩ ∧
      (f64 3 10).mag < FloatFormat.infBits ⟨52, 11⟩ ∧
      (Flt.sub (f64 1 1) (f64 3 10)).neg = false ∧
      (Flt.sub (f64 1 1) (f64 3 10)).mag < FloatFormat.infBits ⟨52, 11⟩ ∧
      (ewma (f64 3 10) (f64 1 1) (f64 1 1)).mag ≤ (f64 1 1).mag ∧
      (Flt.mul (f64 3 10) (f64 1 1)).mag < FloatFormat.infBits ⟨52, 11⟩ ∧
      (Flt.mul (Flt.sub (f64 1 1) (f64 3 10)) (f64 1 1)).mag <
        FloatFormat.infBits ⟨52, 11⟩ ∧
      (f64 1 1).mag < (f64 (2 ^ 32 + 1) (2 ^ 32)).mag ∧
      (f64 0 1).mag < (f64 1 (2 ^ 33)).mag := by
  decide +kernel

theorem RateBits.isRate
    {x : F64} (h : RateBits x) :
    IsRate x := by
  obtain ⟨hone, -⟩ := rate_facts
  have hx : x.Nonneg := ⟨h.1, Nat.le_of_lt (Nat.lt_of_le_of_lt h.2 hone)⟩
  have hzero : (f64 0 1).mag ≤ x.mag := by
    rw [show (f64 0 1).mag = FloatFormat.roundBits ⟨52, 11⟩ (0 * 2 ^ _) 1 from rfl,
      Nat.zero_mul, FloatFormat.roundBits_zero]
    exact Nat.zero_le _
  exact ⟨((f64_nonneg 0 1).le_iff hx).mpr hzero, (hx.le_iff (f64_nonneg 1 1)).mpr h.2⟩

theorem rateBits_ratio
    {a b : Nat} (hb : 0 < b) (h : a ≤ b) :
    RateBits (f64 a b) :=
  ⟨rfl, f64_mag_mono hb Nat.one_pos (by omega)⟩

/-- The average of two rates is a rate. -/
theorem rateBits_ewma
    {sample average : F64} (hs : RateBits sample) (ha : RateBits average) :
    RateBits (ewma (f64 3 10) sample average) := by
  obtain ⟨hone, halpha, hrestNeg, hrest, hsum, hleft, hright, -⟩ := rate_facts
  have hsample : (Flt.mul (f64 3 10) sample).mag ≤ (Flt.mul (f64 3 10) (f64 1 1)).mag :=
    Flt.mul_mag_mono_finite rfl rfl (Nat.le_refl _) halpha hs.1 rfl hs.2 hone
  have haverage : (Flt.mul (Flt.sub (f64 1 1) (f64 3 10)) average).mag ≤
      (Flt.mul (Flt.sub (f64 1 1) (f64 3 10)) (f64 1 1)).mag :=
    Flt.mul_mag_mono_finite hrestNeg hrestNeg (Nat.le_refl _) hrest ha.1 rfl ha.2 hone
  have hneg : ∀ {w x : F64}, w.neg = false → w.mag < FloatFormat.infBits ⟨52, 11⟩ →
      RateBits x → (Flt.mul w x).neg = false := by
    intro w x hw hwf hx
    rw [Flt.mul_eq_round hw hwf hx.1 (Nat.lt_of_le_of_lt hx.2 hone)]
    rfl
  have hsampleNeg := hneg rfl halpha hs
  have haverageNeg := hneg hrestNeg hrest ha
  have honeBits : RateBits (f64 1 1) := ⟨rfl, Nat.le_refl _⟩
  refine ⟨?_, ?_⟩
  · rw [ewma, Flt.add_eq_round hsampleNeg (Nat.lt_of_le_of_lt hsample hleft) haverageNeg
      (Nat.lt_of_le_of_lt haverage hright)]
    rfl
  · refine Nat.le_trans ?_ hsum
    exact Flt.add_mag_mono hsampleNeg (hneg rfl halpha honeBits) hsample hleft haverageNeg
      (hneg hrestNeg hrest honeBits) haverage hright

/-! ### One report -/

/-- The loss that `BandwidthEstimator::update` finds in a report. -/
def reportLoss (stats : HmdStats) : F64 :=
  let total := stats.packetsReceived + stats.packetsLost
  if total > 0 then Flt.div (Flt.ofNat stats.packetsLost.toNat) (Flt.ofNat total.toNat)
  else f64 0 1

theorem update_lossRateEwma
    (est : BandwidthEstimator) (stats : HmdStats) (rtt : F64) :
    (est.update stats.packetsReceived stats.packetsLost rtt).lossRateEwma =
        (if est.hasData then ewma est.alpha (reportLoss stats) est.lossRateEwma
          else reportLoss stats) ∧
      (est.update stats.packetsReceived stats.packetsLost rtt).alpha = est.alpha := by
  unfold BandwidthEstimator.update reportLoss
  cases est.hasData <;> exact ⟨rfl, rfl⟩

namespace HmdStats

/-- The packets of a report, without a bound. -/
def total (stats : HmdStats) : Nat :=
  stats.packetsReceived.toNat + stats.packetsLost.toNat

/-- The rate of loss, the one float nearest to the quotient. -/
def exactLoss (stats : HmdStats) : F64 :=
  if stats.total = 0 then f64 0 1 else f64 stats.packetsLost.toNat stats.total

theorem lost_le_total
    (stats : HmdStats) :
    stats.packetsLost.toNat ≤ stats.total :=
  Nat.le_add_left _ _

theorem exactLoss_rateBits
    (stats : HmdStats) :
    RateBits stats.exactLoss := by
  unfold exactLoss
  split_ifs with h
  · exact rateBits_ratio Nat.one_pos (Nat.zero_le _)
  · exact rateBits_ratio (Nat.pos_of_ne_zero h) stats.lost_le_total

/-- The sum of the counters in 32 bits. -/
theorem toNat_sum
    (stats : HmdStats) :
    (stats.packetsReceived + stats.packetsLost).toNat =
      if stats.total < 2 ^ 32 then stats.total else stats.total - 2 ^ 32 := by
  have hreceived := stats.packetsReceived.toNat_lt
  have hlost := stats.packetsLost.toNat_lt
  rw [UInt32.toNat_add]
  unfold total
  split_ifs <;> omega

theorem reportLoss_ratio
    {stats : HmdStats} (h : (stats.packetsReceived + stats.packetsLost).toNat ≠ 0) :
    reportLoss stats =
      f64 stats.packetsLost.toNat (stats.packetsReceived + stats.packetsLost).toNat := by
  have hpos : stats.packetsReceived + stats.packetsLost > 0 :=
    UInt32.lt_iff_toNat_lt.mpr (Nat.pos_of_ne_zero h)
  have hlost := stats.packetsLost.toNat_lt
  have hsum := (stats.packetsReceived + stats.packetsLost).toNat_lt
  unfold reportLoss
  rw [if_pos hpos]
  refine Flt.div_ofNat (by decide) ?_ ?_ (Nat.pos_of_ne_zero h)
  · change _ < 2 ^ 53
    omega
  · change _ < 2 ^ 53
    omega

theorem reportLoss_zero
    {stats : HmdStats} (h : (stats.packetsReceived + stats.packetsLost).toNat = 0) :
    reportLoss stats = f64 0 1 := by
  have hzero : ¬ stats.packetsReceived + stats.packetsLost > 0 := by
    intro hpos
    have := UInt32.lt_iff_toNat_lt.mp hpos
    rw [h] at this
    exact absurd this (Nat.lt_irrefl _)
  unfold reportLoss
  rw [if_neg hzero]

/-- The report's loss is the rate if and only if the sum does not wrap. -/
theorem reportLoss_eq_iff
    (stats : HmdStats) :
    reportLoss stats = stats.exactLoss ↔ stats.total < 2 ^ 32 := by
  have hsum := stats.toNat_sum
  have hreceived := stats.packetsReceived.toNat_lt
  have hlost := stats.packetsLost.toNat_lt
  obtain ⟨-, -, -, -, -, -, -, habove, hpositive⟩ := rate_facts
  constructor
  · intro h
    by_contra hwraps
    rw [if_neg hwraps] at hsum
    have htotal : stats.total = stats.packetsReceived.toNat + stats.packetsLost.toNat := rfl
    by_cases hzero : stats.total - 2 ^ 32 = 0
    · -- the quotient is taken for 0, but some packets were lost
      rw [reportLoss_zero (hsum.trans hzero), exactLoss, if_neg (by omega)] at h
      have hsome : (f64 1 (2 ^ 33)).mag ≤ (f64 stats.packetsLost.toNat stats.total).mag :=
        f64_mag_mono (by decide) (by omega) (by omega)
      rw [← h] at hsome
      omega
    · -- the quotient is above 1
      have hlarge : (f64 (2 ^ 32 + 1) (2 ^ 32)).mag ≤ (reportLoss stats).mag := by
        rw [reportLoss_ratio (by omega), hsum]
        exact f64_mag_mono (by decide) (by omega) (by omega)
      have hsmall := stats.exactLoss_rateBits.2
      rw [← h] at hsmall
      omega
  · intro hfits
    rw [if_pos hfits] at hsum
    unfold exactLoss
    split_ifs with hzero
    · exact reportLoss_zero (hsum.trans hzero)
    · rw [reportLoss_ratio (by omega), hsum]

end HmdStats

/-! ### Runs -/

namespace FrameLoop

/-- The figures that a step takes in: the heartbeats' since the last tick. -/
def report (s : FrameLoop) (call : LoopStep) : Option HmdStats :=
  match call.input with
  | .tick => s.adaptive.pendingStats
  | _ => none

/-- The estimator's rates are rates: that of the report a step takes in is exact, none of
its sums wraps, and the average that the step leaves is a rate too. -/
structure Rates (s : FrameLoop) (call : LoopStep) : Prop where
  exact : ∀ stats, s.report call = some stats → reportLoss stats = stats.exactLoss
  rate : ∀ stats, s.report call = some stats → IsRate (reportLoss stats)
  noWrap : ∀ stats, s.report call = some stats →
    (stats.packetsReceived + stats.packetsLost).toNat = stats.total
  smoothed : IsRate (s.step call).2.adaptive.bwEstimator.lossRateEwma

/-- The report that a step takes in counts fewer than `2 ^ 32` packets. -/
def Fits (s : FrameLoop) (call : LoopStep) : Prop :=
  ∀ stats, s.report call = some stats → stats.total < 2 ^ 32

/-- The average is a rate, with the weights that it started with. -/
def Smoothed (s : FrameLoop) : Prop :=
  s.adaptive.bwEstimator.alpha = f64 3 10 ∧ RateBits s.adaptive.bwEstimator.lossRateEwma

/-- Only a report changes the estimator. -/
theorem step_bwEstimator
    (s : FrameLoop) (call : LoopStep) :
    (s.step call).2.adaptive.bwEstimator =
      match s.report call with
      | some stats =>
          s.adaptive.bwEstimator.update stats.packetsReceived stats.packetsLost (f64 0 1)
      | none => s.adaptive.bwEstimator := by
  obtain ⟨elapsed, input⟩ := call
  cases input with
  | event e =>
      cases e with
      | heartbeat stats => rfl
      | transportFeedback entries =>
          simp only [step, handle, AdaptiveState.onEvent, report]
          split_ifs <;> rfl
      | bitrateSetting mbps => rfl
  | tick =>
      simp only [step, handle, AdaptiveState.tick, report]
      cases s.adaptive.pendingStats with
      | none => rfl
      | some stats =>
          simp only [AdaptiveState.takeIn]
          split_ifs <;> rfl
  | thermal multiplier => cases multiplier <;> rfl
  | checkSleep tracking =>
      cases tracking with
      | none => rfl
      | some data =>
          simp only [step, handle, AdaptiveState.checkSleepMode, report]
          split <;> rfl

theorem Smoothed.step
    {s : FrameLoop} (h : s.Smoothed) (call : LoopStep) (hfits : s.Fits call) :
    (s.step call).2.Smoothed := by
  unfold Smoothed
  rw [step_bwEstimator]
  cases hreport : s.report call with
  | none => exact h
  | some stats =>
      obtain ⟨hrate, halpha⟩ :=
        update_lossRateEwma s.adaptive.bwEstimator stats (f64 0 1)
      simp only
      rw [hrate, halpha, stats.reportLoss_eq_iff.mpr (hfits stats hreport), h.1]
      refine ⟨rfl, ?_⟩
      split_ifs
      · exact rateBits_ewma stats.exactLoss_rateBits h.2
      · exact stats.exactLoss_rateBits

theorem rates_iff
    {s : FrameLoop} (h : s.Smoothed) (call : LoopStep) :
    s.Rates call ↔ s.Fits call := by
  constructor
  · exact fun hrates stats hreport =>
      stats.reportLoss_eq_iff.mp (hrates.exact stats hreport)
  · intro hfits
    have hexact : ∀ stats, s.report call = some stats → reportLoss stats = stats.exactLoss :=
      fun stats hreport => stats.reportLoss_eq_iff.mpr (hfits stats hreport)
    refine ⟨hexact, ?_, ?_, (h.step call hfits).2.isRate⟩
    · intro stats hreport
      rw [hexact stats hreport]
      exact stats.exactLoss_rateBits.isRate
    · intro stats hreport
      rw [stats.toNat_sum, if_pos (hfits stats hreport)]

theorem start_smoothed
    (config : AppConfig) (sleepEnabled : Bool) (now : Nat) :
    (start config sleepEnabled now).Smoothed :=
  ⟨rfl, rateBits_ratio Nat.one_pos (Nat.zero_le _)⟩

/-- The estimator's loss rates are exact rates in exactly the runs whose reports count
fewer than `2 ^ 32` packets. -/
theorem lossRates_iff
    (config : AppConfig) (sleepEnabled : Bool) (now : Nat) (calls : List LoopStep) :
    Run.Along step Rates (start config sleepEnabled now) calls ↔
      Run.Along step Fits (start config sleepEnabled now) calls := by
  have hstep : ∀ (s : FrameLoop) (call : LoopStep), s.Smoothed → s.Fits call →
      (step s call).2.Smoothed := fun _ call h hfits => h.step call hfits
  exact Run.along_congr_of step hstep (fun _ call h => rates_iff h call)
    (start_smoothed config sleepEnabled now) calls

/-- A heartbeat with the largest count of packets, two of them lost on top of it. -/
def twiceLost : List LoopStep :=
  [⟨500000000, .event (.heartbeat ⟨0xFFFFFFFF, 2⟩)⟩, ⟨500000000, .tick⟩]

/-- The sum wraps to 1, and the loss rate is 2. -/
theorem twiceLost_not_rate :
    ¬ Run.Along step Rates (start {} false 0) twiceLost := by
  rintro ⟨-, hrates, -⟩
  have hfits := (HmdStats.reportLoss_eq_iff _).mp (hrates.exact ⟨0xFFFFFFFF, 2⟩ rfl)
  exact absurd hfits (by decide)

end FrameLoop
end Engine
end FocusVision
