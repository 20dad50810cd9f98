import FocusVision.Engine.AdaptiveFec
import FocusVision.Engine.FrameLoopBitrate
import FocusVision.Engine.RsCode

/-!
# The redundancy during and after a burst

After a tick the encoder should run at the controller's redundancy: the maximum
during a burst, the current one otherwise.  The controller recognizes the end of a
boost by the two being different, so that a boost from the maximum never ends, and
the encoder does not follow a change of `f32::EPSILON` or less.  The main result
says on which ticks neither matters.
-/

namespace FocusVision
namespace Engine

/-! ### Bursts -/

namespace BurstDetector

/-- The loss at this time is part of a burst. -/
def Bursts (det : BurstDetector) (lossRate : F64) (now : Nat) : Prop :=
  det.lossRateThreshold ≤ lossRate ∧
    ∀ start ∈ det.burstStart, now - start ≤ det.sustainedThreshold ∧ det.pattern = .burst

instance (det : BurstDetector) (lossRate : F64) (now : Nat) :
    Decidable (det.Bursts lossRate now) :=
  inferInstanceAs (Decidable (_ ∧ _))

/-- Without a stretch of loss there is no pattern. -/
def Ok (det : BurstDetector) : Prop :=
  det.burstStart = none → det.pattern = .none

theorem record_ok
    {det : BurstDetector} (h : det.Ok) (lossRate : F64) (now : Nat) :
    (det.record lossRate now).Ok := by
  unfold record
  split_ifs with hloss hstart
  · cases hb : det.burstStart with
    | none => exact fun hnone => absurd hnone (Option.some_ne_none now)
    | some start =>
        simp only
        split_ifs
        · exact fun hnone => absurd hnone (Option.some_ne_none start)
        · exact h
  · exact fun _ => rfl
  · exact h

theorem record_burst_iff
    {det : BurstDetector} (h : det.Ok) (lossRate : F64) (now : Nat) :
    (det.record lossRate now).pattern = .burst ↔ det.Bursts lossRate now := by
  unfold record Bursts
  split_ifs with hloss hstart
  · cases hb : det.burstStart with
    | none => simp [hloss]
    | some start =>
        simp only [hloss, true_and, Option.mem_def, Option.some.injEq, forall_eq']
        split_ifs with hlong
        · simp only [false_iff]
          omega
        · have hshort : now - start ≤ det.sustainedThreshold := by omega
          simp [hshort]
  · simp [hloss]
  · have hnone := h (Option.not_isSome_iff_eq_none.mp hstart)
    simp [hloss, hnone]

end BurstDetector

/-! ### The encoder -/

section Encoder

variable {crate : RsCrate} {enc : FrameFecEncoder crate}

theorem FrameFecEncoder.setRedundancy_of_apart
    {r : F32} (hr : UnitInterval r) (h : Apart r enc.redundancy) :
    (enc.setRedundancy r).redundancy = r := by
  unfold FrameFecEncoder.redundancy at h ⊢
  unfold FrameFecEncoder.setRedundancy
  rw [FecEncoder.setRedundancy_redundancy, clampUnit_of_unit hr]
  exact if_pos h

theorem FrameFecEncoder.setRedundancy_of_not_apart
    {r : F32} (hr : UnitInterval r) (h : ¬Apart r enc.redundancy) :
    (enc.setRedundancy r).redundancy = enc.redundancy := by
  unfold FrameFecEncoder.redundancy at h ⊢
  unfold FrameFecEncoder.setRedundancy
  rw [FecEncoder.setRedundancy_redundancy, clampUnit_of_unit hr]
  exact if_neg h

/-- An encoder at NaN stays there. -/
theorem FrameFecEncoder.setRedundancy_isNaN
    (h : enc.redundancy.isNaN = true) (r : F32) :
    (enc.setRedundancy r).redundancy.isNaN = true := by
  unfold FrameFecEncoder.redundancy at h ⊢
  unfold FrameFecEncoder.setRedundancy
  simp only
  rw [FecEncoder.setRedundancy_redundancy, if_neg]
  · exact h
  · exact not_apart_of_nan (Or.inr h)

/-- The encoder's redundancy only counts as a number. -/
theorem apart_of_same
    {x y z : F32} (hx : UnitInterval x) (hy : UnitInterval y) (hz : UnitInterval z)
    (hsame : y.Same z) (h : Apart x y) :
    Apart x z :=
  Flt.lt_abs_sub_of_le hx.mag_lt hy.mag_lt hx.mag_lt hz.mag_lt
    (Nat.le_of_eq (by rw [hsame.signedUnits_eq])) h

end Encoder

/-! ### The controller and the encoder -/

/-- A controller in range, with the bounds of the config. -/
structure AdaptiveFecController.InBounds (n : NetworkConfig)
    (afec : AdaptiveFecController) : Prop where
  min : afec.minRedundancy = n.fecRedundancyMin
  max : afec.maxRedundancy = n.fecRedundancyMax
  zero_le : f32 0 1 ≤ n.fecRedundancyMin
  max_le : n.fecRedundancyMax ≤ f32 1 1
  current : InRange n.fecRedundancyMin n.fecRedundancyMax afec.currentRedundancy

section InStep

variable {crate : RsCrate} {n : NetworkConfig}
variable {afec : AdaptiveFecController} {encoder : FrameFecEncoder crate}

namespace AdaptiveFecController.InBounds

theorem unit
    (h : afec.InBounds n) {r : F32} (hr : InRange n.fecRedundancyMin n.fecRedundancyMax r) :
    UnitInterval r :=
  ⟨Flt.le_trans h.zero_le hr.1, Flt.le_trans hr.2 h.max_le⟩

theorem max_inRange
    (h : afec.InBounds n) :
    InRange n.fecRedundancyMin n.fecRedundancyMax afec.maxRedundancy := by
  rw [h.max]
  exact ⟨Flt.le_trans h.current.1 h.current.2, Flt.le_refl h.current.2.2.1⟩

theorem le_max
    (h : afec.InBounds n) :
    afec.currentRedundancy ≤ afec.maxRedundancy :=
  h.max ▸ h.current.2

theorem boosted
    (h : afec.InBounds n) (hboost : afec.boostActive = true) :
    afec.effectiveRedundancy = afec.maxRedundancy :=
  effectiveRedundancy_boosted hboost h.le_max

theorem boost
    (h : afec.InBounds n) (active : Bool) :
    ({ afec with boostActive := active } : AdaptiveFecController).InBounds n :=
  ⟨h.min, h.max, h.zero_le, h.max_le, h.current⟩

theorem adjust
    (h : afec.InBounds n) (lossRate : F64) (now : Nat) :
    (afec.adjust lossRate now).2.InBounds n ∧
      (afec.adjust lossRate now).2.boostActive = afec.boostActive := by
  by_cases hdue : afec.AdjustmentDue lossRate now
  · obtain ⟨new, heq, -, hlow, hhigh⟩ := adjust_of_due hdue
    rw [heq]
    exact ⟨⟨h.min, h.max, h.zero_le, h.max_le, ⟨h.min ▸ hlow, h.max ▸ hhigh⟩⟩, rfl⟩
  · rw [adjust_of_not_due hdue]
    exact ⟨h, rfl⟩

end AdaptiveFecController.InBounds

/-- No boost, and the encoder runs at the controller's redundancy. -/
structure Calm (n : NetworkConfig) (afec : AdaptiveFecController)
    (encoder : FrameFecEncoder crate) : Prop where
  bounds : afec.InBounds n
  boost : afec.boostActive = false
  follows : encoder.redundancy.Same afec.currentRedundancy

/-- The encoder runs at the redundancy that the loss pattern calls for. -/
structure InStep (n : NetworkConfig) (pattern : LossPattern) (afec : AdaptiveFecController)
    (encoder : FrameFecEncoder crate) : Prop where
  follows : encoder.redundancy.Same afec.effectiveRedundancy
  inRange : InRange n.fecRedundancyMin n.fecRedundancyMax encoder.redundancy
  boosted : pattern = .burst → encoder.redundancy.Same afec.maxRedundancy
  calm : pattern ≠ .burst →
    encoder.redundancy.Same afec.currentRedundancy ∧ afec.boostActive = false

theorem inRange_of_same
    {lo hi x y : F32} (h : x.Same y) (hy : InRange lo hi y) :
    InRange lo hi x :=
  ⟨Flt.le_trans hy.1 h.symm.le, Flt.le_trans h.le hy.2⟩

theorem inStep_iff_calm
    {pattern : LossPattern} (hb : afec.InBounds n) (hpattern : pattern ≠ .burst) :
    InStep n pattern afec encoder ↔ Calm n afec encoder := by
  constructor
  · intro h
    obtain ⟨hfollows, hboost⟩ := h.calm hpattern
    exact ⟨hb, hboost, hfollows⟩
  · intro h
    exact
      { follows := by
          rw [AdaptiveFecController.effectiveRedundancy_calm h.boost]
          exact h.follows
        inRange := inRange_of_same h.follows hb.current
        boosted := fun hburst => absurd hburst hpattern
        calm := fun _ => ⟨h.follows, h.boost⟩ }

theorem inStep_burst_iff
    (hb : afec.InBounds n) (hboost : afec.boostActive = true) :
    InStep n .burst afec encoder ↔ encoder.redundancy.Same afec.maxRedundancy := by
  constructor
  · exact fun h => h.boosted rfl
  · intro h
    exact
      { follows := by
          rw [hb.boosted hboost]
          exact h
        inRange := inRange_of_same h hb.max_inRange
        boosted := fun _ => h
        calm := fun hpattern => absurd rfl hpattern }

/-- The encoder takes a redundancy over if it is apart, or keeps an equal one. -/
theorem setRedundancy_same_iff
    {r : F32} (hr : UnitInterval r) :
    (encoder.setRedundancy r).redundancy.Same r ↔
      encoder.redundancy.Same r ∨ Apart r encoder.redundancy := by
  by_cases hapart : Apart r encoder.redundancy
  · rw [FrameFecEncoder.setRedundancy_of_apart hr hapart]
    exact iff_of_true (Flt.Same.refl hr.1.2.1) (Or.inr hapart)
  · rw [FrameFecEncoder.setRedundancy_of_not_apart hr hapart]
    simp [hapart]

/-- A step of the calm controller takes the encoder with it. -/
theorem Calm.adjustToLoss
    (h : Calm n afec encoder) (lossRate : F64) (now : Nat) :
    Calm n (adjustToLoss afec encoder lossRate now).1
      (adjustToLoss afec encoder lossRate now).2 := by
  obtain ⟨hbounds, hboost⟩ := h.bounds.adjust lossRate now
  rw [h.boost] at hboost
  refine ⟨hbounds, hboost, ?_⟩
  by_cases hdue : afec.AdjustmentDue lossRate now
  · obtain ⟨new, heq, hapart, -, -⟩ := AdaptiveFecController.adjust_of_due hdue
    unfold Engine.adjustToLoss
    rw [heq] at hbounds hboost ⊢
    simp only [if_true]
    rw [AdaptiveFecController.effectiveRedundancy_calm hboost]
    have hnew := hbounds.unit hbounds.current
    have hold := h.bounds.unit h.bounds.current
    have hrange := h.bounds.unit (inRange_of_same h.follows h.bounds.current)
    exact (setRedundancy_same_iff hnew).mpr
      (Or.inr (apart_of_same hnew hold hrange h.follows.symm hapart))
  · unfold Engine.adjustToLoss
    rw [AdaptiveFecController.adjust_of_not_due hdue]
    exact h.follows

/-- Two steps away from a value are further apart than the first one. -/
theorem apart_of_between
    {x y z : F32} (hx : UnitInterval x) (hy : UnitInterval y) (hz : UnitInterval z)
    (hxy : x ≤ y) (hyz : y ≤ z) :
    (Apart x y → Apart x z) ∧ (Apart y x → Apart x z) := by
  have hlow := Flt.signedUnits_mono hxy.2.2
  have hhigh := Flt.signedUnits_mono hyz.2.2
  exact ⟨Flt.lt_abs_sub_of_le hx.mag_lt hy.mag_lt hx.mag_lt hz.mag_lt (by omega),
    Flt.lt_abs_sub_of_le hy.mag_lt hx.mag_lt hx.mag_lt hz.mag_lt (by omega)⟩

/-- A boost that ends leaves the encoder at the maximum, unless the current redundancy
is apart from it or about to move away. -/
theorem calm_afterBoost_iff
    (hb : afec.InBounds n) (hmax : encoder.redundancy.Same afec.maxRedundancy)
    (hends : ¬afec.currentRedundancy.Same afec.maxRedundancy) (lossRate : F64) (now : Nat) :
    let r := adjustToLoss afec.deactivateBoost (encoder.setRedundancy afec.currentRedundancy)
      lossRate now
    Calm n r.1 r.2 ↔
      Apart afec.currentRedundancy afec.maxRedundancy ∨ afec.AdjustmentDue lossRate now := by
  have hcalm := hb.boost false
  have hunit := hb.unit hb.current
  have hmaxUnit := hb.unit hb.max_inRange
  have hencUnit := hb.unit (inRange_of_same hmax hb.max_inRange)
  simp only
  by_cases hapart : Apart afec.currentRedundancy afec.maxRedundancy
  · refine iff_of_true (Calm.adjustToLoss ⟨hcalm, rfl, ?_⟩ lossRate now) (Or.inl hapart)
    exact (setRedundancy_same_iff hunit).mpr
      (Or.inr (apart_of_same hunit hmaxUnit hencUnit hmax.symm hapart))
  · -- the encoder stays at the maximum, and only an adjustment can move it
    have hstays : (encoder.setRedundancy afec.currentRedundancy).redundancy =
        encoder.redundancy :=
      FrameFecEncoder.setRedundancy_of_not_apart hunit
        fun h => hapart (apart_of_same hunit hencUnit hmaxUnit hmax h)
    have hsame : (encoder.setRedundancy afec.currentRedundancy).redundancy.Same
        afec.maxRedundancy := hstays ▸ hmax
    by_cases hdue : afec.AdjustmentDue lossRate now
    · refine iff_of_true ?_ (Or.inr hdue)
      obtain ⟨hbounds, hboost⟩ := hcalm.adjust lossRate now
      obtain ⟨new, heq, hnew, hlow, hhigh⟩ :=
        @AdaptiveFecController.adjust_of_due { afec with boostActive := false } _ _ hdue
      refine ⟨hbounds, hboost, ?_⟩
      unfold adjustToLoss AdaptiveFecController.deactivateBoost
      rw [heq] at hbounds hboost ⊢
      simp only [if_true]
      rw [AdaptiveFecController.effectiveRedundancy_calm hboost]
      have hnewUnit := hbounds.unit hbounds.current
      refine (setRedundancy_same_iff hnewUnit).mpr (Or.inr ?_)
      refine apart_of_same hnewUnit hmaxUnit (hstays ▸ hencUnit) hsame.symm ?_
      by_cases hdown : new ≤ afec.currentRedundancy
      · exact (apart_of_between hnewUnit hunit hmaxUnit hdown hb.le_max).1 hnew
      · have hup := Flt.le_of_lt (Flt.lt_of_not_le hunit.1.2.1 hnewUnit.1.2.1 hdown)
        exact absurd ((apart_of_between hunit hnewUnit hmaxUnit hup hhigh).2 hnew) hapart
    · have hno : ¬(Apart afec.currentRedundancy afec.maxRedundancy ∨
          afec.AdjustmentDue lossRate now) := not_or.mpr ⟨hapart, hdue⟩
      refine iff_of_false (fun h => hends ?_) hno
      unfold adjustToLoss AdaptiveFecController.deactivateBoost at h
      rw [@AdaptiveFecController.adjust_of_not_due
        { afec with boostActive := false } _ _ hdue] at h
      exact h.follows.symm.trans hsame

section Respond

variable {adaptive : AdaptiveState} {now : Nat}

/-- The encoder follows a controller that begins or goes on with a boost. -/
def Starts (afec : AdaptiveFecController) (encoder : FrameFecEncoder crate) : Prop :=
  encoder.redundancy.Same afec.maxRedundancy ∨
    Apart afec.maxRedundancy encoder.redundancy

/-- The controller notices the end of its boost, and the encoder follows. -/
def Ends (afec : AdaptiveFecController) (lossRate : F64) (now : Nat) : Prop :=
  afec.boostActive = true →
    ¬afec.currentRedundancy.Same afec.maxRedundancy ∧
      (Apart afec.currentRedundancy afec.maxRedundancy ∨ afec.AdjustmentDue lossRate now)

instance : Decidable (Starts afec encoder) :=
  inferInstanceAs (Decidable (_ ∨ _))

instance (lossRate : F64) (now : Nat) : Decidable (Ends afec lossRate now) :=
  inferInstanceAs (Decidable (_ → _))

theorem respond_bounds
    (hb : afec.InBounds n) :
    (respond adaptive afec encoder now).1.InBounds n := by
  unfold respond
  simp only
  split_ifs
  · exact hb.boost true
  · exact (hb.adjust _ _).1
  · exact ((hb.boost false).adjust _ _).1
  · exact (hb.adjust _ _).1

/-- What the encoder keeps under every setting, it keeps in a tick. -/
theorem respond_encoder
    {P : FrameFecEncoder crate → Prop} (hset : ∀ enc r, P enc → P (enc.setRedundancy r))
    (h : P encoder) :
    P (respond adaptive afec encoder now).2 := by
  have hadjust : ∀ (afec : AdaptiveFecController) enc lossRate now, P enc →
      P (adjustToLoss afec enc lossRate now).2 := by
    intro afec enc lossRate now henc
    unfold adjustToLoss
    simp only
    split_ifs
    · exact hset _ _ henc
    · exact henc
  unfold respond
  simp only
  split_ifs
  · exact hset _ _ h
  · exact hadjust _ _ _ _ h
  · exact hadjust _ _ _ _ (hset _ _ h)
  · exact hadjust _ _ _ _ h

theorem respond_burst
    (hgcc : adaptive.gccEnabled = true) (hburst : adaptive.burstDetector.pattern = .burst) :
    respond adaptive afec encoder now =
      (afec.activateBoost,
        encoder.setRedundancy afec.activateBoost.effectiveRedundancy) := by
  unfold respond BurstDetector.recommendFecBoost
  simp [hgcc, hburst]

/-- Without a boost, a tick only adjusts to the loss. -/
theorem respond_calm
    (hburst : adaptive.gccEnabled = false ∨ adaptive.burstDetector.pattern ≠ .burst)
    (hsame : afec.effectiveRedundancy.Same afec.currentRedundancy) :
    respond adaptive afec encoder now =
      adjustToLoss afec encoder adaptive.bwEstimator.lossRateEwma now := by
  unfold respond BurstDetector.recommendFecBoost
  rcases hburst with hgcc | hpattern
  · simp [hgcc]
  · simp [hpattern, hsame]

theorem respond_ends
    (hgcc : adaptive.gccEnabled = true) (hpattern : adaptive.burstDetector.pattern ≠ .burst)
    (hends : ¬afec.effectiveRedundancy.Same afec.currentRedundancy) :
    respond adaptive afec encoder now =
      adjustToLoss afec.deactivateBoost (encoder.setRedundancy afec.currentRedundancy)
        adaptive.bwEstimator.lossRateEwma now := by
  unfold respond BurstDetector.recommendFecBoost
  simp only [hgcc, hpattern, hends, if_true, not_false_eq_true, decide_false,
    Bool.false_eq_true, if_false]
  rfl

/-- After a tick that took in a heartbeat, the encoder is in step exactly if it could
follow. -/
theorem respond_inStep_iff
    (hb : afec.InBounds n) (hfollows : encoder.redundancy.Same afec.effectiveRedundancy)
    (hloss : adaptive.gccEnabled = false →
      adaptive.burstDetector.pattern ≠ .burst ∧ afec.boostActive = false) :
    InStep n adaptive.burstDetector.pattern (respond adaptive afec encoder now).1
        (respond adaptive afec encoder now).2 ↔
      (adaptive.gccEnabled = true →
        (adaptive.burstDetector.pattern = .burst → Starts afec encoder) ∧
        (adaptive.burstDetector.pattern ≠ .burst →
          Ends afec adaptive.bwEstimator.lossRateEwma now)) := by
  by_cases hpattern : adaptive.burstDetector.pattern = .burst
  · have hgcc : adaptive.gccEnabled = true := by
      by_contra hgcc
      exact (hloss (Bool.eq_false_iff.mpr hgcc)).1 hpattern
    have hactive : afec.activateBoost.InBounds n := hb.boost true
    simp only [hgcc, hpattern, ne_eq, not_true_eq_false, forall_true_left, IsEmpty.forall_iff,
      and_true]
    rw [respond_burst hgcc hpattern, inStep_burst_iff hactive rfl, hactive.boosted rfl]
    exact setRedundancy_same_iff (hb.unit hb.max_inRange)
  · simp only [hpattern, ne_eq, not_false_eq_true, forall_true_left, IsEmpty.forall_iff,
      true_and]
    rw [inStep_iff_calm (respond_bounds hb) hpattern]
    cases hboost : afec.boostActive with
    | false =>
        have heff := AdaptiveFecController.effectiveRedundancy_calm hboost
        have hsame : afec.effectiveRedundancy.Same afec.currentRedundancy := by
          rw [heff]
          exact Flt.Same.refl hb.current.1.2.1
        rw [respond_calm (Or.inr hpattern) hsame]
        refine iff_of_true (Calm.adjustToLoss ⟨hb, hboost, heff ▸ hfollows⟩ _ _) fun _ => ?_
        exact fun hactive => absurd (hboost.symm.trans hactive) Bool.false_ne_true
    | true =>
        have hgcc : adaptive.gccEnabled = true := by
          by_contra hgcc
          exact Bool.false_ne_true
            ((hloss (Bool.eq_false_iff.mpr hgcc)).2.symm.trans hboost)
        have heff := hb.boosted hboost
        simp only [hgcc, Ends, hboost, forall_true_left]
        by_cases hends : afec.currentRedundancy.Same afec.maxRedundancy
        · -- the boost cannot be told from none, and stays
          rw [respond_calm (Or.inr hpattern) (heff ▸ hends.symm)]
          refine iff_of_false (fun h => ?_) fun h => h.1 hends
          have hstays := (hb.adjust adaptive.bwEstimator.lossRateEwma now).2
          exact Bool.false_ne_true (h.boost.symm.trans (hstays.trans hboost))
        · rw [respond_ends hgcc hpattern fun h => hends (heff ▸ h).symm]
          refine (calm_afterBoost_iff hb (heff ▸ hfollows) hends _ _).trans ?_
          simp [hends]

end Respond

end InStep

/-! ### The loop -/

namespace AdaptiveState

theorem takeIn_burst
    (s : AdaptiveState) (stats : HmdStats) (now : Nat) :
    (s.takeIn stats now).gccEnabled = s.gccEnabled ∧
      (s.takeIn stats now).burstDetector =
        if s.gccEnabled then s.burstDetector.record (intervalLoss stats) now
        else s.burstDetector := by
  unfold takeIn
  cases s.gccEnabled <;> exact ⟨rfl, rfl⟩

/-- The smoothed loss after a heartbeat's figures. -/
def lossAfter (s : AdaptiveState) (stats : HmdStats) : F64 :=
  (s.bwEstimator.update stats.packetsReceived stats.packetsLost (f64 0 1)).lossRateEwma

theorem tick_of_stats
    {s : AdaptiveState} {stats : HmdStats} (h : s.pendingStats = some stats) (now : Nat) :
    (s.tick now).2.gccEnabled = s.gccEnabled ∧
      (s.tick now).2.burstDetector = (s.takeIn stats now).burstDetector ∧
      (s.tick now).2.bwEstimator.lossRateEwma = s.lossAfter stats := by
  unfold tick lossAfter
  rw [h]
  refine ⟨(s.takeIn_burst stats now).1, rfl, ?_⟩
  simp only [takeIn]
  cases s.gccEnabled <;> rfl

theorem onEvent_burst
    (s : AdaptiveState) (event : ControlEvent) (now : Nat) :
    (s.onEvent event now).2.gccEnabled = s.gccEnabled ∧
      (s.onEvent event now).2.burstDetector = s.burstDetector := by
  cases event with
  | heartbeat stats => exact ⟨rfl, rfl⟩
  | transportFeedback entries =>
      simp only [onEvent]
      split_ifs <;> exact ⟨rfl, rfl⟩
  | bitrateSetting mbps =>
      have hevent : ∃ told bitrateCtrl, s.onEvent (.bitrateSetting mbps) now =
          (told, { s with bitrateCtrl }) := ⟨_, _, rfl⟩
      obtain ⟨told, bitrateCtrl, heq⟩ := hevent
      rw [heq]
      exact ⟨rfl, rfl⟩

end AdaptiveState

/-- An input that takes no figures in leaves the burst detector alone. -/
theorem FrameLoop.handle_burst
    (s : AdaptiveState) (now : Nat) (input : LoopInput)
    (h : input = .tick → s.pendingStats = none) :
    (FrameLoop.handle s now input).2.gccEnabled = s.gccEnabled ∧
      (FrameLoop.handle s now input).2.burstDetector = s.burstDetector := by
  cases input with
  | event event =>
      rw [FrameLoop.handle_event]
      exact s.onEvent_burst event now
  | tick =>
      simp [FrameLoop.handle, AdaptiveState.tick, h rfl]
  | thermal multiplier =>
      cases multiplier with
      | none => exact ⟨rfl, rfl⟩
      | some multiplier => exact ⟨rfl, rfl⟩
  | checkSleep tracking =>
      cases tracking with
      | none => exact ⟨rfl, rfl⟩
      | some data =>
          simp only [FrameLoop.handle, AdaptiveState.checkSleepMode]
          rcases s.sleepDetector.update data with ⟨_ | _ | _, _⟩ <;> exact ⟨rfl, rfl⟩

namespace FecLoop

section Runs

variable {crate : RsCrate}

/-- The encoder is in step with the controller and the burst pattern. -/
def InStep (n : NetworkConfig) (s : FecLoop crate) : Prop :=
  Engine.InStep n s.loop.adaptive.burstDetector.pattern s.afec s.encoder

/-- A step that takes a heartbeat in leaves the encoder in step. -/
def LeavesInStep (n : NetworkConfig) (s : FecLoop crate) (call : LoopStep) : Prop :=
  s.consumes call.input = true → (s.step call).2.InStep n

/-- The encoder can follow a tick that finds these figures: its redundancy is a number,
and the controller's moves away from what it was, or stays where the encoder is. -/
structure CanFollow (s : FecLoop crate) (stats : HmdStats) (now : Nat) : Prop where
  number : s.encoder.redundancy.isNaN = false
  starts : s.loop.adaptive.gccEnabled = true →
    s.loop.adaptive.burstDetector.Bursts (AdaptiveState.intervalLoss stats) now →
    Starts s.afec s.encoder
  ends : s.loop.adaptive.gccEnabled = true →
    ¬s.loop.adaptive.burstDetector.Bursts (AdaptiveState.intervalLoss stats) now →
    Ends s.afec (s.loop.adaptive.lossAfter stats) now

instance (s : FecLoop crate) (stats : HmdStats) (now : Nat) :
    Decidable (s.CanFollow stats now) :=
  decidable_of_iff (_ ∧ _ ∧ _)
    ⟨fun h => ⟨h.1, h.2.1, h.2.2⟩, fun h => ⟨h.number, h.starts, h.ends⟩⟩

/-- No step meets a heartbeat that the encoder cannot follow. -/
def Follows (s : FecLoop crate) (call : LoopStep) : Prop :=
  call.input = .tick → ∀ stats ∈ s.loop.adaptive.pendingStats,
    s.CanFollow stats (s.loop.now + call.elapsed)

structure Ok (n : NetworkConfig) (s : FecLoop crate) : Prop where
  detector : s.loop.adaptive.burstDetector.Ok
  lossOnly : s.loop.adaptive.gccEnabled = false →
    s.loop.adaptive.burstDetector.pattern ≠ .burst
  encoder : s.encoder.redundancy.isNaN = true ∨ (s.afec.InBounds n ∧ s.InStep n)

variable {n : NetworkConfig} {s : FecLoop crate} {call : LoopStep}

theorem consumes_iff
    {input : LoopInput} :
    s.consumes input = true ↔
      input = .tick ∧ ∃ stats, s.loop.adaptive.pendingStats = some stats := by
  cases input <;> simp [consumes, Option.isSome_iff_exists]

theorem step_of_not_consumes
    (h : ¬s.consumes call.input = true) :
    (s.step call).2 = { s with loop := (s.loop.step call).2 } := by
  unfold FecLoop.step
  simp only
  rw [if_neg h]

theorem step_of_consumes
    (h : s.consumes call.input = true) :
    (s.step call).2 =
      { loop := (s.loop.step call).2
        afec := (respond (s.loop.step call).2.adaptive s.afec s.encoder
          (s.loop.now + call.elapsed)).1
        encoder := (respond (s.loop.step call).2.adaptive s.afec s.encoder
          (s.loop.now + call.elapsed)).2 } := by
  unfold FecLoop.step
  simp only
  rw [if_pos h]
  rfl

/-- What a step does to the burst detector. -/
theorem step_burst
    (s : FecLoop crate) (call : LoopStep) :
    (s.loop.step call).2.adaptive.gccEnabled = s.loop.adaptive.gccEnabled ∧
      ((¬s.consumes call.input = true ∧
          (s.loop.step call).2.adaptive.burstDetector = s.loop.adaptive.burstDetector) ∨
        ∃ stats, call.input = .tick ∧ s.loop.adaptive.pendingStats = some stats ∧
          (s.loop.step call).2.adaptive.burstDetector =
            (s.loop.adaptive.takeIn stats (s.loop.now + call.elapsed)).burstDetector ∧
          (s.loop.step call).2.adaptive.bwEstimator.lossRateEwma =
            s.loop.adaptive.lossAfter stats) := by
  unfold FrameLoop.step
  simp only
  by_cases h : s.consumes call.input = true
  · obtain ⟨htick, stats, hstats⟩ := consumes_iff.mp h
    rw [htick]
    obtain ⟨hgcc, hburst, hloss⟩ :=
      AdaptiveState.tick_of_stats hstats (s.loop.now + call.elapsed)
    exact ⟨hgcc, Or.inr ⟨stats, rfl, hstats, hburst, hloss⟩⟩
  · have hnone : call.input = .tick → s.loop.adaptive.pendingStats = none := by
      intro htick
      by_contra hsome
      exact h (consumes_iff.mpr ⟨htick, Option.ne_none_iff_exists'.mp hsome⟩)
    obtain ⟨hgcc, hburst⟩ :=
      FrameLoop.handle_burst s.loop.adaptive (s.loop.now + call.elapsed) call.input hnone
    exact ⟨hgcc, Or.inl ⟨h, hburst⟩⟩

/-- The pattern after a tick, told from the state before it. -/
theorem Ok.takeIn_burst_iff
    (h : s.Ok n) (stats : HmdStats) (now : Nat) :
    (s.loop.adaptive.takeIn stats now).burstDetector.Ok ∧
      (s.loop.adaptive.gccEnabled = false →
        (s.loop.adaptive.takeIn stats now).burstDetector.pattern ≠ .burst) ∧
      (s.loop.adaptive.gccEnabled = true →
        ((s.loop.adaptive.takeIn stats now).burstDetector.pattern = .burst ↔
          s.loop.adaptive.burstDetector.Bursts (AdaptiveState.intervalLoss stats) now)) := by
  rw [(s.loop.adaptive.takeIn_burst stats now).2]
  cases hgcc : s.loop.adaptive.gccEnabled with
  | true =>
      exact ⟨BurstDetector.record_ok h.detector _ _, fun hno => absurd hno (by decide),
        fun _ => BurstDetector.record_burst_iff h.detector _ _⟩
  | false =>
      exact ⟨h.detector, fun _ => h.lossOnly hgcc, fun hno => absurd hno (by decide)⟩

theorem not_follows_of_nan
    (hnan : s.encoder.redundancy.isNaN = true) (hconsumes : s.consumes call.input = true) :
    ¬s.Follows call := by
  obtain ⟨htick, stats, hstats⟩ := consumes_iff.mp hconsumes
  intro hfollows
  have hnumber := (hfollows htick stats hstats).number
  exact Bool.false_ne_true (hnumber.symm.trans hnan)

theorem follows_of_not_consumes
    (h : ¬s.consumes call.input = true) :
    s.Follows call :=
  fun htick stats hstats => absurd (consumes_iff.mpr ⟨htick, stats, hstats⟩) h

/-- The law holds of a step exactly if the encoder can follow. -/
theorem leavesInStep_iff
    (h : s.Ok n) :
    s.LeavesInStep n call ↔ s.Follows call := by
  obtain ⟨hgcc, ⟨hno, -⟩ | ⟨stats, htick, hstats, hburst, hloss⟩⟩ := step_burst s call
  · exact iff_of_true (fun hyes => absurd hyes hno) (follows_of_not_consumes hno)
  · have hconsumes : s.consumes call.input = true := consumes_iff.mpr ⟨htick, stats, hstats⟩
    unfold LeavesInStep InStep
    rw [step_of_consumes hconsumes]
    simp only [hconsumes, forall_true_left]
    rcases h.encoder with hnan | ⟨hbounds, hstep⟩
    · refine iff_of_false (fun hin => ?_) (not_follows_of_nan hnan hconsumes)
      have hstays := @respond_encoder crate s.afec s.encoder (s.loop.step call).2.adaptive
        (s.loop.now + call.elapsed) (fun enc => enc.redundancy.isNaN = true)
        (fun _ r henc => FrameFecEncoder.setRedundancy_isNaN henc r) hnan
      exact Bool.false_ne_true (hin.follows.1.symm.trans hstays)
    · obtain ⟨-, hquiet, hbursts⟩ :=
        h.takeIn_burst_iff stats (s.loop.now + call.elapsed)
      have hcalm : (s.loop.step call).2.adaptive.gccEnabled = false →
          (s.loop.step call).2.adaptive.burstDetector.pattern ≠ .burst ∧
            s.afec.boostActive = false := by
        rw [hgcc, hburst]
        exact fun hoff => ⟨hquiet hoff, (hstep.calm (h.lossOnly hoff)).2⟩
      rw [respond_inStep_iff hbounds hstep.follows hcalm, hgcc, hburst, hloss]
      constructor
      · intro hcan _ stats' hstats'
        obtain rfl := Option.some.inj (hstats'.symm.trans hstats)
        exact
          { number := hstep.follows.1
            starts := fun hon hyes => (hcan hon).1 ((hbursts hon).mpr hyes)
            ends := fun hon hnot => (hcan hon).2 fun hyes => hnot ((hbursts hon).mp hyes) }
      · intro hfollows hon
        have hcan := hfollows htick stats hstats
        exact ⟨fun hyes => hcan.starts hon ((hbursts hon).mp hyes),
          fun hnot => hcan.ends hon fun hyes => hnot ((hbursts hon).mpr hyes)⟩

theorem step_ok
    (h : s.Ok n) (hfollows : s.Follows call) :
    (s.step call).2.Ok n := by
  obtain ⟨hgcc, ⟨hno, hburst⟩ | ⟨stats, htick, hstats, hburst, -⟩⟩ := step_burst s call
  · rw [step_of_not_consumes hno]
    refine ⟨?_, ?_, ?_⟩
    · simp only [hburst]
      exact h.detector
    · simp only [hgcc, hburst]
      exact h.lossOnly
    · unfold InStep
      simp only [hburst]
      exact h.encoder
  · have hconsumes : s.consumes call.input = true := consumes_iff.mpr ⟨htick, stats, hstats⟩
    have hin := (leavesInStep_iff h).mpr hfollows hconsumes
    obtain ⟨hdet, hquiet, -⟩ := h.takeIn_burst_iff stats (s.loop.now + call.elapsed)
    rw [step_of_consumes hconsumes] at hin ⊢
    refine ⟨?_, ?_, Or.inr ⟨?_, hin⟩⟩
    · simp only [hburst]
      exact hdet
    · simp only [hgcc, hburst]
      exact hquiet
    · rcases h.encoder with hnan | ⟨hbounds, -⟩
      · exact absurd hfollows (not_follows_of_nan hnan hconsumes)
      · exact respond_bounds hbounds

theorem new_spec
    (hzero : f32 0 1 ≤ n.fecRedundancyMin) (hle : n.fecRedundancyMin ≤ n.fecRedundancyMax)
    (hone : n.fecRedundancyMax ≤ f32 1 1) (now : Nat) :
    ∃ afec, AdaptiveFecController.new n.fecRedundancyMin n.fecRedundancyMax n.fecRedundancy
        now = some afec ∧
      (InRange n.fecRedundancyMin n.fecRedundancyMax n.fecRedundancy →
        afec.InBounds n ∧ afec.boostActive = false ∧
          afec.currentRedundancy = n.fecRedundancy) := by
  have hmin : clampUnit n.fecRedundancyMin = n.fecRedundancyMin :=
    clampUnit_of_unit ⟨hzero, Flt.le_trans hle hone⟩
  have hmax : Flt.clamp n.fecRedundancyMax n.fecRedundancyMin (f32 1 1) =
      some n.fecRedundancyMax := by
    rw [Flt.clamp_eq (Flt.le_trans hle hone), Flt.clampTo_of_mem hle hone]
  unfold AdaptiveFecController.new
  simp only [hmin, hmax]
  rw [dif_pos hle]
  refine ⟨_, rfl, fun hrange => ?_⟩
  have hcurrent := Flt.clampTo_of_mem hrange.1 hrange.2
  refine ⟨⟨rfl, rfl, hzero, hone, ?_⟩, rfl, hcurrent⟩
  simp only [hcurrent]
  exact hrange

/-- A session of a validated config starts in good order. -/
theorem start_ok
    {raw config : AppConfig} {errors : List ConfigError}
    (hvalid : validate raw = some (errors, config)) (sleepEnabled sliceFecEnabled : Bool)
    (now : Nat) :
    ∃ s : FecLoop crate, start config sleepEnabled sliceFecEnabled now = some s ∧
      s.Ok config.network := by
  obtain ⟨hzero, hle, hone, hrange⟩ := validate_fecBounds hvalid
  obtain ⟨afec, hnew, hspec⟩ := new_spec hzero hle hone now
  unfold start
  rw [hnew]
  have hpattern : LossPattern.none ≠ .burst := by decide
  refine ⟨_, rfl, fun _ => rfl, fun _ => hpattern, ?_⟩
  cases hnan : config.network.fecRedundancy.isNaN with
  | true =>
      left
      have hkept : clampUnit config.network.fecRedundancy = config.network.fecRedundancy := by
        simp [clampUnit, Flt.lt_def, hnan]
      exact (congrArg Flt.isNaN hkept).trans hnan
  | false =>
      right
      obtain ⟨hbounds, hboost, hcurrent⟩ := hspec (hrange hnan)
      refine ⟨hbounds, (inStep_iff_calm hbounds hpattern).mpr ⟨hbounds, hboost, ?_⟩⟩
      have hkept := clampUnit_of_unit (hbounds.unit (hrange hnan))
      rw [hcurrent]
      exact (congrArg (Flt.Same · _) hkept).mpr (Flt.Same.refl hnan)

/-- **The boost and the encoder.**  In a session of a validated config every tick that
takes a heartbeat in leaves the encoder in step exactly if the encoder can follow all
of them. -/
theorem inStep_iff
    {raw config : AppConfig} {errors : List ConfigError}
    (hvalid : validate raw = some (errors, config)) (sleepEnabled sliceFecEnabled : Bool)
    (now : Nat) :
    ∃ s : FecLoop crate, start config sleepEnabled sliceFecEnabled now = some s ∧
      ∀ calls, Run.Along step (LeavesInStep config.network) s calls ↔
        Run.Along step Follows s calls := by
  obtain ⟨s, hstart, hok⟩ := @start_ok crate _ _ _ hvalid sleepEnabled sliceFecEnabled now
  have hstep : ∀ (t : FecLoop crate) call, t.Ok config.network → t.Follows call →
      (t.step call).2.Ok config.network := fun t call => step_ok
  exact ⟨s, hstart, Run.along_congr_of step hstep (fun t call => leavesInStep_iff) hok⟩

end Runs

/-- A heartbeat that reports a loss of 5 %. -/
def lossyHeartbeat : LoopStep :=
  ⟨0, .event (.heartbeat ⟨95, 5⟩)⟩

def cleanHeartbeat : LoopStep :=
  ⟨0, .event (.heartbeat ⟨100, 0⟩)⟩

def nextTick : LoopStep :=
  ⟨1000000000, .tick⟩

/-- A burst that is over at the second tick. -/
def burst : List LoopStep :=
  [lossyHeartbeat, nextTick, cleanHeartbeat, nextTick]

/-- With the shipped settings the encoder goes up to the maximum and back. -/
theorem burst_followed :
    (start {} false false 0 : Option (FecLoop galois8)).map (fun s =>
      let t := Run.final step s [lossyHeartbeat]
      let u := Run.final step s [lossyHeartbeat, nextTick, cleanHeartbeat]
      decide
        ((∀ stats ∈ t.loop.adaptive.pendingStats,
            t.CanFollow stats (t.loop.now + 1000000000)) ∧
          ∀ stats ∈ u.loop.adaptive.pendingStats,
            u.CanFollow stats (u.loop.now + 1000000000))) =
      some true := by
  decide +kernel

theorem inStep_burst :
    ∃ s : FecLoop galois8, start {} false false 0 = some s ∧
      Run.Along step (LeavesInStep ({} : AppConfig).network) s burst := by
  obtain ⟨s, hstart, hiff⟩ := @inStep_iff galois8 {} {} []
    (validate_of_safe default_safe ⟨rfl, rfl, rfl, rfl⟩) false false 0
  have hfollowed := burst_followed
  rw [hstart, Option.map_some, Option.some.injEq, decide_eq_true_iff] at hfollowed
  refine ⟨s, hstart, (hiff burst).mpr ⟨?_, ?_, ?_, ?_, trivial⟩⟩
  · exact fun htick => LoopInput.noConfusion htick
  · exact fun _ => hfollowed.1
  · exact fun htick => LoopInput.noConfusion htick
  · exact fun _ => hfollowed.2

/-- A redundancy that starts at its maximum of 0.40. -/
def fullRedundancy : AppConfig :=
  { network := { fecRedundancy := f32 40 100 } }

theorem fullRedundancy_safe :
    Safe fullRedundancy :=
  have h := default_safe
  { h with
    ports := ⟨h.ports.tcp, h.ports.udp, h.ports.room, h.ports.distinct⟩
    fec := ⟨h.fec.zero_le, f32_le (by simp), f32_le (by simp), h.fec.max_le⟩
    modes := ⟨h.modes.mode, h.modes.slices⟩ }

/-- The boost is not noticed to be over, and holds the encoder at 0.40 when the
controller goes down to 0.35. -/
theorem burst_stuck :
    (start fullRedundancy false false 0 : Option (FecLoop galois8)).map (fun s =>
      let t := Run.final step s [lossyHeartbeat, nextTick, cleanHeartbeat]
      let u := (t.step nextTick).2
      (t.consumes nextTick.input, decide (u.loop.adaptive.burstDetector.pattern = .burst),
        decide (u.encoder.redundancy.Same u.afec.currentRedundancy))) =
      some (true, false, false) := by
  decide +kernel

theorem burst_not_inStep :
    validate fullRedundancy = some ([], fullRedundancy) ∧
      ∃ s : FecLoop galois8, start fullRedundancy false false 0 = some s ∧
        ¬Run.Along step (LeavesInStep fullRedundancy.network) s burst := by
  have hvalid : validate fullRedundancy = some ([], fullRedundancy) :=
    validate_of_safe fullRedundancy_safe ⟨rfl, rfl, rfl, rfl⟩
  obtain ⟨s, hstart, -⟩ := @start_ok galois8 _ _ _ hvalid false false 0
  refine ⟨hvalid, s, hstart, ?_⟩
  rintro ⟨-, -, -, hlast, -⟩
  have hstuck := burst_stuck
  simp only [hstart, Option.map_some, Option.some.injEq, Prod.mk.injEq,
    decide_eq_false_iff_not] at hstuck
  obtain ⟨hconsumes, hpattern, hdiffer⟩ := hstuck
  exact hdiffer ((hlast hconsumes).calm hpattern).1

end FecLoop

end Engine
end FocusVision
