import FocusVision.Engine.BitrateBounds
import FocusVision.Lib.Run

/-!
# Runs of the bitrate controller

Over any run of its operations a `BitrateController` stays between the floor and the
lower of the setting and the thermal ceiling, `adjust` reports every change, and it
raises the bitrate only on a good link.  The hysteresis is counted from
`last_adjustment`, and a thermal ceiling that lowers the bitrate is the one change of
it that leaves `last_adjustment` alone: an increase can follow such a change at once.
-/

namespace FocusVision
namespace Engine
namespace BitrateController

/-- A controller in good order: its limits, and a bitrate within them. -/
structure Ok (ctrl : BitrateController) : Prop where
  floor : ctrl.minBitrateBps = 10000000
  target : ctrl.targetLossRate = f64 2 100
  hysteresis : ctrl.hysteresisDuration = 10000000000
  setting : 10000000 ≤ ctrl.maxBitrateBps ∧ ctrl.maxBitrateBps ≤ 200000000
  low : 10000000 ≤ ctrl.currentBitrateBps
  high : ctrl.currentBitrateBps ≤
    max 10000000 (effectiveMax ctrl.maxBitrateBps ctrl.thermalCeilingBps)

theorem effectiveMax_le
    (hardMax : Nat) (thermal : Option Nat) :
    effectiveMax hardMax thermal ≤ hardMax := by
  cases thermal with
  | none => exact Nat.le_refl _
  | some t => exact Nat.min_le_left _ _

theorem settingBps_bounds
    (mbps : Nat) :
    10000000 ≤ settingBps mbps ∧ settingBps mbps ≤ 200000000 := by
  unfold settingBps MIN_BITRATE_MBPS MAX_BITRATE_MBPS
  omega

theorem Ok.le_max
    {ctrl : BitrateController} (h : ctrl.Ok) :
    ctrl.currentBitrateBps ≤ ctrl.maxBitrateBps := by
  have htop := effectiveMax_le ctrl.maxBitrateBps ctrl.thermalCeilingBps
  have hhigh := h.high
  have hsetting := h.setting
  omega

theorem ok_new
    (bitrateMbps now : Nat) :
    (new bitrateMbps now).Ok := by
  have hbounds := settingBps_bounds bitrateMbps
  exact
    { floor := rfl
      target := rfl
      hysteresis := rfl
      setting := hbounds
      low := hbounds.1
      high := Nat.le_max_right _ _ }

/-- The new setting is the bitrate at once, as far as the ceiling allows. -/
theorem Ok.setSettingMbps_eq
    {ctrl : BitrateController} (h : ctrl.Ok) (bitrateMbps now : Nat) :
    ctrl.setSettingMbps bitrateMbps now =
      { ctrl with
        maxBitrateBps := settingBps bitrateMbps
        currentBitrateBps :=
          max 10000000 (effectiveMax (settingBps bitrateMbps) ctrl.thermalCeilingBps)
        lastAdjustment := now } := by
  have htop := effectiveMax_le (settingBps bitrateMbps) ctrl.thermalCeilingBps
  have hcurrent : max 10000000 (effectiveMax (settingBps bitrateMbps) ctrl.thermalCeilingBps) =
      max (min (settingBps bitrateMbps)
        (effectiveMax (settingBps bitrateMbps) ctrl.thermalCeilingBps)) ctrl.minBitrateBps := by
    rw [h.floor, Nat.min_eq_right htop, Nat.max_comm]
  rw [hcurrent]
  rfl

theorem Ok.setSettingMbps
    {ctrl : BitrateController} (h : ctrl.Ok) (bitrateMbps now : Nat) :
    (ctrl.setSettingMbps bitrateMbps now).Ok := by
  have hbounds := settingBps_bounds bitrateMbps
  rw [h.setSettingMbps_eq]
  -- unfolding the setting, a product with a large literal, would be slow
  generalize settingBps bitrateMbps = setting at hbounds ⊢
  exact
    { floor := h.floor
      target := h.target
      hysteresis := h.hysteresis
      setting := hbounds
      low := Nat.le_max_left _ _
      high := Nat.le_refl _ }

/-- The ceiling clamps the bitrate at once. -/
theorem setThermalCeilingBps_eq
    (ctrl : BitrateController) (ceilingBps : Nat) :
    ctrl.setThermalCeilingBps ceilingBps =
      { ctrl with
        thermalCeilingBps := some ceilingBps
        currentBitrateBps :=
          max (min ctrl.currentBitrateBps (effectiveMax ctrl.maxBitrateBps (some ceilingBps)))
            ctrl.minBitrateBps } := by
  unfold BitrateController.setThermalCeilingBps clampToBounds
  simp only
  split_ifs with hsame
  · rfl
  · rw [ne_eq, not_not] at hsame
    rw [hsame]

theorem Ok.setThermalCeilingBps
    {ctrl : BitrateController} (h : ctrl.Ok) (ceilingBps : Nat) :
    (ctrl.setThermalCeilingBps ceilingBps).Ok := by
  have hfloor := h.floor
  have hlow := h.low
  rw [setThermalCeilingBps_eq]
  exact
    { floor := hfloor
      target := h.target
      hysteresis := h.hysteresis
      setting := h.setting
      low := by simp only; omega
      high := by simp only; omega }

theorem Ok.clearThermalCeiling
    {ctrl : BitrateController} (h : ctrl.Ok) :
    ctrl.clearThermalCeiling.Ok := by
  have hmax := h.le_max
  exact
    { floor := h.floor
      target := h.target
      hysteresis := h.hysteresis
      setting := h.setting
      low := h.low
      high := Nat.le_trans hmax (Nat.le_max_right _ _) }

section Adjust

variable {ctrl : BitrateController} (estimator : BandwidthEstimator) (gcc : GccEstimator)
variable (burst : BurstDetector) (now : Nat)

theorem Ok.inBounds
    (h : ctrl.Ok) :
    (ctrl.inputs estimator gcc burst now).InBounds :=
  { target := h.target
    floor := h.floor
    low := h.low
    high := h.high
    small := Nat.le_trans h.le_max h.setting.2 }

/-- The bitrate after `adjust`, and what else changes. -/
theorem adjust_fields
    (ctrl : BitrateController) :
    let r := ctrl.adjust estimator gcc burst now
    r.2.currentBitrateBps =
        (if estimator.hasData then
          (arbitrate (ctrl.inputs estimator gcc burst now)).targetBps
        else ctrl.currentBitrateBps) ∧
      (r.1 = true ↔ r.2.currentBitrateBps ≠ ctrl.currentBitrateBps) ∧
      r.2.minBitrateBps = ctrl.minBitrateBps ∧ r.2.maxBitrateBps = ctrl.maxBitrateBps ∧
      r.2.thermalCeilingBps = ctrl.thermalCeilingBps ∧
      r.2.targetLossRate = ctrl.targetLossRate ∧
      r.2.hysteresisDuration = ctrl.hysteresisDuration ∧
      r.2.lastAdjustment = if r.1 then now else ctrl.lastAdjustment := by
  unfold adjust
  cases estimator.hasData with
  | false => simp
  | true =>
      simp only [Bool.not_true, Bool.false_eq_true, if_false, if_true]
      by_cases hchange : (arbitrate (ctrl.inputs estimator gcc burst now)).targetBps ≠
          ctrl.currentBitrateBps
      · simp [hchange]
      · rw [ne_eq, not_not] at hchange
        simp [hchange]

theorem Ok.adjust
    (h : ctrl.Ok) :
    (ctrl.adjust estimator gcc burst now).2.Ok := by
  obtain ⟨hcurrent, -, hfloor, hmax, hthermal, htarget, hhysteresis, -⟩ :=
    adjust_fields estimator gcc burst now ctrl
  obtain ⟨hlow, hhigh, -, -⟩ := (h.inBounds estimator gcc burst now).target_cases
  refine
    { floor := hfloor.trans h.floor
      target := htarget.trans h.target
      hysteresis := hhysteresis.trans h.hysteresis
      setting := by rw [hmax]; exact h.setting
      low := ?_
      high := ?_ }
  · rw [hcurrent]
    split_ifs
    · exact hlow
    · exact h.low
  · rw [hcurrent, hmax, hthermal]
    split_ifs
    · exact hhigh
    · exact h.high

/-- When `adjust` raises the bitrate, and when it lowers it. -/
theorem Ok.adjust_iff
    (h : ctrl.Ok) :
    let current := (ctrl.adjust estimator gcc burst now).2.currentBitrateBps
    (ctrl.currentBitrateBps < current ↔ estimator.hasData = true ∧
      (ctrl.inputs estimator gcc burst now).Increases ∧
      ctrl.currentBitrateBps < effectiveMax ctrl.maxBitrateBps ctrl.thermalCeilingBps) ∧
    (current < ctrl.currentBitrateBps ↔ estimator.hasData = true ∧
      (ctrl.inputs estimator gcc burst now).BacksOff ∧ 10000000 < ctrl.currentBitrateBps) := by
  intro current
  have hcurrent : current = _ := (adjust_fields estimator gcc burst now ctrl).1
  obtain ⟨-, -, hraise, hlower⟩ := (h.inBounds estimator gcc burst now).target_cases
  rw [hcurrent]
  cases estimator.hasData with
  | false => simp
  | true =>
      simp only [if_true, true_and]
      exact ⟨hraise, hlower⟩

end Adjust

/-! ### Runs -/

/-- An operation of the controller's owner. -/
inductive Op where
  | setSettingMbps (bitrateMbps : Nat)
  | setThermalCeilingBps (ceilingBps : Nat)
  | clearThermalCeiling
  | adjust (estimator : BandwidthEstimator) (gcc : GccEstimator) (burst : BurstDetector)

/-- An operation at a time, and what it returns; only `adjust` returns something. -/
def apply (ctrl : BitrateController) (now : Nat) : Op → Bool × BitrateController
  | .setSettingMbps bitrateMbps => (false, ctrl.setSettingMbps bitrateMbps now)
  | .setThermalCeilingBps ceilingBps => (false, ctrl.setThermalCeilingBps ceilingBps)
  | .clearThermalCeiling => (false, ctrl.clearThermalCeiling)
  | .adjust estimator gcc burst => ctrl.adjust estimator gcc burst now

/-- The call is a thermal ceiling below the bitrate, which the floor lets lower it. -/
def CapLowers (ctrl : BitrateController) : Op → Prop
  | .setThermalCeilingBps ceilingBps =>
      max ceilingBps ctrl.minBitrateBps < ctrl.currentBitrateBps
  | _ => False

instance (ctrl : BitrateController) : ∀ op : Op, Decidable (ctrl.CapLowers op)
  | .setSettingMbps _ => inferInstanceAs (Decidable False)
  | .setThermalCeilingBps _ => inferInstanceAs (Decidable (_ < _))
  | .clearThermalCeiling => inferInstanceAs (Decidable False)
  | .adjust _ _ _ => inferInstanceAs (Decidable False)

/-- An operation resets `last_adjustment` to the time of the call, or leaves it. -/
theorem apply_lastAdjustment
    (ctrl : BitrateController) (now : Nat) (op : Op) :
    (ctrl.apply now op).2.lastAdjustment = now ∨
      (ctrl.apply now op).2.lastAdjustment = ctrl.lastAdjustment := by
  cases op with
  | setSettingMbps mbps => exact Or.inl rfl
  | setThermalCeilingBps bps =>
      refine Or.inr ?_
      simp only [apply, setThermalCeilingBps_eq]
  | clearThermalCeiling => exact Or.inr rfl
  | adjust estimator gcc burst =>
      obtain ⟨-, -, -, -, -, -, -, hadjusted⟩ := adjust_fields estimator gcc burst now ctrl
      simp only [apply, hadjusted]
      split_ifs
      · exact Or.inl rfl
      · exact Or.inr rfl

/-- A ceiling that lowers the bitrate is the one change without a reset. -/
theorem Ok.changed_without_reset
    {ctrl : BitrateController} (h : ctrl.Ok) (now : Nat) (op : Op) :
    ((ctrl.apply now op).2.currentBitrateBps ≠ ctrl.currentBitrateBps →
      ctrl.CapLowers op ∨ (ctrl.apply now op).2.lastAdjustment = now) ∧
    (ctrl.CapLowers op →
      (ctrl.apply now op).2.currentBitrateBps < ctrl.currentBitrateBps ∧
        (ctrl.apply now op).2.lastAdjustment = ctrl.lastAdjustment) := by
  cases op with
  | setSettingMbps mbps => exact ⟨fun _ => Or.inr rfl, fun hcap => absurd hcap id⟩
  | setThermalCeilingBps bps =>
      have hmax := h.le_max
      have hlow := h.low
      have hfloor := h.floor
      simp only [apply, setThermalCeilingBps_eq, CapLowers, effectiveMax]
      refine ⟨fun hchange => Or.inl ?_, fun hcap => ⟨?_, trivial⟩⟩
      · omega
      · omega
  | clearThermalCeiling => exact ⟨fun hchange => absurd rfl hchange, fun hcap => absurd hcap id⟩
  | adjust estimator gcc burst =>
      obtain ⟨-, hreports, -, -, -, -, -, hadjusted⟩ := adjust_fields estimator gcc burst now ctrl
      refine ⟨fun hchange => Or.inr ?_, fun hcap => absurd hcap id⟩
      simp only [apply] at hchange ⊢
      rw [hadjusted, if_pos (hreports.mpr hchange)]

/--
A controller with the clock.  Kept for the proofs: the time of the last change of its
bitrate, and of the last call of `set_thermal_ceiling_bps` that lowered it.
-/
structure Clocked where
  ctrl : BitrateController
  now : Nat
  lastChange : Nat
  lastCap : Option Nat

/-- An operation, some time after the one before. -/
structure Call where
  elapsed : Nat
  op : Op

namespace Clocked

def start (bitrateMbps now : Nat) : Clocked :=
  ⟨BitrateController.new bitrateMbps now, now, now, none⟩

def step (s : Clocked) (call : Call) : Bool × Clocked :=
  let now := s.now + call.elapsed
  let (answer, ctrl) := s.ctrl.apply now call.op
  (answer,
    { ctrl, now
      lastChange :=
        if ctrl.currentBitrateBps = s.ctrl.currentBitrateBps then s.lastChange else now
      lastCap := if s.ctrl.CapLowers call.op then some now else s.lastCap })

/-- The last setting of a run that began with `bitrateMbps`. -/
def lastSetting (bitrateMbps : Nat) (calls : List Call) : Nat :=
  calls.foldl (fun setting call =>
    match call.op with
    | .setSettingMbps mbps => mbps
    | _ => setting) bitrateMbps

/-- The thermal ceiling after a run. -/
def lastCeiling (ceiling : Option Nat) (calls : List Call) : Option Nat :=
  calls.foldl (fun ceiling call =>
    match call.op with
    | .setThermalCeilingBps bps => some bps
    | .clearThermalCeiling => none
    | _ => ceiling) ceiling

/-- The bitrate is within the last setting and ceiling, and above the floor. -/
def Bounded (bitrateMbps : Nat) (calls : List Call) (s : Clocked) : Prop :=
  10000000 ≤ s.ctrl.currentBitrateBps ∧
    s.ctrl.currentBitrateBps ≤ max 10000000
      (effectiveMax (settingBps (lastSetting bitrateMbps calls)) (lastCeiling none calls))

/-- `adjust` reports every change, and raises the bitrate only when it should. -/
def AdjustsWell (s : Clocked) (call : Call) : Prop :=
  match call.op with
  | .adjust estimator gcc burst =>
      ((s.step call).1 = true ↔
        (s.step call).2.ctrl.currentBitrateBps ≠ s.ctrl.currentBitrateBps) ∧
      (s.ctrl.currentBitrateBps < (s.step call).2.ctrl.currentBitrateBps →
        burst.pattern = .none ∧ gcc.delayGradientMs ≤ f64 2 1 ∧
        estimator.lossRateEwma < f64 1 100 ∧
        s.ctrl.hysteresisDuration ≤ s.now + call.elapsed - s.lastChange)
  | _ => True

/-- An `adjust` at which an increase is due. -/
def IncreaseDue (s : Clocked) (call : Call) : Prop :=
  match call.op with
  | .adjust estimator gcc burst =>
      estimator.hasData = true ∧
      (s.ctrl.inputs estimator gcc burst (s.now + call.elapsed)).Increases ∧
      s.ctrl.currentBitrateBps <
        effectiveMax s.ctrl.maxBitrateBps s.ctrl.thermalCeilingBps
  | _ => False

/-- No increase is due within the hysteresis of a thermal ceiling that lowered the
bitrate. -/
def Timely (s : Clocked) (call : Call) : Prop :=
  s.IncreaseDue call → ∀ capped, s.lastCap = some capped →
    s.ctrl.hysteresisDuration ≤ s.now + call.elapsed - capped

/-- The last change came with a reset of `last_adjustment`, or from a ceiling. -/
structure Timed (s : Clocked) : Prop where
  ok : s.ctrl.Ok
  past : s.lastChange ≤ s.now
  changed : s.lastChange ≤ s.ctrl.lastAdjustment ∨ s.lastCap = some s.lastChange
  capped : ∀ capped, s.lastCap = some capped → capped ≤ s.lastChange

theorem step_ok
    {s : Clocked} (h : s.ctrl.Ok) (call : Call) :
    (s.step call).2.ctrl.Ok := by
  obtain ⟨elapsed, op⟩ := call
  cases op with
  | setSettingMbps mbps => exact h.setSettingMbps mbps _
  | setThermalCeilingBps bps => exact h.setThermalCeilingBps bps
  | clearThermalCeiling => exact h.clearThermalCeiling
  | adjust estimator gcc burst => exact h.adjust estimator gcc burst _

theorem start_timed
    (bitrateMbps now : Nat) :
    (start bitrateMbps now).Timed :=
  { ok := ok_new bitrateMbps now
    past := Nat.le_refl _
    changed := Or.inl (Nat.le_refl _)
    capped := nofun }

theorem Timed.step
    {s : Clocked} (h : s.Timed) (call : Call) :
    (s.step call).2.Timed := by
  obtain ⟨hchanged, hcap⟩ := h.ok.changed_without_reset (s.now + call.elapsed) call.op
  have hreset := s.ctrl.apply_lastAdjustment (s.now + call.elapsed) call.op
  have hpast := h.past
  have hcapped := h.capped
  refine ⟨step_ok h.ok call, ?_, ?_, ?_⟩
  · simp only [Clocked.step]
    split_ifs <;> omega
  · simp only [Clocked.step]
    by_cases hlowers : s.ctrl.CapLowers call.op
    · rw [if_neg (Nat.ne_of_lt (hcap hlowers).1), if_pos hlowers]
      exact Or.inr rfl
    · rw [if_neg hlowers]
      by_cases hsame : (s.ctrl.apply (s.now + call.elapsed) call.op).2.currentBitrateBps =
          s.ctrl.currentBitrateBps
      · rw [if_pos hsame]
        rcases hreset with hreset | hreset
        · exact Or.inl (by omega)
        · rw [hreset]
          exact h.changed
      · rw [if_neg hsame, (hchanged hsame).resolve_left hlowers]
        exact Or.inl (Nat.le_refl _)
  · simp only [Clocked.step]
    by_cases hlowers : s.ctrl.CapLowers call.op
    · rw [if_neg (Nat.ne_of_lt (hcap hlowers).1), if_pos hlowers]
      rintro capped ⟨⟩
      exact Nat.le_refl _
    · rw [if_neg hlowers]
      intro capped hlast
      have hle := hcapped capped hlast
      split_ifs <;> omega

/-- The limits after a step are the operation's, or the ones before. -/
theorem step_limits
    (s : Clocked) (call : Call) {setting : Nat}
    (h : s.ctrl.maxBitrateBps = settingBps setting) :
    (s.step call).2.ctrl.maxBitrateBps = settingBps (lastSetting setting [call]) ∧
      (s.step call).2.ctrl.thermalCeilingBps =
        lastCeiling s.ctrl.thermalCeilingBps [call] := by
  obtain ⟨elapsed, op⟩ := call
  cases op with
  | setSettingMbps mbps => exact ⟨rfl, rfl⟩
  | setThermalCeilingBps bps =>
      simp only [step, apply, setThermalCeilingBps_eq]
      exact ⟨h, rfl⟩
  | clearThermalCeiling => exact ⟨h, rfl⟩
  | adjust estimator gcc burst =>
      obtain ⟨-, -, -, hmax, hthermal, -⟩ :=
        adjust_fields estimator gcc burst (s.now + elapsed) s.ctrl
      exact ⟨hmax.trans h, hthermal⟩

theorem run_limits
    {s : Clocked} {setting : Nat} (h : s.ctrl.maxBitrateBps = settingBps setting)
    (calls : List Call) :
    (Run.final step s calls).ctrl.maxBitrateBps = settingBps (lastSetting setting calls) ∧
      (Run.final step s calls).ctrl.thermalCeilingBps =
        lastCeiling s.ctrl.thermalCeilingBps calls := by
  induction calls generalizing s setting with
  | nil => exact ⟨h, rfl⟩
  | cons call calls ih =>
      obtain ⟨hmax, hthermal⟩ := s.step_limits call h
      obtain ⟨hrunMax, hrunThermal⟩ := ih hmax
      rw [hthermal] at hrunThermal
      exact ⟨hrunMax, hrunThermal⟩

/-- After every run the bitrate is within its bounds. -/
theorem run_bounded
    (bitrateMbps now : Nat) (calls : List Call) :
    Bounded bitrateMbps calls (Run.final step (start bitrateMbps now) calls) := by
  have hok : (Run.final step (start bitrateMbps now) calls).ctrl.Ok :=
    @Run.final_invariant _ _ _ step (fun s => s.ctrl.Ok) (fun s call h => step_ok h call)
      (start bitrateMbps now) (ok_new bitrateMbps now) calls
  obtain ⟨hmax, hthermal⟩ := @run_limits (start bitrateMbps now) bitrateMbps rfl calls
  have hhigh := hok.high
  rw [hmax, hthermal] at hhigh
  exact ⟨hok.low, hhigh⟩

theorem adjustsWell_iff
    {s : Clocked} (h : s.Timed) (call : Call) :
    s.AdjustsWell call ↔ s.Timely call := by
  obtain ⟨elapsed, op⟩ := call
  cases op with
  | setSettingMbps mbps => exact iff_of_true trivial (fun hdue => absurd hdue id)
  | setThermalCeilingBps bps => exact iff_of_true trivial (fun hdue => absurd hdue id)
  | clearThermalCeiling => exact iff_of_true trivial (fun hdue => absurd hdue id)
  | adjust estimator gcc burst =>
      obtain ⟨-, hreports, -⟩ := adjust_fields estimator gcc burst (s.now + elapsed) s.ctrl
      obtain ⟨hraises, -⟩ := h.ok.adjust_iff estimator gcc burst (s.now + elapsed)
      constructor
      · rintro ⟨-, hwell⟩ hdue capped hlast
        have hlate := (hwell (hraises.mpr hdue)).2.2.2
        have hle := h.capped capped hlast
        simp only at hlate ⊢
        omega
      · intro htimely
        refine ⟨hreports, fun hraised => ?_⟩
        have hdue := hraises.mp hraised
        have hincreases := hdue.2.1
        refine ⟨hincreases.burst,
          Flt.le_of_not_lt gcc.gradient_isNaN (f64_nonneg 2 1).isNaN_eq_false hincreases.delay,
          hincreases.loss, ?_⟩
        rcases h.changed with hadjusted | hcapped
        · -- the code's own hysteresis counts from a later time
          have helapsed := of_decide_eq_true hincreases.hysteresis
          simp only
          omega
        · exact htimely hdue s.lastChange hcapped

/-- The runs in which every `adjust` does well. -/
theorem along_adjustsWell_iff
    (bitrateMbps now : Nat) (calls : List Call) :
    Run.Along step AdjustsWell (start bitrateMbps now) calls ↔
      Run.Along step Timely (start bitrateMbps now) calls :=
  @Run.along_congr _ _ _ step AdjustsWell Timely Timed (fun _ call h => h.step call)
    (fun _ call h => adjustsWell_iff h call) _ (start_timed bitrateMbps now) calls

/-- The bounds at every point of a run, and every `adjust` of it. -/
def Controls (bitrateMbps now : Nat) (calls : List Call) : Prop :=
  (∀ before after, calls = before ++ after →
    Bounded bitrateMbps before (Run.final step (start bitrateMbps now) before)) ∧
  Run.Along step AdjustsWell (start bitrateMbps now) calls

/--
**Bitrate bounds.**  In every run the bitrate stays within its bounds, and it is
raised only on a good link and after the hysteresis, exactly if no increase is due
within the hysteresis of a thermal ceiling that lowered it.
-/
theorem controls_iff
    (bitrateMbps now : Nat) (calls : List Call) :
    Controls bitrateMbps now calls ↔
      Run.Along step Timely (start bitrateMbps now) calls := by
  unfold Controls
  rw [along_adjustsWell_iff]
  refine ⟨fun h => h.2, fun h => ⟨fun before after _ => ?_, h⟩⟩
  exact run_bounded bitrateMbps now before

/-- A thermal ceiling lowers the bitrate and is lifted again before the next `adjust`. -/
def shortCap : List Call :=
  [⟨11000000000, .setThermalCeilingBps 60000000⟩,
    ⟨1000000000, .setThermalCeilingBps 80000000⟩,
    ⟨0, .adjust { hasData := true } GccEstimator.new {}⟩]

/-- One second after the bitrate was lowered it is raised. -/
theorem shortCap_raises :
    ¬ Controls 80 0 shortCap := by
  rintro ⟨-, hwell⟩
  obtain ⟨-, -, htimely, -⟩ := (along_adjustsWell_iff _ _ _).mp hwell
  have hloss : f64 0 1 < f64 1 100 := by decide +kernel
  have hdelay : ¬ f64 2 1 < f64 0 1 :=
    Flt.not_lt_of_le (Flt.ofRatio_le (by decide) (by decide) (by decide))
  have hlate := htimely ⟨rfl, ⟨rfl, hdelay, hloss, by decide⟩, by decide⟩ 11000000000 rfl
  exact absurd hlate (by decide)

end Clocked
end BitrateController
end Engine
end FocusVision
