import FocusVision.Engine.FrameLoopBitrate
import FocusVision.Engine.ThermalPolls

/-!
# The thermal cap in the frame loop

The frame loop of a session with a thermal governor.  The ceiling that the bitrate
controller keeps is computed from the setting at the time of a poll, and a multiplier
of 1 is kept as a ceiling as well.  So the cap is right after every poll, and a new
setting spoils it unless the old ceiling happens to suit it.  The governor outlives
the sessions: a session starts without a ceiling, whatever the multiplier is.
-/

namespace FocusVision
namespace Engine

/-- What the frame loop does, with the sensor's reading where the governor is asked. -/
inductive GovernedInput where
  | event (event : ControlEvent)
  | tick
  | thermal (reading : Option UInt32)
  | checkSleep (tracking : Option TrackingData)

structure GovernedStep where
  elapsed : Nat
  input : GovernedInput

/-- The frame loop, and the engine's governor. -/
structure GovernedLoop where
  loop : FrameLoop
  gov : ThermalGovernor

namespace GovernedLoop

/-- The start of a session, with a governor from earlier sessions. -/
def start (config : AppConfig) (sleepEnabled : Bool) (earlier : Governing) : GovernedLoop :=
  { loop := FrameLoop.start config sleepEnabled earlier.now, gov := earlier.gov }

def step (s : GovernedLoop) (call : GovernedStep) : List Nat × GovernedLoop :=
  match call.input with
  | .event event =>
      let (notified, loop) := s.loop.step ⟨call.elapsed, .event event⟩
      (notified, { s with loop })
  | .tick =>
      let (notified, loop) := s.loop.step ⟨call.elapsed, .tick⟩
      (notified, { s with loop })
  | .thermal reading =>
      let (multiplier, gov) := s.gov.tickAt reading (s.loop.now + call.elapsed)
      let (notified, loop) := s.loop.step ⟨call.elapsed, .thermal multiplier⟩
      (notified, { loop, gov })
  | .checkSleep tracking =>
      let (notified, loop) := s.loop.step ⟨call.elapsed, .checkSleep tracking⟩
      (notified, { s with loop })

end GovernedLoop

/-! ### Ceilings -/

/-- A bitrate times a multiplier, as the engine computes it. -/
def ceilingFor (bps : Nat) (multiplier : F64) : Nat :=
  (Flt.mul (Flt.ofNat bps) multiplier).toUnsigned 64

/-- The most that the controller asks for. -/
def BitrateController.effectiveMaxBps (ctrl : BitrateController) : Nat :=
  ctrl.clampToBounds ctrl.maxBitrateBps

theorem BitrateController.Ok.effectiveMaxBps_eq
    {ctrl : BitrateController} (h : ctrl.Ok) :
    ctrl.effectiveMaxBps =
      max 10000000 (effectiveMax ctrl.maxBitrateBps ctrl.thermalCeilingBps) := by
  have htop := effectiveMax_le ctrl.maxBitrateBps ctrl.thermalCeilingBps
  unfold effectiveMaxBps clampToBounds
  rw [h.floor, Nat.min_eq_right htop, Nat.max_comm]

section Ceilings

variable {bps : Nat} (hbps : bps ≤ 200000000)

include hbps

theorem ceilingFor_le
    {m : F64} (hm : Share m) :
    ceilingFor bps m ≤ bps := by
  have hlt : bps < 2 ^ 53 := Nat.lt_of_le_of_lt hbps (by decide)
  have hunits : FloatFormat.units ⟨52, 11⟩ m.mag ≤ 2 ^ FloatFormat.unit ⟨52, 11⟩ := by
    rw [← (Flt.units_one (F := ⟨52, 11⟩) (by decide)).2]
    exact FloatFormat.units_mono _ hm.2.2
  exact Flt.toUnsigned_mul_ofNat_le (by decide) hlt hlt (Nat.lt_trans hlt (by decide)) hm.1
    (hm.fraction.finite (by decide)) (Nat.mul_le_mul_left _ hunits)

/-- The multiplier 1 takes nothing away. -/
theorem ceilingFor_one :
    ceilingFor bps (f64 1 1) = bps := by
  have hlt : bps < 2 ^ 53 := Nat.lt_of_le_of_lt hbps (by decide)
  have hunits := Nat.le_of_eq (Flt.units_one (F := ⟨52, 11⟩) (by decide)).2.symm
  refine Nat.le_antisymm (ceilingFor_le hbps share_one) ?_
  exact Flt.le_toUnsigned_mul_ofNat (by decide) hlt hlt (Nat.lt_trans hlt (by decide)) rfl
    (share_one.fraction.finite (by decide)) (Nat.mul_le_mul_left _ hunits)

end Ceilings

theorem Share.eq_one_or_lt
    {m : F64} (h : Share m) :
    m = f64 1 1 ∨ m < f64 1 1 := by
  rcases Nat.lt_or_eq_of_le h.2.2 with hlt | heq
  · exact Or.inr (h.lt_one_iff.mpr hlt)
  · exact Or.inl (Flt.eq_of_bits h.1 heq)

namespace GovernedLoop

/-- The setting, in bits per second. -/
def settingBps (s : GovernedLoop) : Nat :=
  s.loop.adaptive.bitrateCtrl.maxBitrateBps

/-- The ceiling that the controller keeps. -/
def ceiling (s : GovernedLoop) : Option Nat :=
  s.loop.adaptive.bitrateCtrl.thermalCeilingBps

/-- The most that the controller asks for is the setting while the multiplier is 1, and
the multiplied setting, or the floor of 10 Mbps, while it is less. -/
structure CapsRight (s : GovernedLoop) : Prop where
  uncapped : s.gov.lastMultiplier = f64 1 1 →
    s.loop.adaptive.bitrateCtrl.effectiveMaxBps = s.settingBps
  capped : s.gov.lastMultiplier < f64 1 1 →
    s.loop.adaptive.bitrateCtrl.effectiveMaxBps =
      max 10000000 (ceilingFor s.settingBps s.gov.lastMultiplier)

/-- The ceiling, if there is one, suits a setting and a multiplier. -/
def Suits (ceiling : Option Nat) (setting : Nat) (multiplier : F64) : Prop :=
  match ceiling with
  | none => ceilingFor setting multiplier = setting ∨ setting = 10000000
  | some t =>
      -- the ceiling is the one for the setting, or lies above a setting without a cap,
      -- or the floor hides both
      t = ceilingFor setting multiplier ∨
        ceilingFor setting multiplier = setting ∧ setting ≤ t ∨
        ceilingFor setting multiplier ≤ 10000000 ∧ (t ≤ 10000000 ∨ setting = 10000000)

/-- A new setting finds a ceiling that suits it. -/
def SettingFits (s : GovernedLoop) (call : GovernedStep) : Prop :=
  match call.input with
  | .event (.bitrateSetting mbps) =>
      Suits s.ceiling (BitrateController.settingBps mbps.toNat) s.gov.lastMultiplier
  | _ => True

theorem suits_iff
    {setting : Nat} (hsetting : 10000000 ≤ setting ∧ setting ≤ 200000000) {m : F64}
    (hm : Share m) (ceiling : Option Nat) :
    max 10000000 (effectiveMax setting ceiling) = max 10000000 (ceilingFor setting m) ↔
      Suits ceiling setting m := by
  have hle := ceilingFor_le hsetting.2 hm
  unfold Suits effectiveMax
  generalize ceilingFor setting m = c at hle ⊢
  cases ceiling with
  | none =>
      simp only
      omega
  | some t =>
      simp only
      omega

/-! ### Runs -/

/-- The loop's controller and governor are in order. -/
structure Ok (s : GovernedLoop) : Prop where
  adaptive : s.loop.adaptive.Ok
  enabled : s.gov.enabled = true
  gov : s.gov.Ok s.loop.now

/-- Both parts of the law in one: 1 is a multiplier like the others. -/
theorem Ok.capsRight_eq
    {s : GovernedLoop} (h : s.Ok) :
    s.CapsRight ↔ Suits s.ceiling s.settingBps s.gov.lastMultiplier := by
  have hctrl := h.adaptive.1
  rw [← @suits_iff s.settingBps hctrl.setting _ h.gov.multiplier s.ceiling]
  have heff := hctrl.effectiveMaxBps_eq
  have hone := ceilingFor_one hctrl.setting.2
  have hlow := hctrl.setting.1
  constructor
  · intro hcaps
    rcases h.gov.multiplier.eq_one_or_lt with heq | hlt
    · have hmax := hcaps.uncapped heq
      rw [heff] at hmax
      rw [heq]
      unfold settingBps at hmax ⊢
      rw [hone]
      exact hmax.trans (Nat.max_eq_right hlow).symm
    · exact heff.symm.trans (hcaps.capped hlt)
  · intro hlaw
    refine ⟨fun heq => ?_, fun _ => heff.trans hlaw⟩
    rw [heq] at hlaw
    unfold settingBps at hlaw ⊢
    rw [hone] at hlaw
    exact heff.trans (hlaw.trans (Nat.max_eq_right hlow))

theorem step_loop_ok
    {s : GovernedLoop} (h : s.Ok) (elapsed : Nat) (input : LoopInput) :
    Ok { s with loop := (s.loop.step ⟨elapsed, input⟩).2 } := by
  have hnow : (s.loop.step ⟨elapsed, input⟩).2.now = s.loop.now + elapsed := rfl
  refine ⟨FrameLoop.step_ok h.adaptive _, h.enabled, ?_⟩
  simp only
  rw [hnow]
  exact h.gov.later (Nat.le_add_right _ _)

/-- What leaves the limits and the multiplier alone leaves the law alone. -/
theorem CapsRight.same
    {s t : GovernedLoop} (hcaps : s.CapsRight) (hs : s.Ok) (ht : t.Ok)
    (hsetting : t.settingBps = s.settingBps) (hceiling : t.ceiling = s.ceiling)
    (hmultiplier : t.gov.lastMultiplier = s.gov.lastMultiplier) :
    t.CapsRight := by
  rw [ht.capsRight_eq, hsetting, hceiling, hmultiplier]
  exact hs.capsRight_eq.mp hcaps

theorem tick_limits
    (s : AdaptiveState) (now : Nat) :
    (s.tick now).2.bitrateCtrl.maxBitrateBps = s.bitrateCtrl.maxBitrateBps ∧
      (s.tick now).2.bitrateCtrl.thermalCeilingBps = s.bitrateCtrl.thermalCeilingBps := by
  unfold AdaptiveState.tick
  cases s.pendingStats with
  | none => exact ⟨rfl, rfl⟩
  | some stats =>
      obtain ⟨hctrl, -, -⟩ := s.takeIn_fields stats now
      simp only
      generalize s.takeIn stats now = t at hctrl ⊢
      obtain ⟨-, -, -, hmax, hthermal, -⟩ :=
        BitrateController.adjust_fields t.bwEstimator t.tickGcc t.tickBurst now t.bitrateCtrl
      rw [hctrl] at hmax hthermal
      rw [hctrl]
      exact ⟨hmax, hthermal⟩

theorem step_event
    (s : GovernedLoop) (elapsed : Nat) (e : ControlEvent) :
    let adaptive := (s.loop.adaptive.onEvent e (s.loop.now + elapsed)).2
    (s.step ⟨elapsed, .event e⟩).2.settingBps = adaptive.bitrateCtrl.maxBitrateBps ∧
      (s.step ⟨elapsed, .event e⟩).2.ceiling = adaptive.bitrateCtrl.thermalCeilingBps ∧
      (s.step ⟨elapsed, .event e⟩).2.gov = s.gov :=
  ⟨rfl, rfl, rfl⟩

/-- After a new setting, the ceiling is the old one. -/
theorem setting_limits
    {s : AdaptiveState} (h : s.Ok) (mbps : UInt32) (now : Nat) :
    (s.onEvent (.bitrateSetting mbps) now).2.bitrateCtrl.maxBitrateBps =
        BitrateController.settingBps mbps.toNat ∧
      (s.onEvent (.bitrateSetting mbps) now).2.bitrateCtrl.thermalCeilingBps =
        s.bitrateCtrl.thermalCeilingBps := by
  have hevent : (s.onEvent (.bitrateSetting mbps) now).2.bitrateCtrl =
      s.bitrateCtrl.setSettingMbps mbps.toNat now := rfl
  rw [hevent, h.1.setSettingMbps_eq]
  generalize BitrateController.settingBps mbps.toNat = setting
  exact ⟨rfl, rfl⟩

/-- After a poll, the ceiling is the one for the setting. -/
theorem thermal_limits
    {s : AdaptiveState} (h : s.Ok) (m : F64) :
    (s.applyThermal (some m)).bitrateCtrl.maxBitrateBps = s.bitrateCtrl.maxBitrateBps ∧
      (s.applyThermal (some m)).bitrateCtrl.thermalCeilingBps =
        some (ceilingFor s.bitrateCtrl.maxBitrateBps m) := by
  have hceiling : s.thermalCeiling m = ceilingFor s.bitrateCtrl.maxBitrateBps m := by
    unfold AdaptiveState.thermalCeiling ceilingFor BitrateController.settingMbps
    rw [h.2]
  unfold AdaptiveState.applyThermal
  simp only
  rw [BitrateController.setThermalCeilingBps_eq, hceiling]
  exact ⟨rfl, rfl⟩

/-- A call of the governor comes too early and changes nothing, or it polls. -/
theorem tickAt_eq
    {gov : ThermalGovernor} (henabled : gov.enabled = true) (reading : Option UInt32)
    (now : Nat) :
    gov.tickAt reading now =
      if gov.tooEarly now then (none, gov)
      else (some (gov.poll reading now).1,
        { gov with
          lastPoll := some now
          lastMultiplier := (gov.poll reading now).1
          recovery := (gov.poll reading now).2 }) := by
  have hnot : ¬ (!gov.enabled) = true := by simp [henabled]
  simp only [ThermalGovernor.tickAt, if_neg hnot]

theorem tickAt_ok
    {gov : ThermalGovernor} {now : Nat} (henabled : gov.enabled = true) (h : gov.Ok now)
    (reading : Option UInt32) :
    (gov.tickAt reading now).2.Ok now ∧ (gov.tickAt reading now).2.enabled = true := by
  rw [tickAt_eq henabled]
  split_ifs
  · exact ⟨h, henabled⟩
  · exact ⟨h.poll reading (some now), henabled⟩

theorem step_ok
    {s : GovernedLoop} (h : s.Ok) (call : GovernedStep) :
    (s.step call).2.Ok := by
  obtain ⟨elapsed, input⟩ := call
  cases input with
  | event e => exact step_loop_ok h elapsed (.event e)
  | tick => exact step_loop_ok h elapsed .tick
  | thermal reading =>
      obtain ⟨hgov, henabled⟩ := tickAt_ok h.enabled
        (h.gov.later (Nat.le_add_right s.loop.now elapsed)) reading
      have hloop := FrameLoop.step_ok h.adaptive
        ⟨elapsed, .thermal (s.gov.tickAt reading (s.loop.now + elapsed)).1⟩
      exact ⟨hloop, henabled, hgov⟩
  | checkSleep tracking => exact step_loop_ok h elapsed (.checkSleep tracking)

/-- A poll gives the controller the ceiling for the setting. -/
theorem step_polled
    {s : GovernedLoop} (h : s.Ok) {elapsed : Nat} {reading : Option UInt32} {m : F64}
    {gov : ThermalGovernor}
    (htick : s.gov.tickAt reading (s.loop.now + elapsed) = (some m, gov)) :
    (s.step ⟨elapsed, .thermal reading⟩).2.settingBps = s.settingBps ∧
      (s.step ⟨elapsed, .thermal reading⟩).2.ceiling = some (ceilingFor s.settingBps m) ∧
      (s.step ⟨elapsed, .thermal reading⟩).2.gov = gov := by
  obtain ⟨hmax, hceiling⟩ := thermal_limits h.adaptive m
  have hstep : (s.step ⟨elapsed, .thermal reading⟩).2 =
      ⟨(s.loop.step ⟨elapsed, .thermal (some m)⟩).2, gov⟩ := by
    simp only [step]
    rw [htick]
  rw [hstep]
  exact ⟨hmax, hceiling, rfl⟩

/-- The cap stays right at every step but a setting that the ceiling does not suit. -/
theorem capsRight_step_iff
    {s : GovernedLoop} (h : s.Ok) (hcaps : s.CapsRight) (call : GovernedStep) :
    (s.step call).2.CapsRight ↔ s.SettingFits call := by
  have hnext := step_ok h call
  obtain ⟨elapsed, input⟩ := call
  cases input with
  | event e =>
      cases e with
      | heartbeat stats =>
          exact iff_of_true (hcaps.same h hnext rfl rfl rfl) trivial
      | transportFeedback entries =>
          refine iff_of_true (hcaps.same h hnext ?_ ?_ rfl) trivial
          · simp only [step, settingBps, FrameLoop.step, FrameLoop.handle,
              AdaptiveState.onEvent]
            split_ifs <;> rfl
          · simp only [step, ceiling, FrameLoop.step, FrameLoop.handle,
              AdaptiveState.onEvent]
            split_ifs <;> rfl
      | bitrateSetting mbps =>
          obtain ⟨hmax, hceiling⟩ :=
            setting_limits h.adaptive mbps (s.loop.now + elapsed)
          obtain ⟨hsetting, hkept, hgov⟩ := step_event s elapsed (.bitrateSetting mbps)
          rw [hnext.capsRight_eq, hsetting, hkept, hgov, hmax, hceiling]
          exact Iff.rfl
  | tick =>
      obtain ⟨hmax, hceiling⟩ := tick_limits s.loop.adaptive (s.loop.now + elapsed)
      exact iff_of_true (hcaps.same h hnext hmax hceiling rfl) trivial
  | thermal reading =>
      refine iff_of_true ?_ trivial
      have htick := tickAt_eq h.enabled reading (s.loop.now + elapsed)
      split_ifs at htick
      · have hstep : (s.step ⟨elapsed, .thermal reading⟩).2 =
            ⟨(s.loop.step ⟨elapsed, .thermal none⟩).2, s.gov⟩ := by
          simp only [step]
          rw [htick]
        rw [hstep] at hnext ⊢
        exact hcaps.same h hnext rfl rfl rfl
      · obtain ⟨hsetting, hceiling, hgov⟩ := step_polled h htick
        rw [hnext.capsRight_eq, hsetting, hceiling, hgov]
        exact Or.inl rfl
  | checkSleep tracking =>
      cases tracking with
      | none => exact iff_of_true (hcaps.same h hnext rfl rfl rfl) trivial
      | some data =>
          have hctrl := (AdaptiveState.checkSleepMode_spec h.adaptive data).1
          have hmax := congrArg BitrateController.maxBitrateBps hctrl
          have hceiling := congrArg BitrateController.thermalCeilingBps hctrl
          exact iff_of_true (hcaps.same h hnext hmax hceiling rfl) trivial

/-- A governor as earlier sessions left it. -/
def governed (thermal : ThermalConfig) (now : Nat) (earlier : List TickCall) : Governing :=
  Run.final Governing.step (Governing.start thermal now) earlier

theorem start_ok
    (config : AppConfig) (sleepEnabled : Bool) (thermal : ThermalConfig) (now : Nat)
    (earlier : List TickCall) :
    (start config sleepEnabled (governed thermal now earlier)).Ok := by
  have hruns := Governing.run_runs thermal now earlier
  exact ⟨AdaptiveState.ok_new _ _ _, hruns.enabled, hruns.ok⟩

/-- The cap is right at the start of a session and after each of its steps, for exactly
the runs that start with a multiplier that takes nothing away, or with a setting of
10 Mbps, and whose new settings find a ceiling that suits them. -/
theorem capsRight_iff
    (config : AppConfig) (sleepEnabled : Bool) (thermal : ThermalConfig) (now : Nat)
    (earlier : List TickCall) (calls : List GovernedStep) :
    let s := start config sleepEnabled (governed thermal now earlier)
    (s.CapsRight ∧ Run.Along step (fun s call => (s.step call).2.CapsRight) s calls) ↔
      Suits none s.settingBps s.gov.lastMultiplier ∧ Run.Along step SettingFits s calls := by
  have hok := start_ok config sleepEnabled thermal now earlier
  simp only
  generalize hs : start config sleepEnabled (governed thermal now earlier) = s at hok ⊢
  have hnone : s.ceiling = none := by
    rw [← hs]
    rfl
  rw [hok.capsRight_eq, hnone]
  refine and_congr_right fun hsuits => ?_
  have hcaps : s.CapsRight := by
    rw [hok.capsRight_eq, hnone]
    exact hsuits
  exact Run.along_iff step (fun s call (h : s.Ok) => step_ok h call)
    (fun s call h hk => capsRight_step_iff h hk call) hok hcaps calls

/-- A cool GPU, and a setting that is raised before the next poll. -/
def raisedSetting : List GovernedStep :=
  [⟨11111111, .thermal (some 60)⟩, ⟨11111111, .event (.bitrateSetting 100)⟩]

/-- The first poll of a governor, below the warning threshold. -/
theorem tickAt_first
    {config : ThermalConfig} (horder : ThermalOrderOk config) {t : UInt32}
    (ht : t < config.warnCelsius) (now : Nat) :
    ThermalGovernor.tickAt { enabled := true, config } (some t) now =
      (some (f64 1 1), { enabled := true, config, lastPoll := some now }) := by
  have hpoll : ThermalGovernor.poll { enabled := true, config } (some t) now =
      (f64 1 1, none) := by
    rw [ThermalGovernor.poll_cool horder ht]
    exact ThermalGovernor.recover_uncapped rfl rfl now
  rw [tickAt_eq rfl, hpoll]
  rfl

/-- A ceiling of 80 Mbps does not suit a setting of 100. -/
theorem raised_wrong
    {s : GovernedLoop} (h : s.Ok) (hmultiplier : s.gov.lastMultiplier = f64 1 1)
    (hceiling : s.ceiling = some 80000000) (elapsed : Nat) :
    ¬ (s.step ⟨elapsed, .event (.bitrateSetting 100)⟩).2.CapsRight := by
  intro hcaps
  have hnew : ceilingFor (BitrateController.settingBps 100) (f64 1 1) =
      BitrateController.settingBps 100 :=
    ceilingFor_one (BitrateController.settingBps_bounds 100).2
  have hsetting : BitrateController.settingBps 100 = 100000000 := by decide
  obtain ⟨hmax, hkept⟩ := setting_limits h.adaptive 100 (s.loop.now + elapsed)
  obtain ⟨hmax', hkept', hgov⟩ := step_event s elapsed (.bitrateSetting 100)
  have hold : s.loop.adaptive.bitrateCtrl.thermalCeilingBps = some 80000000 := hceiling
  rw [(step_ok h _).capsRight_eq, hmax', hkept', hgov, hmultiplier, hmax, hkept, hold]
    at hcaps
  change Suits _ (BitrateController.settingBps 100) _ at hcaps
  rw [hsetting] at hcaps
  rw [hsetting] at hnew
  unfold Suits at hcaps
  rw [hnew] at hcaps
  omega

/-- The multiplier is 1, and the old setting of 80 Mbps still caps the bitrate. -/
theorem raisedSetting_capped :
    let s := start {} false (governed {} 0 [])
    s.CapsRight ∧ ¬ Run.Along step (fun s call => (s.step call).2.CapsRight) s raisedSetting := by
  have hok := start_ok {} false {} 0 []
  have hsetting : (start {} false (governed {} 0 [])).settingBps = 80000000 := rfl
  have hold : ceilingFor 80000000 (f64 1 1) = 80000000 := ceilingFor_one (by decide)
  have htick := tickAt_first defaultThermal_ok.2 (t := 60) (by decide) 11111111
  obtain ⟨-, hceiling, hgov⟩ := @step_polled _ hok 11111111 _ _ _ htick
  rw [hsetting, hold] at hceiling
  refine ⟨hok.capsRight_eq.mpr (Or.inl ?_), ?_⟩
  · rw [hsetting]
    exact hold
  · rintro ⟨-, hraised, -⟩
    refine raised_wrong (step_ok hok _) ?_ hceiling 11111111 hraised
    rw [hgov]

end GovernedLoop
end Engine
end FocusVision
