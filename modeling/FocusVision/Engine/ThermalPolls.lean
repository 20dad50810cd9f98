import FocusVision.Engine.ConfigSafe
import FocusVision.Engine.ThermalGovernor
import FocusVision.Lib.Run

/-!
# Runs of the thermal governor

The polls of a run, each with its reading and the multiplier that it answered, for a
thermal section that `validate` has nothing against.  While the readings are below
the warning threshold the multiplier climbs, and it is 1 after the recovery time;
from the warning threshold on a cap stays.  A poll without a reading lifts the cap,
and the cap does not come back with a reading in the warning zone.
-/

namespace FocusVision
namespace Engine

/-! ### Accepted thresholds -/

/-- `validate` reports nothing in the thermal section. -/
def ThermalConfig.Accepted (t : ThermalConfig) : Prop :=
  (validateThermalRanges t).1 = [] ∧ (validateThermalOrder (validateThermalRanges t).2).1 = []

theorem check_eq_nil
    {α : Type} {bad : Prop} [Decidable bad] {error : ConfigError} {fixed value : α}
    (h : (check bad error fixed value).1 = []) :
    ¬ bad := by
  intro hbad
  rw [check_of hbad] at h
  exact absurd h (by simp)

theorem ThermalConfig.Accepted.ok
    {t : ThermalConfig} (h : t.Accepted) :
    ThermalRangesOk t ∧ ThermalOrderOk t := by
  obtain ⟨hranges, horder⟩ := h
  have hok : ThermalRangesOk t := by
    simp only [validateThermalRanges, List.append_eq_nil_iff] at hranges
    obtain ⟨⟨⟨⟨hwarn, hlimit⟩, hemergency⟩, hpoll⟩, hrecovery⟩ := hranges
    have hrange : ∀ {value lo hi default : UInt32} {field : String},
        (validateRange value lo hi default field).1 = [] → InRange lo hi value := by
      intro value lo hi default field hnil
      have hbad := check_eq_nil hnil
      exact ⟨Std.not_lt.mp fun hlt => hbad (Or.inl hlt),
        Std.not_lt.mp fun hlt => hbad (Or.inr hlt)⟩
    exact ⟨hrange hwarn, hrange hlimit, hrange hemergency, hrange hpoll, hrange hrecovery⟩
  refine ⟨hok, ?_⟩
  rw [validateThermalRanges_of_ok hok] at horder
  simp only [validateThermalOrder, List.append_eq_nil_iff] at horder
  have hwarn := check_eq_nil horder.1
  have hlimit := check_eq_nil horder.2
  rw [check_of_not hwarn] at hlimit
  exact ⟨Std.not_le.mp hwarn, Std.not_le.mp hlimit⟩

/-! ### Polls -/

/-- A call of `tick_at`, some time after the one before, and what the sensor would say. -/
structure TickCall where
  elapsed : Nat
  reading : Option UInt32

structure ThermalPoll where
  time : Nat
  reading : Option UInt32
  multiplier : F64

/-- A governor, and the time of its last call. -/
structure Governing where
  gov : ThermalGovernor
  now : Nat

namespace Governing

def step (s : Governing) (call : TickCall) : Option ThermalPoll × Governing :=
  let now := s.now + call.elapsed
  let (answer, gov) := s.gov.tickAt call.reading now
  (answer.map fun multiplier => ⟨now, call.reading, multiplier⟩, ⟨gov, now⟩)

/-- A governor that is turned on. -/
def start (config : ThermalConfig) (now : Nat) : Governing :=
  { gov := { enabled := true, config }, now }

/-- The polls of a run. -/
def polls (config : ThermalConfig) (now : Nat) (calls : List TickCall) : List ThermalPoll :=
  Run.emitted step (start config now) calls

/-- The governor runs with this config, and is in order. -/
structure Runs (config : ThermalConfig) (s : Governing) : Prop where
  enabled : s.gov.enabled = true
  config_eq : s.gov.config = config
  ok : s.gov.Ok s.now

variable {config : ThermalConfig} {s : Governing}

/-- A call comes too early, or it polls. -/
theorem step_cases
    (h : s.Runs config) (call : TickCall) :
    (step s call = (none, ⟨s.gov, s.now + call.elapsed⟩)) ∨
      ∃ m r, s.gov.poll call.reading (s.now + call.elapsed) = (m, r) ∧
        step s call =
          (some ⟨s.now + call.elapsed, call.reading, m⟩,
            ⟨{ s.gov with
                lastPoll := some (s.now + call.elapsed)
                lastMultiplier := m
                recovery := r }, s.now + call.elapsed⟩) := by
  have henabled : ¬ (!s.gov.enabled) = true := by simp [h.enabled]
  simp only [step, ThermalGovernor.tickAt, if_neg henabled]
  split_ifs
  · exact Or.inl rfl
  · exact Or.inr ⟨_, _, rfl, rfl⟩

theorem Runs.step
    (h : s.Runs config) (call : TickCall) :
    (Governing.step s call).2.Runs config := by
  have hok := h.ok.later (Nat.le_add_right s.now call.elapsed)
  rcases step_cases h call with heq | ⟨m, r, hpoll, heq⟩
  · rw [heq]
    exact ⟨h.enabled, h.config_eq, hok⟩
  · rw [heq]
    have hnext := hok.poll call.reading (some (s.now + call.elapsed))
    rw [hpoll] at hnext
    exact ⟨h.enabled, h.config_eq, hnext⟩

theorem start_runs
    (config : ThermalConfig) (now : Nat) :
    (start config now).Runs config :=
  ⟨rfl, rfl, share_one, by simp [start]⟩

theorem run_runs
    (config : ThermalConfig) (now : Nat) (calls : List TickCall) :
    (Run.final step (start config now) calls).Runs config := by
  have hstep : ∀ (t : Governing) (call : TickCall), t.Runs config →
      (step t call).2.Runs config := fun _ call h => h.step call
  exact Run.final_invariant step hstep (start_runs config now) calls

/-! ### Cool readings -/

end Governing

namespace ThermalPoll

/-- The reading is below the warning threshold. -/
def Cool (config : ThermalConfig) (p : ThermalPoll) : Prop :=
  ∃ t, p.reading = some t ∧ t < config.warnCelsius

/-- No reading is at or above the warning threshold. -/
def NotWarm (config : ThermalConfig) (p : ThermalPoll) : Prop :=
  ∀ t, p.reading = some t → t < config.warnCelsius

/-- The reading is at or above the warning threshold. -/
def Warm (config : ThermalConfig) (p : ThermalPoll) : Prop :=
  ∃ t, p.reading = some t ∧ config.warnCelsius ≤ t

theorem Cool.notWarm
    {config : ThermalConfig} {p : ThermalPoll} (h : p.Cool config) :
    p.NotWarm config := by
  obtain ⟨t, ht, hlt⟩ := h
  intro t' ht'
  rw [ht] at ht'
  rw [← Option.some.inj ht']
  exact hlt

end ThermalPoll

namespace ThermalGovernor

theorem poll_cool
    {gov : ThermalGovernor} (horder : ThermalOrderOk gov.config) {t : UInt32}
    (ht : t < gov.config.warnCelsius) (now : Nat) :
    gov.poll (some t) now = gov.recover now := by
  have hlimit := Std.lt_trans ht horder.warn_lt
  have hemergency := Std.lt_trans hlimit horder.limit_lt
  simp only [poll]
  rw [if_neg (Std.not_le.mpr hemergency), if_neg (Std.not_le.mpr hlimit),
    if_neg (Std.not_le.mpr ht)]

/-- From some time on, readings below the warning threshold give at least `m`. -/
def AtLeast (m : F64) (gov : ThermalGovernor) (now : Nat) : Prop :=
  ∀ later, now ≤ later → m.mag ≤ (gov.recover later).1.mag

theorem AtLeast.later
    {m : F64} {gov : ThermalGovernor} {now later : Nat} (h : AtLeast m gov now)
    (hle : now ≤ later) :
    AtLeast m gov later :=
  fun time htime => h time (Nat.le_trans hle htime)

/-- The ramp is through, or will be at a time. -/
def ThroughBy (time : Nat) (gov : ThermalGovernor) : Prop :=
  (gov.recovery = none ∧ gov.lastMultiplier = f64 1 1) ∨
    ∃ r, gov.recovery = some r ∧ r.startedAt + rampSeconds gov.config * 1000000000 ≤ time

theorem recover_uncapped
    {gov : ThermalGovernor} (hrecovery : gov.recovery = none)
    (hlast : gov.lastMultiplier = f64 1 1) (now : Nat) :
    gov.recover now = (f64 1 1, none) := by
  have hlt : ¬ gov.lastMultiplier < f64 1 1 := by
    rw [hlast]
    exact Flt.not_lt_of_le (Flt.le_refl (f64_nonneg 1 1).isNaN_eq_false)
  unfold recover currentRamp
  rw [if_neg fun h => hlt h.1, hrecovery]

theorem currentRamp_some
    {gov : ThermalGovernor} {r : Recovery} (h : gov.recovery = some r) (now : Nat) :
    gov.currentRamp now = some r := by
  unfold currentRamp
  rw [if_neg (by simp [h]), h]

theorem share_recover
    {gov : ThermalGovernor} {now : Nat} (h : gov.Ok now) :
    Share (gov.recover now).1 := by
  rcases recover_cases h with heq | ⟨r, -, hr, -, heq, -⟩
  · rw [heq]
    exact share_one
  · rw [heq]
    exact rampAt_share _ hr _

/-- The state that a reading below the warning threshold leads to. -/
def afterCool (gov : ThermalGovernor) (now : Nat) : ThermalGovernor :=
  { gov with
    lastPoll := some now
    lastMultiplier := (gov.recover now).1
    recovery := (gov.recover now).2 }

/-- The ramp does not fall behind what it has reached. -/
theorem afterCool_atLeast
    {gov : ThermalGovernor} {now : Nat} (h : gov.Ok now) :
    AtLeast (gov.recover now).1 (gov.afterCool now) now := by
  intro later hlater
  rcases recover_cases h with heq | ⟨r, -, hr, hstart, heq, hbelow⟩
  · have hnext := @recover_uncapped (gov.afterCool now) (by simp [afterCool, heq])
      (by simp [afterCool, heq]) later
    rw [hnext, heq]
  · have hramp : (gov.afterCool now).recovery = some r := by simp [afterCool, heq]
    have hok : (gov.afterCool now).Ok later := by
      refine ⟨share_recover h, ?_⟩
      intro r' hr'
      rw [hramp] at hr'
      rw [← Option.some.inj hr']
      exact ⟨hr, Nat.le_trans hstart hlater⟩
    rw [heq]
    rcases recover_cases hok with heq' | ⟨r', hcurrent, -, -, heq', -⟩
    · rw [heq']
      exact Nat.le_of_lt hbelow
    · rw [currentRamp_some hramp] at hcurrent
      rw [heq', ← Option.some.inj hcurrent]
      exact rampAt_mono _ hr hlater

/-- A ramp ends when its seconds after the first cool reading are over. -/
theorem afterCool_throughBy
    {gov : ThermalGovernor} {now : Nat} (h : gov.Ok now) :
    ThroughBy (now + rampSeconds gov.config * 1000000000) (gov.afterCool now) := by
  rcases recover_cases h with heq | ⟨r, -, -, hstart, heq, -⟩
  · exact Or.inl (by simp [afterCool, heq])
  · refine Or.inr ⟨r, by simp [afterCool, heq], ?_⟩
    exact Nat.add_le_add_right hstart _

theorem ThroughBy.recover
    {gov : ThermalGovernor} {time now : Nat} (hthrough : ThroughBy time gov)
    (h : gov.Ok now) (hnow : time ≤ now) :
    gov.recover now = (f64 1 1, none) := by
  rcases hthrough with ⟨hrecovery, hlast⟩ | ⟨r, hr, hend⟩
  · exact recover_uncapped hrecovery hlast now
  · exact recover_full (currentRamp_some hr now) (h.ramp r hr).1 (Nat.le_trans hend hnow)

theorem ThroughBy.afterCool
    {gov : ThermalGovernor} {time now : Nat} (hthrough : ThroughBy time gov)
    (h : gov.Ok now) :
    ThroughBy time (gov.afterCool now) := by
  rcases recover_cases h with heq | ⟨r, hcurrent, -, -, heq, -⟩
  · exact Or.inl (by simp [ThermalGovernor.afterCool, heq])
  · rcases hthrough with ⟨hrecovery, hlast⟩ | ⟨r', hr', hend⟩
    · rw [recover_uncapped hrecovery hlast] at heq
      exact absurd (congrArg Prod.snd heq) (by simp)
    · rw [currentRamp_some hr'] at hcurrent
      refine Or.inr ⟨r', ?_, hend⟩
      rw [Option.some.inj hcurrent]
      simp [ThermalGovernor.afterCool, heq]

/-- The state that a missing reading leads to: no cap, but the ramp is kept. -/
def afterMissing (gov : ThermalGovernor) (now : Nat) : ThermalGovernor :=
  { gov with lastPoll := some now, lastMultiplier := f64 1 1 }

theorem AtLeast.afterMissing
    {gov : ThermalGovernor} {m : F64} {now : Nat} (hleast : AtLeast m gov now)
    (h : gov.Ok now) (time : Nat) :
    AtLeast m (gov.afterMissing time) now := by
  intro later hlater
  cases hrecovery : gov.recovery with
  | none =>
      rw [@recover_uncapped (gov.afterMissing time) hrecovery rfl later]
      exact Nat.le_trans (hleast later hlater) (share_recover (h.later hlater)).2.2
  | some r =>
      have hsame : (gov.afterMissing time).recover later = gov.recover later := by
        unfold recover
        rw [@currentRamp_some (gov.afterMissing time) r hrecovery later,
          currentRamp_some hrecovery later]
        rfl
      rw [hsame]
      exact hleast later hlater

theorem ThroughBy.afterMissing
    {gov : ThermalGovernor} {time : Nat} (hthrough : ThroughBy time gov) (now : Nat) :
    ThroughBy time (gov.afterMissing now) := by
  rcases hthrough with ⟨hrecovery, -⟩ | hramp
  · exact Or.inl ⟨hrecovery, rfl⟩
  · exact Or.inr hramp

end ThermalGovernor

/-! ### Stretches of polls -/

namespace Governing

variable {config : ThermalConfig} {s : Governing}

theorem step_none
    (h : s.Runs config) {call : TickCall} (hnone : (step s call).1 = none) :
    (step s call).2 = ⟨s.gov, s.now + call.elapsed⟩ := by
  rcases step_cases h call with heq | ⟨m, r, -, heq⟩
  · rw [heq]
  · rw [heq] at hnone
    exact absurd hnone (by simp)

theorem step_some
    (h : s.Runs config) {call : TickCall} {p : ThermalPoll} (hp : (step s call).1 = some p) :
    s.now ≤ p.time ∧ p.multiplier = (s.gov.poll p.reading p.time).1 ∧
      (step s call).2 =
        ⟨{ s.gov with
            lastPoll := some p.time
            lastMultiplier := (s.gov.poll p.reading p.time).1
            recovery := (s.gov.poll p.reading p.time).2 }, p.time⟩ := by
  rcases step_cases h call with heq | ⟨m, r, hpoll, heq⟩
  · rw [heq] at hp
    exact absurd hp (by simp)
  · rw [heq] at hp ⊢
    rw [← Option.some.inj hp]
    simp only
    rw [hpoll]
    exact ⟨Nat.le_add_right _ _, rfl, rfl⟩

theorem poll_share
    (h : s.Runs config) {call : TickCall} {p : ThermalPoll} (hp : (step s call).1 = some p) :
    Share p.multiplier := by
  obtain ⟨hnow, hm, -⟩ := step_some h hp
  have hok := (h.ok.later hnow).poll p.reading none
  rw [hm]
  exact hok.multiplier

/-- A poll that is not warm is a cool one, or has no reading. -/
theorem step_notWarm
    (horder : ThermalOrderOk config) (h : s.Runs config) {call : TickCall} {p : ThermalPoll}
    (hp : (step s call).1 = some p) (hcold : p.NotWarm config) :
    (p.multiplier = (s.gov.recover p.time).1 ∧
        (step s call).2 = ⟨s.gov.afterCool p.time, p.time⟩) ∨
      (p.reading = none ∧ p.multiplier = f64 1 1 ∧
        (step s call).2 = ⟨s.gov.afterMissing p.time, p.time⟩) := by
  obtain ⟨-, hm, hnext⟩ := step_some h hp
  cases hreading : p.reading with
  | none =>
      rw [hreading] at hm hnext
      exact Or.inr ⟨rfl, hm, hnext⟩
  | some t =>
      have ht : t < s.gov.config.warnCelsius := by
        rw [h.config_eq]
        exact hcold t hreading
      rw [hreading, ThermalGovernor.poll_cool (by rw [h.config_eq]; exact horder) ht] at hm hnext
      exact Or.inl ⟨hm, hnext⟩

section NotWarm

variable (horder : ThermalOrderOk config)

include horder

/-- Without warm readings, the ramp does not fall below what it has reached. -/
theorem AtLeast_step
    {m : F64} (hleast : ThermalGovernor.AtLeast m s.gov s.now) (h : s.Runs config)
    (call : TickCall) (hcold : ∀ p, (step s call).1 = some p → p.NotWarm config) :
    ThermalGovernor.AtLeast m (step s call).2.gov (step s call).2.now ∧
      ∀ p, (step s call).1 = some p → p.Cool config → m.mag ≤ p.multiplier.mag := by
  cases hp : (step s call).1 with
  | none =>
      rw [step_none h hp]
      exact ⟨hleast.later (Nat.le_add_right _ _), by simp⟩
  | some p =>
      have hnow := (step_some h hp).1
      have hok := h.ok.later hnow
      rcases step_notWarm horder h hp (hcold p hp) with ⟨hm, hnext⟩ | ⟨hreading, hm, hnext⟩
      · rw [hnext]
        refine ⟨?_, ?_⟩
        · intro later hlater
          exact Nat.le_trans (hleast p.time hnow)
            (ThermalGovernor.afterCool_atLeast hok later hlater)
        · intro q hq _
          rw [← Option.some.inj hq, hm]
          exact hleast p.time hnow
      · rw [hnext]
        refine ⟨(hleast.afterMissing h.ok p.time).later hnow, ?_⟩
        rintro q hq ⟨t, ht, -⟩
        rw [← Option.some.inj hq, hreading] at ht
        exact absurd ht (by simp)

theorem AtLeast_run
    {m : F64} (hleast : ThermalGovernor.AtLeast m s.gov s.now) (h : s.Runs config)
    (calls : List TickCall) (hcold : ∀ p ∈ Run.emitted step s calls, p.NotWarm config) :
    ∀ p ∈ Run.emitted step s calls, p.Cool config → m.mag ≤ p.multiplier.mag := by
  induction calls generalizing s with
  | nil => exact fun p hp => absurd hp (by simp)
  | cons call calls ih =>
      rw [Run.emitted_cons] at hcold ⊢
      obtain ⟨hnext, hhere⟩ := AtLeast_step horder hleast h call
        (fun p hp => hcold p (List.mem_append_left _ (by simp [hp])))
      have hrest := ih hnext (h.step call) (fun p hp => hcold p (List.mem_append_right _ hp))
      intro p hp
      rcases List.mem_append.mp hp with hp | hp
      · exact hhere p (Option.mem_toList.mp hp)
      · exact hrest p hp

/-- Without warm readings, the multipliers of the cool ones climb. -/
theorem climbs_run
    (h : s.Runs config) (calls : List TickCall)
    (hcold : ∀ p ∈ Run.emitted step s calls, p.NotWarm config) :
    (Run.emitted step s calls).Pairwise fun p q =>
      p.Cool config → q.Cool config → p.multiplier.mag ≤ q.multiplier.mag := by
  induction calls generalizing s with
  | nil => exact List.Pairwise.nil
  | cons call calls ih =>
      rw [Run.emitted_cons] at hcold ⊢
      have hrest := ih (h.step call) (fun p hp => hcold p (List.mem_append_right _ hp))
      cases hp : (step s call).1 with
      | none => exact hrest
      | some p =>
          refine List.Pairwise.cons ?_ hrest
          intro q hq hpcool
          rw [hp] at hcold
          rcases step_notWarm horder h hp (hcold p (by simp)) with ⟨hm, hnext⟩ | ⟨hreading, -⟩
          · have hok := h.ok.later (step_some h hp).1
            have hleast := ThermalGovernor.afterCool_atLeast hok
            rw [← hm] at hleast
            refine AtLeast_run horder ?_ (h.step call) calls
              (fun p hp => hcold p (List.mem_append_right _ hp)) q hq
            rw [hnext]
            exact hleast
          · obtain ⟨t, ht, -⟩ := hpcool
            rw [hreading] at ht
            exact absurd ht (by simp)

theorem ThroughBy_run
    {time : Nat} (hthrough : ThermalGovernor.ThroughBy time s.gov) (h : s.Runs config)
    (calls : List TickCall) (hcold : ∀ p ∈ Run.emitted step s calls, p.NotWarm config) :
    ∀ p ∈ Run.emitted step s calls, time ≤ p.time → p.multiplier = f64 1 1 := by
  induction calls generalizing s with
  | nil => exact fun p hp => absurd hp (by simp)
  | cons call calls ih =>
      rw [Run.emitted_cons] at hcold ⊢
      cases hp : (step s call).1 with
      | none =>
          refine ih ?_ (h.step call) (fun p hp => hcold p (List.mem_append_right _ hp))
          rw [step_none h hp]
          exact hthrough
      | some p =>
          rw [hp] at hcold
          have hok := h.ok.later (step_some h hp).1
          have hcold' : ∀ q ∈ Run.emitted step (step s call).2 calls, q.NotWarm config :=
            fun q hq => hcold q (List.mem_append_right _ hq)
          intro q hq
          rcases step_notWarm horder h hp (hcold p (by simp)) with ⟨hm, hnext⟩ | ⟨-, hm, hnext⟩
          · rcases List.mem_append.mp hq with hq | hq
            · intro htime
              rw [List.mem_singleton.mp hq] at htime ⊢
              exact hm.trans (congrArg Prod.fst (hthrough.recover hok htime))
            · refine ih ?_ (h.step call) hcold' q hq
              rw [hnext]
              exact hthrough.afterCool hok
          · rcases List.mem_append.mp hq with hq | hq
            · intro _
              rw [List.mem_singleton.mp hq]
              exact hm
            · refine ih ?_ (h.step call) hcold' q hq
              rw [hnext]
              exact hthrough.afterMissing p.time

end NotWarm

/-- With warm readings only, a cap stays. -/
theorem warm_run
    (h : s.Runs config) (hcapped : s.gov.lastMultiplier.mag < (f64 1 1).mag)
    (calls : List TickCall) (hwarm : ∀ p ∈ Run.emitted step s calls, p.Warm config) :
    ∀ p ∈ Run.emitted step s calls, p.multiplier.mag < (f64 1 1).mag := by
  induction calls generalizing s with
  | nil => exact fun p hp => absurd hp (by simp)
  | cons call calls ih =>
      rw [Run.emitted_cons] at hwarm ⊢
      cases hp : (step s call).1 with
      | none =>
          refine ih (h.step call) ?_ (fun p hp => hwarm p (List.mem_append_right _ hp))
          rw [step_none h hp]
          exact hcapped
      | some p =>
          rw [hp] at hwarm
          obtain ⟨-, hm, hnext⟩ := step_some h hp
          have hbelow : p.multiplier.mag < (f64 1 1).mag := by
            obtain ⟨-, hlow, hhigh, -⟩ := thermal_facts
            obtain ⟨t, ht, hge⟩ := hwarm p (by simp)
            rw [← h.config_eq] at hge
            rw [hm, ht]
            simp only [ThermalGovernor.poll]
            split_ifs
            · exact Nat.lt_trans hlow hhigh
            · exact hhigh
            · exact hcapped
          have hrest := ih (h.step call) (by rw [hnext, ← hm]; exact hbelow)
            (fun p hp => hwarm p (List.mem_append_right _ hp))
          intro q hq
          rcases List.mem_append.mp hq with hq | hq
          · rw [List.mem_singleton.mp hq]
            exact hbelow
          · exact hrest q hq

end Governing

/-! ### What the polls have in common -/

/-- What holds of the polls of a governor. -/
structure Governs (config : ThermalConfig) (polls : List ThermalPoll) : Prop where
  /-- The multiplier leaves between half and all of the bitrate. -/
  range : ∀ p ∈ polls, EMERGENCY_MULTIPLIER ≤ p.multiplier ∧ p.multiplier ≤ f64 1 1
  emergency : ∀ p ∈ polls, ∀ t, p.reading = some t → config.emergencyCelsius ≤ t →
    p.multiplier = EMERGENCY_MULTIPLIER
  limit : ∀ p ∈ polls, ∀ t, p.reading = some t → config.limitCelsius ≤ t →
    t < config.emergencyCelsius → p.multiplier = LIMIT_MULTIPLIER
  /-- Without warm readings in between, the multipliers of cool readings climb. -/
  climbs : ∀ before stretch after, polls = before ++ (stretch ++ after) →
    (∀ p ∈ stretch, p.NotWarm config) →
    stretch.Pairwise fun p q => p.Cool config → q.Cool config → p.multiplier ≤ q.multiplier
  /-- A ramp began with the first of such readings at the latest, and ends in time. -/
  recovers : ∀ before first stretch after, polls = before ++ first :: (stretch ++ after) →
    first.Cool config → (∀ p ∈ stretch, p.NotWarm config) →
    ∀ p ∈ stretch, first.time + config.recoverySeconds.toNat * 1000000000 ≤ p.time →
      p.multiplier = f64 1 1
  /-- A poll without a reading lifts the cap. -/
  missing : ∀ p ∈ polls, p.reading = none → p.multiplier = f64 1 1
  /-- As long as every poll has a warm reading, a cap stays. -/
  holds : ∀ before capped stretch after, polls = before ++ capped :: (stretch ++ after) →
    capped.multiplier < f64 1 1 → (∀ p ∈ stretch, p.Warm config) →
    ∀ p ∈ stretch, p.multiplier < f64 1 1

namespace Governing

variable {config : ThermalConfig} {now : Nat} {calls : List TickCall}

/-- A poll of a run comes from one call, in a governor that runs. -/
theorem mem_polls
    {p : ThermalPoll} (hp : p ∈ polls config now calls) :
    ∃ s call, s.Runs config ∧ (step s call).1 = some p := by
  obtain ⟨before, after, hsplit⟩ := List.append_of_mem hp
  obtain ⟨bs, call, cs, -, hcall, -⟩ := Run.emitted_eq_append_cons step hsplit
  exact ⟨_, call, run_runs config now bs, hcall⟩

theorem polls_poll
    {p : ThermalPoll} (hp : p ∈ polls config now calls) :
    Share p.multiplier ∧ ∃ gov : ThermalGovernor, gov.config = config ∧
      p.multiplier = (gov.poll p.reading p.time).1 := by
  obtain ⟨s, call, hs, hcall⟩ := mem_polls hp
  exact ⟨poll_share hs hcall, s.gov, hs.config_eq, (step_some hs hcall).2.1⟩

/-- A stretch of the polls comes from a governor that runs. -/
theorem polls_stretch
    {before stretch after : List ThermalPoll}
    (h : polls config now calls = before ++ (stretch ++ after)) :
    ∃ s cs, s.Runs config ∧ Run.emitted step s cs = stretch := by
  obtain ⟨bs, cs, -, -, hcs⟩ := Run.emitted_eq_append step h
  obtain ⟨ds, es, -, hds, -⟩ := Run.emitted_eq_append step hcs
  exact ⟨_, ds, run_runs config now bs, hds⟩

/-- So does the stretch that follows a poll. -/
theorem polls_next
    {before stretch after : List ThermalPoll} {first : ThermalPoll}
    (h : polls config now calls = before ++ first :: (stretch ++ after)) :
    ∃ s call cs, s.Runs config ∧ (step s call).1 = some first ∧
      Run.emitted step (step s call).2 cs = stretch := by
  obtain ⟨bs, call, cs, -, hcall, hcs⟩ := Run.emitted_eq_append_cons step h
  obtain ⟨ds, es, -, hds, -⟩ := Run.emitted_eq_append step hcs
  exact ⟨_, call, ds, run_runs config now bs, hcall, hds⟩

theorem poll_mem_stretch
    {before stretch after : List ThermalPoll}
    (h : polls config now calls = before ++ (stretch ++ after)) {p : ThermalPoll}
    (hp : p ∈ stretch) :
    Share p.multiplier := by
  have hmem : p ∈ polls config now calls := by
    rw [h]
    exact List.mem_append_right _ (List.mem_append_left _ hp)
  exact (polls_poll hmem).1

/-- The governor governs, for every accepted config. -/
theorem governs
    {config : ThermalConfig} (hconfig : config.Accepted) (now : Nat)
    (calls : List TickCall) :
    Governs config (polls config now calls) where
  range := by
    intro p hp
    have hshare := (polls_poll hp).1
    exact ⟨(share_emergency.nonneg.le_iff hshare.nonneg).mpr hshare.2.1,
      (hshare.nonneg.le_iff (f64_nonneg 1 1)).mpr hshare.2.2⟩
  emergency := by
    intro p hp t ht hge
    obtain ⟨-, gov, hgov, hm⟩ := polls_poll hp
    rw [hm, ht, ThermalGovernor.poll]
    simp only [hgov, if_pos hge]
  limit := by
    intro p hp t ht hge hlt
    obtain ⟨-, gov, hgov, hm⟩ := polls_poll hp
    rw [hm, ht, ThermalGovernor.poll]
    simp only [hgov, if_neg (Std.not_le.mpr hlt), if_pos hge]
  climbs := by
    intro before stretch after hpolls hcold
    obtain ⟨s, cs, hs, hcs⟩ := polls_stretch hpolls
    have hclimbs := climbs_run hconfig.ok.2 hs cs (by rw [hcs]; exact hcold)
    rw [hcs] at hclimbs
    refine hclimbs.imp_of_mem ?_
    intro p q hp hq hle hpcool hqcool
    have hpshare := poll_mem_stretch hpolls hp
    have hqshare := poll_mem_stretch hpolls hq
    exact (hpshare.nonneg.le_iff hqshare.nonneg).mpr (hle hpcool hqcool)
  recovers := by
    intro before first stretch after hpolls hfirst hcold
    obtain ⟨s, call, cs, hs, hcall, hcs⟩ := polls_next hpolls
    have horder := hconfig.ok.2
    have hseconds : ThermalGovernor.rampSeconds config = config.recoverySeconds.toNat := by
      have hlow := UInt32.le_iff_toNat_le.mp hconfig.ok.1.recovery.1
      exact Nat.max_eq_left hlow
    have hthrough : ThermalGovernor.ThroughBy
        (first.time + config.recoverySeconds.toNat * 1000000000) (step s call).2.gov := by
      have hok := hs.ok.later (step_some hs hcall).1
      rcases step_notWarm horder hs hcall hfirst.notWarm with ⟨-, hnext⟩ | ⟨hreading, -⟩
      · have hafter := ThermalGovernor.afterCool_throughBy hok
        rw [hs.config_eq, hseconds] at hafter
        rw [hnext]
        exact hafter
      · obtain ⟨t, ht, -⟩ := hfirst
        rw [hreading] at ht
        exact absurd ht (by simp)
    have hrun := ThroughBy_run horder hthrough (hs.step call) cs (by rw [hcs]; exact hcold)
    rw [hcs] at hrun
    exact hrun
  missing := by
    intro p hp hreading
    obtain ⟨-, gov, -, hm⟩ := polls_poll hp
    rw [hm, hreading, ThermalGovernor.poll]
  holds := by
    intro before capped stretch after hpolls hcapped hwarm p hp
    obtain ⟨s, call, cs, hs, hcall, hcs⟩ := polls_next hpolls
    have hbelow : (step s call).2.gov.lastMultiplier.mag < (f64 1 1).mag := by
      obtain ⟨-, hm, hnext⟩ := step_some hs hcall
      rw [hnext, ← hm]
      exact (poll_share hs hcall).lt_one_iff.mp hcapped
    have hrun := warm_run (hs.step call) hbelow cs (by rw [hcs]; exact hwarm)
    rw [hcs] at hrun
    have hmem : p ∈ polls config now calls := by
      rw [hpolls]
      exact List.mem_append_right _ (List.mem_cons_of_mem _ (List.mem_append_left _ hp))
    exact (polls_poll hmem).1.lt_one_iff.mpr (hrun p hp)

/-- A hot GPU whose sensor is silent once, and then reads a temperature in the warning
zone. -/
def silentSensor : List TickCall :=
  [⟨0, some 95⟩, ⟨5000000000, none⟩, ⟨5000000000, some 80⟩]

theorem silentSensor_governs :
    ThermalConfig.Accepted {} ∧ Governs {} (polls {} 0 silentSensor) := by
  have haccepted : ThermalConfig.Accepted {} := by
    have hok := defaultThermal_ok
    rw [ThermalConfig.Accepted, validateThermalRanges_of_ok hok.1,
      validateThermalOrder_of_ok hok.2]
    exact ⟨rfl, rfl⟩
  exact ⟨haccepted, governs haccepted 0 silentSensor⟩

/-- A cap that is not lifted by missing readings either. -/
def HoldsThroughSilence (config : ThermalConfig) (polls : List ThermalPoll) : Prop :=
  ∀ before capped stretch after, polls = before ++ capped :: (stretch ++ after) →
    capped.multiplier < f64 1 1 →
    (∀ p ∈ stretch, ∀ t, p.reading = some t → config.warnCelsius ≤ t) →
    ∀ p ∈ stretch, p.multiplier < f64 1 1

/-- The cap is gone with the missing reading, and stays so at 80 degrees. -/
theorem silentSensor_lifts :
    polls {} 0 silentSensor =
        [⟨0, some 95, EMERGENCY_MULTIPLIER⟩, ⟨5000000000, none, f64 1 1⟩,
          ⟨10000000000, some 80, f64 1 1⟩] ∧
      ¬ HoldsThroughSilence {} (polls {} 0 silentSensor) := by
  have hpolls : polls {} 0 silentSensor =
      [⟨0, some 95, EMERGENCY_MULTIPLIER⟩, ⟨5000000000, none, f64 1 1⟩,
        ⟨10000000000, some 80, f64 1 1⟩] := rfl
  refine ⟨hpolls, fun hholds => ?_⟩
  obtain ⟨-, hlow, hhigh, -⟩ := thermal_facts
  have hcapped : EMERGENCY_MULTIPLIER < f64 1 1 :=
    share_emergency.lt_one_iff.mpr (Nat.lt_trans hlow hhigh)
  have hlifted := hholds [] ⟨0, some 95, EMERGENCY_MULTIPLIER⟩
    [⟨5000000000, none, f64 1 1⟩, ⟨10000000000, some 80, f64 1 1⟩] [] hpolls hcapped
    (by simp; decide) ⟨5000000000, none, f64 1 1⟩ (by simp)
  exact Flt.not_lt_of_le (Flt.le_refl (f64_nonneg 1 1).isNaN_eq_false) hlifted

end Governing
end Engine
end FocusVision
