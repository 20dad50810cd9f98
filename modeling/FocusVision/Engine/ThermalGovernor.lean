import FocusVision.Engine.Config
import FocusVision.Lib.FloatUnit

/-!
# The thermal governor

`ThermalGovernor` of the engine's `thermal.rs`: it caps the bitrate by stages of the
GPU temperature and ramps the cap back once the GPU is cool.  The time and what the
sensor would say are inputs of `tickAt`; an `Instant` is a number of nanoseconds.
Left out: the log messages, and the NVML source.

The lemmas say where a multiplier can be, and what a reading below the warning
threshold makes of it: the ramp only climbs, and it reaches 1 after the recovery
time.
-/

namespace FocusVision
namespace Engine

def LIMIT_MULTIPLIER : F64 := f64 70 100
def EMERGENCY_MULTIPLIER : F64 := f64 50 100

/-- `1.0 - f64::EPSILON`. -/
def almostOne : F64 :=
  Flt.sub (f64 1 1) (f64 1 (2 ^ 52))

/-- `Recovery`: the ramp in progress. -/
structure Recovery where
  startedAt : Nat
  startMultiplier : F64

structure ThermalGovernor where
  enabled : Bool
  config : ThermalConfig
  lastPoll : Option Nat := none
  lastMultiplier : F64 := f64 1 1
  recovery : Option Recovery := none

/-- `Duration::as_secs_f64`. -/
def asSecsF64 (nanos : Nat) : F64 :=
  Flt.add (Flt.ofNat (nanos / 1000000000))
    (Flt.div (Flt.ofNat (nanos % 1000000000)) (Flt.ofNat 1000000000))

namespace ThermalGovernor

/-- The seconds that a ramp takes. -/
def rampSeconds (config : ThermalConfig) : Nat :=
  max config.recoverySeconds.toNat 1

/-- How far a ramp is after some time. -/
def progress (config : ThermalConfig) (elapsed : Nat) : F64 :=
  Flt.clampUnit (Flt.div (asSecsF64 elapsed) (Flt.ofNat (rampSeconds config)))

/-- The multiplier on a ramp. -/
def rampAt (config : ThermalConfig) (r : Recovery) (now : Nat) : F64 :=
  Flt.towardsOne r.startMultiplier (progress config (now - r.startedAt))

/-- The ramp of a reading below the warning threshold: the one in progress, or a new
one if a cap is in force. -/
def currentRamp (gov : ThermalGovernor) (now : Nat) : Option Recovery :=
  if gov.lastMultiplier < f64 1 1 ∧ gov.recovery.isNone then
    some ⟨now, gov.lastMultiplier⟩
  else gov.recovery

/-- The multiplier below the warning threshold, and the ramp that goes on. -/
def recover (gov : ThermalGovernor) (now : Nat) : F64 × Option Recovery :=
  match gov.currentRamp now with
  | some r =>
      let m := rampAt gov.config r now
      if almostOne ≤ m then (f64 1 1, none) else (m, some r)
  | none => (f64 1 1, none)

/-- What a poll makes of a reading: the multiplier, and the ramp that goes on. -/
def poll (gov : ThermalGovernor) (reading : Option UInt32) (now : Nat) :
    F64 × Option Recovery :=
  match reading with
  | none => (f64 1 1, gov.recovery) -- no cap, but the ramp is kept
  | some temp =>
      if gov.config.emergencyCelsius ≤ temp then (EMERGENCY_MULTIPLIER, none)
      else if gov.config.limitCelsius ≤ temp then (LIMIT_MULTIPLIER, none)
      else if gov.config.warnCelsius ≤ temp then (gov.lastMultiplier, none)
      else gov.recover now

/-- Is the poll interval not over yet? -/
def tooEarly (gov : ThermalGovernor) (now : Nat) : Bool :=
  match gov.lastPoll with
  | some prev => decide (now - prev < gov.config.pollIntervalSeconds.toNat * 1000000000)
  | none => false

/-- `tick_at`, with what the sensor would say. -/
def tickAt (gov : ThermalGovernor) (reading : Option UInt32) (now : Nat) :
    Option F64 × ThermalGovernor :=
  if !gov.enabled then (some (f64 1 1), { gov with lastMultiplier := f64 1 1, recovery := none })
  else if gov.tooEarly now then (none, gov)
  else
    let (multiplier, recovery) := gov.poll reading now
    (some multiplier,
      { gov with lastPoll := some now, lastMultiplier := multiplier, recovery })

end ThermalGovernor

/-! ### Multipliers -/

/-- A multiplier that leaves at least half of the bitrate. -/
def Share (x : F64) : Prop :=
  x.neg = false ∧ EMERGENCY_MULTIPLIER.mag ≤ x.mag ∧ x.mag ≤ (f64 1 1).mag

theorem thermal_facts :
    2 ^ FloatFormat.unit ⟨52, 11⟩ ≤
        2 * FloatFormat.units ⟨52, 11⟩ EMERGENCY_MULTIPLIER.mag ∧
      EMERGENCY_MULTIPLIER.mag < LIMIT_MULTIPLIER.mag ∧
      LIMIT_MULTIPLIER.mag < (f64 1 1).mag ∧
      almostOne.neg = false ∧ almostOne.mag < (f64 1 1).mag ∧
      (f64 1 1).mag < FloatFormat.infBits ⟨52, 11⟩ := by
  decide +kernel

theorem Share.fraction
    {x : F64} (h : Share x) :
    x.Fraction :=
  ⟨h.1, h.2.2⟩

theorem Share.nonneg
    {x : F64} (h : Share x) :
    x.Nonneg :=
  h.fraction.nonneg (by decide)

theorem Share.half
    {x : F64} (h : Share x) :
    2 ^ FloatFormat.unit ⟨52, 11⟩ ≤ 2 * FloatFormat.units ⟨52, 11⟩ x.mag :=
  Nat.le_trans thermal_facts.1 (Nat.mul_le_mul_left 2 (FloatFormat.units_mono _ h.2.1))

theorem Share.lt_one_iff
    {x : F64} (h : Share x) :
    x < f64 1 1 ↔ x.mag < (f64 1 1).mag :=
  h.nonneg.lt_iff (f64_nonneg 1 1)

theorem share_one :
    Share (f64 1 1) := by
  obtain ⟨-, hlow, hhigh, -⟩ := thermal_facts
  exact ⟨rfl, Nat.le_of_lt (Nat.lt_trans hlow hhigh), Nat.le_refl _⟩

theorem share_limit :
    Share LIMIT_MULTIPLIER := by
  obtain ⟨-, hlow, hhigh, -⟩ := thermal_facts
  exact ⟨rfl, Nat.le_of_lt hlow, Nat.le_of_lt hhigh⟩

theorem share_emergency :
    Share EMERGENCY_MULTIPLIER := by
  obtain ⟨-, hlow, hhigh, -⟩ := thermal_facts
  exact ⟨rfl, Nat.le_refl _, Nat.le_of_lt (Nat.lt_trans hlow hhigh)⟩

/-! ### Progress -/

theorem nanos_fraction
    (nanos : Nat) :
    (Flt.div (Flt.ofNat (nanos % 1000000000)) (Flt.ofNat 1000000000) : F64).Fraction ∧
      (Flt.div (Flt.ofNat (nanos % 1000000000)) (Flt.ofNat 1000000000) : F64) =
        Flt.ofRatio (nanos % 1000000000) 1000000000 := by
  have hlt := Nat.mod_lt nanos (by decide : 0 < 1000000000)
  generalize nanos % 1000000000 = n at hlt ⊢
  have hratio : (Flt.div (Flt.ofNat n) (Flt.ofNat 1000000000) : F64) =
      Flt.ofRatio n 1000000000 := by
    refine Flt.div_ofNat (by decide) ?_ (by decide) (by decide)
    change n < 2 ^ 53
    omega
  rw [hratio]
  exact ⟨⟨rfl, f64_mag_mono (by decide) (by decide) (by omega)⟩, rfl⟩

theorem asSecsF64_nonneg
    (nanos : Nat) :
    (asSecsF64 nanos).Nonneg := by
  have hfraction := (nanos_fraction nanos).1
  exact Flt.add_nonneg (Flt.nonneg_ofNat _) hfraction.1 (hfraction.finite (by decide))

/-- Whole seconds are not lost. -/
theorem le_asSecsF64
    (nanos : Nat) :
    (Flt.ofNat (nanos / 1000000000) : F64).mag ≤ (asSecsF64 nanos).mag := by
  have hfraction := (nanos_fraction nanos).1
  exact Flt.le_add_mag (Flt.nonneg_ofNat _) hfraction.1 (hfraction.finite (by decide))

/-- As long as seconds are exact, a longer time is no fewer of them. -/
theorem asSecsF64_mono
    {a b : Nat} (h : a ≤ b) (hb : b / 1000000000 < 2 ^ 52) :
    (asSecsF64 a).mag ≤ (asSecsF64 b).mag := by
  obtain ⟨hfa, hra⟩ := nanos_fraction a
  obtain ⟨hfb, hrb⟩ := nanos_fraction b
  have hexact : ∀ n, n ≤ 2 ^ 52 →
      (Flt.ofNat n : F64).mag < FloatFormat.infBits ⟨52, 11⟩ ∧
        FloatFormat.units ⟨52, 11⟩ (Flt.ofNat n : F64).mag =
          n * 2 ^ FloatFormat.unit ⟨52, 11⟩ := by
    intro n hn
    refine Flt.units_ofNat (by decide) ?_
    change n < 2 ^ 53
    omega
  have hfinite := fun n hn => (hexact n hn).1
  rcases Nat.lt_or_eq_of_le (Nat.div_le_div_right (c := 1000000000) h) with hlt | heq
  · -- the rest of the earlier time is at most a second
    refine Nat.le_trans ?_ (le_asSecsF64 b)
    obtain ⟨hone, hunits⟩ := hexact 1 (by decide)
    calc (asSecsF64 a).mag
        ≤ (Flt.add (Flt.ofNat (a / 1000000000)) (Flt.ofNat 1) : F64).mag :=
          Flt.add_mag_mono rfl rfl (Nat.le_refl _) (hfinite _ (by omega)) hfa.1 rfl hfa.2 hone
      _ = (Flt.ofNat (a / 1000000000 + 1) : F64).mag := by
          rw [Flt.add_eq_round rfl (hfinite _ (by omega)) rfl hone,
            (hexact _ (by omega)).2, hunits, ← Nat.add_mul]
          rfl
      _ ≤ (Flt.ofNat (b / 1000000000) : F64).mag := Flt.ofNat_mag_mono (by omega)
  · unfold asSecsF64
    rw [heq]
    refine Flt.add_mag_mono rfl rfl (Nat.le_refl _) (hfinite _ (by omega)) hfa.1 hfb.1 ?_
      (hfb.finite (by decide))
    rw [hra, hrb]
    refine f64_mag_mono (by decide) (by decide) (Nat.mul_le_mul_right _ ?_)
    omega

namespace ThermalGovernor

section Progress

variable (config : ThermalConfig)

theorem rampSeconds_bounds :
    0 < rampSeconds config ∧ rampSeconds config < 2 ^ 32 := by
  have := config.recoverySeconds.toNat_lt
  unfold rampSeconds
  omega

theorem rampSeconds_units :
    (0 < (Flt.ofNat (rampSeconds config) : F64).mag ∧
        (Flt.ofNat (rampSeconds config) : F64).mag < FloatFormat.infBits ⟨52, 11⟩) ∧
      0 < FloatFormat.units ⟨52, 11⟩ (Flt.ofNat (rampSeconds config) : F64).mag := by
  obtain ⟨hpos, hlt⟩ := rampSeconds_bounds config
  have hexact := @Flt.units_ofNat ⟨52, 11⟩ (by decide) (rampSeconds config)
    (Nat.lt_trans hlt (by decide))
  have hunits : 0 < FloatFormat.units ⟨52, 11⟩ (Flt.ofNat (rampSeconds config) : F64).mag := by
    rw [hexact.2]
    exact Nat.mul_pos hpos (Nat.two_pow_pos _)
  refine ⟨⟨?_, hexact.1⟩, hunits⟩
  rw [Nat.pos_iff_ne_zero]
  intro hzero
  rw [hzero, FloatFormat.units_zero] at hunits
  exact absurd hunits (Nat.lt_irrefl _)

theorem quotient_nonneg
    (elapsed : Nat) :
    (Flt.div (asSecsF64 elapsed) (Flt.ofNat (rampSeconds config))).Nonneg := by
  obtain ⟨⟨hpos, hfinite⟩, -⟩ := rampSeconds_units config
  exact Flt.div_nonneg (asSecsF64_nonneg _) rfl hpos hfinite

theorem progress_fraction
    (elapsed : Nat) :
    (progress config elapsed).Fraction :=
  Flt.clampUnit_fraction (quotient_nonneg config elapsed)

/-- The ramp is through once its seconds are over. -/
theorem progress_full
    {elapsed : Nat} (h : rampSeconds config ≤ elapsed / 1000000000) :
    (progress config elapsed).mag = (f64 1 1).mag := by
  obtain ⟨⟨hpos, hfinite⟩, hunits⟩ := rampSeconds_units config
  obtain ⟨hsecs, hlt⟩ := rampSeconds_bounds config
  have hle : (f64 1 1).mag ≤
      (Flt.div (asSecsF64 elapsed) (Flt.ofNat (rampSeconds config))).mag := by
    calc (f64 1 1).mag ≤ (f64 (rampSeconds config) (rampSeconds config)).mag :=
          f64_mag_mono (by decide) hsecs (by omega)
      _ = (Flt.div (Flt.ofNat (rampSeconds config))
            (Flt.ofNat (rampSeconds config)) : F64).mag := by
          rw [Flt.div_ofNat (by decide) (Nat.lt_trans hlt (by decide))
            (Nat.lt_trans hlt (by decide)) hsecs]
          rfl
      _ ≤ (Flt.div (asSecsF64 elapsed) (Flt.ofNat (rampSeconds config))).mag := by
          refine Flt.div_mag_mono (Flt.nonneg_ofNat _) rfl hpos hfinite (asSecsF64_nonneg _)
            ?_ hunits
          exact Nat.le_trans (Flt.ofNat_mag_mono h) (le_asSecsF64 elapsed)
  exact (Flt.clampUnit_mag (quotient_nonneg config elapsed)).2.trans (Nat.min_eq_right hle)

theorem progress_mono
    {a b : Nat} (h : a ≤ b) :
    (progress config a).mag ≤ (progress config b).mag := by
  by_cases hfull : rampSeconds config ≤ b / 1000000000
  · rw [progress_full config hfull]
    exact (progress_fraction config a).2
  · obtain ⟨⟨hpos, hfinite⟩, hunits⟩ := rampSeconds_units config
    have hlt := (rampSeconds_bounds config).2
    have hquotient : (Flt.div (asSecsF64 a) (Flt.ofNat (rampSeconds config))).mag ≤
        (Flt.div (asSecsF64 b) (Flt.ofNat (rampSeconds config))).mag :=
      Flt.div_mag_mono (asSecsF64_nonneg _) rfl hpos hfinite (asSecsF64_nonneg _)
        (asSecsF64_mono h (by omega)) hunits
    unfold progress
    rw [(Flt.clampUnit_mag (quotient_nonneg config a)).2,
      (Flt.clampUnit_mag (quotient_nonneg config b)).2]
    exact min_le_min hquotient (Nat.le_refl _)

end Progress

/-! ### The ramp -/

section Ramp

variable (config : ThermalConfig) {r : Recovery} (hr : Share r.startMultiplier)

include hr

theorem rampAt_share
    (now : Nat) :
    Share (rampAt config r now) := by
  have hp := progress_fraction config (now - r.startedAt)
  obtain ⟨hneg, hlow, hle, hhigh⟩ :=
    Flt.towardsOne_mag (by decide) hr.fraction hr.half hp hp (Nat.le_refl _)
  exact ⟨hneg, Nat.le_trans hr.2.1 hlow, Nat.le_trans hle hhigh⟩

theorem rampAt_mono
    {a b : Nat} (h : a ≤ b) :
    (rampAt config r a).mag ≤ (rampAt config r b).mag :=
  (Flt.towardsOne_mag (by decide) hr.fraction hr.half (progress_fraction config _)
    (progress_fraction config _) (progress_mono config (by omega))).2.2.1

theorem rampAt_full
    {now : Nat} (h : r.startedAt + rampSeconds config * 1000000000 ≤ now) :
    (rampAt config r now).mag = (f64 1 1).mag := by
  refine Flt.towardsOne_one (by decide) hr.fraction hr.half (progress_fraction config _)
    (progress_full config ?_)
  omega

end Ramp

/-- The governor's multipliers are shares, and its ramp began in the past. -/
structure Ok (gov : ThermalGovernor) (now : Nat) : Prop where
  multiplier : Share gov.lastMultiplier
  ramp : ∀ r, gov.recovery = some r → Share r.startMultiplier ∧ r.startedAt ≤ now

theorem Ok.later
    {gov : ThermalGovernor} {now later : Nat} (h : gov.Ok now) (hle : now ≤ later) :
    gov.Ok later :=
  ⟨h.multiplier, fun r hr => ⟨(h.ramp r hr).1, Nat.le_trans (h.ramp r hr).2 hle⟩⟩

/-- Below the warning threshold there is no cap, or a ramp goes on. -/
theorem recover_cases
    {gov : ThermalGovernor} {now : Nat} (h : gov.Ok now) :
    gov.recover now = (f64 1 1, none) ∨
      ∃ r, gov.currentRamp now = some r ∧ Share r.startMultiplier ∧ r.startedAt ≤ now ∧
        gov.recover now = (rampAt gov.config r now, some r) ∧
        (rampAt gov.config r now).mag < (f64 1 1).mag := by
  obtain ⟨-, -, -, hneg, halmost, hone⟩ := thermal_facts
  unfold recover
  cases hramp : gov.currentRamp now with
  | none => exact Or.inl rfl
  | some r =>
      have hr : Share r.startMultiplier ∧ r.startedAt ≤ now := by
        unfold currentRamp at hramp
        split_ifs at hramp
        · rw [← Option.some.inj hramp]
          exact ⟨h.multiplier, Nat.le_refl _⟩
        · exact h.ramp r hramp
      simp only
      split_ifs with hfull
      · exact Or.inl rfl
      · refine Or.inr ⟨r, rfl, hr.1, hr.2, rfl, ?_⟩
        have hbits : almostOne.Nonneg :=
          ⟨hneg, Nat.le_of_lt (Nat.lt_trans halmost hone)⟩
        rw [hbits.le_iff (rampAt_share _ hr.1 _).nonneg] at hfull
        omega

/-- With a ramp whose seconds are over, there is no cap. -/
theorem recover_full
    {gov : ThermalGovernor} {r : Recovery} {now : Nat} (hramp : gov.currentRamp now = some r)
    (hr : Share r.startMultiplier)
    (h : r.startedAt + rampSeconds gov.config * 1000000000 ≤ now) :
    gov.recover now = (f64 1 1, none) := by
  obtain ⟨-, -, -, hneg, halmost, hone⟩ := thermal_facts
  have hbits : almostOne.Nonneg := ⟨hneg, Nat.le_of_lt (Nat.lt_trans halmost hone)⟩
  have hfull : almostOne ≤ rampAt gov.config r now := by
    rw [hbits.le_iff (rampAt_share _ hr _).nonneg, rampAt_full _ hr h]
    exact Nat.le_of_lt halmost
  unfold recover
  rw [hramp]
  exact if_pos hfull

/-- What a poll leaves is in order. -/
theorem Ok.poll
    {gov : ThermalGovernor} {now : Nat} (h : gov.Ok now) (reading : Option UInt32)
    (lastPoll : Option Nat) :
    Ok { gov with
      lastPoll
      lastMultiplier := (gov.poll reading now).1
      recovery := (gov.poll reading now).2 } now := by
  unfold ThermalGovernor.poll
  cases reading with
  | none => exact ⟨share_one, h.ramp⟩
  | some temp =>
      simp only
      split_ifs
      · exact ⟨share_emergency, by simp⟩
      · exact ⟨share_limit, by simp⟩
      · exact ⟨h.multiplier, by simp⟩
      · rcases recover_cases h with heq | ⟨r, -, hr, hstart, heq, -⟩
        · rw [heq]
          exact ⟨share_one, by simp⟩
        · rw [heq]
          refine ⟨rampAt_share _ hr _, ?_⟩
          rintro r' hr'
          rw [← Option.some.inj hr']
          exact ⟨hr, hstart⟩

end ThermalGovernor
end Engine
end FocusVision
