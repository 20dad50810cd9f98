import FocusVision.Lib.FloatUnit

/-!
# Weighted means of floats between 0 and 1

`a * x + (1 - a) * y`, every operation rounded, of numbers from 0 to 1: a rounded
difference of 1 and `a` is up to half a unit in the last place too large, but that is
less than what the sum needs to round above 1.  A zero may have either sign.
-/

namespace FocusVision
namespace FloatFormat

variable {F : FloatFormat}

/-- Half of the distance from 1 to the next float. -/
def halfUlp (F : FloatFormat) : Nat :=
  2 ^ (F.unit - F.fraction - 1)

section One

variable (hunit : F.fraction + 1 ≤ F.unit)

include hunit

theorem unit_eq_halfUlp :
    2 ^ F.unit = 2 ^ (F.fraction + 1) * F.halfUlp := by
  unfold halfUlp
  rw [← pow_add]
  congr 1
  omega

/-- What is less than half a last place above 1 is rounded to 1. -/
theorem roundBits_above_one
    {n : Nat} (h : n < 2 ^ F.unit + F.halfUlp) :
    F.roundBits n 1 ≤ F.roundBits (2 ^ F.unit) 1 := by
  rcases Nat.le_total n (2 ^ F.unit) with hle | hge
  · exact F.roundBits_mono Nat.one_pos Nat.one_pos (by omega)
  · have hhalf := unit_eq_halfUlp hunit
    have hpos : 0 < F.halfUlp := Nat.two_pow_pos _
    have hsmall : F.halfUlp ≤ 2 ^ F.unit := by
      rw [hhalf]
      exact Nat.le_mul_of_pos_left _ (Nat.two_pow_pos _)
    have hwidth : 1 * 2 ^ (F.unit - F.fraction) = 2 * F.halfUlp := by
      rw [halfUlp, Nat.one_mul, ← Nat.pow_succ']
      congr 1
      omega
    -- both numbers are shifted alike
    have hshift : ∀ m, 2 ^ F.unit ≤ m → m < 2 ^ F.unit + F.halfUlp →
        F.shift (m / 1) = F.unit - F.fraction ∧
          roundEven m (1 * 2 ^ (F.unit - F.fraction)) = 2 ^ F.fraction := by
      intro m hlow hhigh
      have hlog : Nat.log2 m = F.unit := by
        rw [Nat.log2_eq_iff (by have := Nat.two_pow_pos F.unit; omega)]
        refine ⟨hlow, ?_⟩
        rw [pow_succ]
        omega
      have hquotient : m = 2 ^ F.fraction * (2 * F.halfUlp) + (m - 2 ^ F.unit) := by
        rw [pow_succ] at hhalf
        have hsame : 2 ^ F.fraction * (2 * F.halfUlp) = 2 ^ F.fraction * 2 * F.halfUlp := by
          ring
        omega
      refine ⟨by unfold shift; rw [Nat.div_one, hlog], ?_⟩
      have hrest : m - 2 ^ F.unit < 2 * F.halfUlp := by omega
      unfold roundEven
      rw [hwidth, hquotient, Nat.mul_comm (2 ^ F.fraction), Nat.mul_add_mod,
        Nat.mod_eq_of_lt hrest, Nat.mul_add_div (by omega), Nat.div_eq_of_lt hrest,
        if_pos (by omega), Nat.add_zero]
    obtain ⟨hs, hr⟩ := hshift n hge h
    obtain ⟨hs', hr'⟩ := hshift (2 ^ F.unit) (Nat.le_refl _) (by omega)
    unfold roundBits
    simp only [hs, hs', hr, hr']
    exact Nat.le_refl _

/-- Below 1, rounding adds less than half of the last place above it. -/
theorem units_roundBits_lt
    (hexp : F.fraction + 1 < 2 ^ (F.exponent - 1)) {n : Nat} (h : n ≤ 2 ^ F.unit) :
    F.units (F.roundBits n 1) < n + F.halfUlp := by
  have hhalf := unit_eq_halfUlp hunit
  have hpos : 0 < F.halfUlp := Nat.two_pow_pos _
  -- the next multiple of half a last place is a float
  obtain ⟨k, hk, hle, hlt⟩ : ∃ k, k ≤ 2 ^ (F.fraction + 1) ∧ n ≤ k * F.halfUlp ∧
      k * F.halfUlp < n + F.halfUlp := by
    refine ⟨(n + (F.halfUlp - 1)) / F.halfUlp, ?_, ?_, ?_⟩
    · rw [Nat.div_le_iff_le_mul hpos]
      omega
    · have hdiv := Nat.div_add_mod (n + (F.halfUlp - 1)) F.halfUlp
      have hmod := Nat.mod_lt (n + (F.halfUlp - 1)) hpos
      rw [Nat.mul_comm] at hdiv
      omega
    · have hdiv := Nat.div_mul_le_self (n + (F.halfUlp - 1)) F.halfUlp
      omega
  have hexact : F.units (F.roundBits (k * F.halfUlp) 1) = k * F.halfUlp := by
    have hone := @unit_lt_units_infBits F 1 Nat.one_le_two_pow hexp
    rcases Nat.lt_or_eq_of_le hk with hless | rfl
    · refine (units_roundBits_scaled hless ?_).2
      have hsmall := Nat.mul_le_mul_right F.halfUlp hk
      rw [← hhalf] at hsmall
      change k * F.halfUlp < _
      omega
    · rw [← hhalf]
      have hunits := units_roundBits (Nat.one_lt_two_pow (Nat.succ_ne_zero F.fraction)) hexp
      rw [Nat.one_mul] at hunits
      exact hunits.2
  calc F.units (F.roundBits n 1) ≤ F.units (F.roundBits (k * F.halfUlp) 1) :=
        F.units_mono (F.roundBits_mono Nat.one_pos Nat.one_pos (by omega))
    _ = k * F.halfUlp := hexact
    _ < n + F.halfUlp := hlt

end One

end FloatFormat

namespace Flt

open FloatFormat

variable {F : FloatFormat}

/-- A number from 0 to 1. -/
def InUnit (x : Flt F) : Prop :=
  ofNat 0 ≤ x ∧ x ≤ ofNat 1

instance (x : Flt F) : Decidable x.InUnit :=
  inferInstanceAs (Decidable (_ ∧ _))

/-- `is_finite`. -/
def isFinite (x : Flt F) : Bool :=
  decide (x.mag < F.infBits)

/-- `a * x + (1.0 - a) * y`. -/
def mean (a x y : Flt F) : Flt F :=
  add (mul a x) (mul (sub (ofNat 1) a) y)

/-- In bits: only a zero has a sign. -/
theorem inUnit_iff
    {x : Flt F} :
    x.InUnit ↔ x.mag ≤ (ofNat 1 : Flt F).mag ∧ (x.neg = true → x.mag = 0) := by
  have hone := nonneg_ofNat (F := F) 1
  have hzero := nonneg_ofNat (F := F) 0
  have hkeyOne : (ofNat 1 : Flt F).key = (ofNat 1 : Flt F).mag := by
    rw [key, hone.1, if_neg (by decide)]
  have hkeyZero : (ofNat 0 : Flt F).key = 0 := by
    rw [key, hzero.1, if_neg (by decide), ofNat_zero_mag]
    rfl
  unfold InUnit
  rw [le_def, le_def, hone.isNaN_eq_false, hzero.isNaN_eq_false, hkeyOne, hkeyZero]
  have hnan : x.isNaN = decide (F.infBits < x.mag) := rfl
  have hfinite := hone.2
  constructor
  · rintro ⟨⟨-, -, hlow⟩, -, -, hhigh⟩
    unfold key at hlow hhigh
    cases hneg : x.neg with
    | true =>
        rw [hneg, if_pos rfl] at hlow
        have hmag : x.mag = 0 := by omega
        exact ⟨by omega, fun _ => hmag⟩
    | false =>
        rw [hneg, if_neg (by decide)] at hhigh
        exact ⟨by omega, fun h => absurd h (by decide)⟩
  · rintro ⟨hle, hsign⟩
    have hnot : x.isNaN = false := by
      rw [hnan, decide_eq_false_iff_not]
      omega
    unfold key
    cases hneg : x.neg with
    | true =>
        rw [hsign hneg]
        exact ⟨⟨rfl, hnot, by simp⟩, hnot, rfl, by simp⟩
    | false =>
        rw [if_neg (by decide)]
        exact ⟨⟨rfl, hnot, by omega⟩, hnot, rfl, by omega⟩

/-- A finite product of any signs is rounded once. -/
theorem mul_finite
    {x y : Flt F} (hx : x.mag < F.infBits) (hy : y.mag < F.infBits) :
    mul x y = round (x.neg != y.neg) (F.units x.mag * F.units y.mag) (2 ^ F.unit) := by
  simp [mul, isNaN, isInfinite, Nat.not_lt.mpr (Nat.le_of_lt hx),
    Nat.not_lt.mpr (Nat.le_of_lt hy), Nat.ne_of_lt hx, Nat.ne_of_lt hy]

/-- The signed units of a number from 0 to 1 are its units. -/
theorem InUnit.signedUnits_eq
    {x : Flt F} (h : x.InUnit) :
    x.signedUnits = F.units x.mag := by
  unfold signedUnits
  split_ifs with hneg
  · rw [(inUnit_iff.mp h).2 hneg, units_zero]
    rfl
  · rfl

theorem clampUnit_inUnit
    {x : Flt F} (hx : x.isNaN = false) :
    (clampUnit x).InUnit := by
  have hle : (ofNat 0 : Flt F).mag ≤ (ofNat 1 : Flt F).mag := ofNat_mag_mono (by omega)
  unfold clampUnit
  split_ifs with hlow hhigh
  · exact inUnit_iff.mpr ⟨hle, fun _ => ofNat_zero_mag⟩
  · exact inUnit_iff.mpr ⟨Nat.le_refl _, fun h => absurd h Bool.false_ne_true⟩
  · exact ⟨le_of_not_lt (nonneg_ofNat 0).isNaN_eq_false hx hlow,
      le_of_not_lt hx (nonneg_ofNat 1).isNaN_eq_false hhigh⟩

section UnitInterval

variable (hexp : F.fraction + 1 < 2 ^ (F.exponent - 1))

include hexp

theorem InUnit.finite
    {x : Flt F} (h : x.InUnit) :
    x.mag < F.infBits :=
  Nat.lt_of_le_of_lt (inUnit_iff.mp h).1 (units_one hexp).1

/-- A product of numbers from 0 to 1 is one, and no larger than the first. -/
theorem InUnit.mul
    {x y : Flt F} (hx : x.InUnit) (hy : y.InUnit) :
    (Flt.mul x y).InUnit ∧ (Flt.mul x y).mag ≤ x.mag := by
  obtain ⟨hxle, hxsign⟩ := inUnit_iff.mp hx
  obtain ⟨hyle, hysign⟩ := inUnit_iff.mp hy
  have hxf := hx.finite hexp
  obtain ⟨-, hunits⟩ := units_one hexp
  have hround : (Flt.mul x y).mag = F.roundBits (F.units x.mag * F.units y.mag) (2 ^ F.unit) := by
    rw [mul_finite hxf (hy.finite hexp)]
    rfl
  have hle : (Flt.mul x y).mag ≤ x.mag := by
    have hyunits := F.units_mono hyle
    rw [hunits] at hyunits
    rw [hround]
    calc F.roundBits (F.units x.mag * F.units y.mag) (2 ^ F.unit)
        ≤ F.roundBits (F.units x.mag) 1 := by
          refine F.roundBits_mono (Nat.two_pow_pos _) Nat.one_pos ?_
          rw [Nat.mul_one]
          exact Nat.mul_le_mul_left _ hyunits
      _ = x.mag := roundBits_units hxf
  refine ⟨inUnit_iff.mpr ⟨Nat.le_trans hle hxle, fun hneg => ?_⟩, hle⟩
  have hzero : F.units x.mag * F.units y.mag = 0 := by
    rw [mul_finite hxf (hy.finite hexp)] at hneg
    have hsigns : (x.neg != y.neg) = true := hneg
    cases hxneg : x.neg with
    | true => rw [hxsign hxneg, units_zero, Nat.zero_mul]
    | false =>
        rw [hxneg, Bool.false_bne] at hsigns
        rw [hysign hsigns, units_zero, Nat.mul_zero]
  rw [hround, hzero, roundBits_zero]

/-- The difference of 1 and a number from 0 to 1, rounded once. -/
theorem InUnit.one_sub
    {a : Flt F} (ha : a.InUnit) :
    (sub (ofNat 1) a).neg = false ∧
      (sub (ofNat 1) a).mag = F.roundBits (2 ^ F.unit - F.units a.mag) 1 := by
  obtain ⟨honef, hunits⟩ := units_one hexp
  have haf := ha.finite hexp
  have hle := F.units_mono (inUnit_iff.mp ha).1
  rw [hunits] at hle
  have hone : (ofNat 1 : Flt F).signedUnits = (2 ^ F.unit : Nat) := by
    rw [← hunits]
    rfl
  have hdiff : (ofNat 1 : Flt F).signedUnits - a.signedUnits =
      (2 ^ F.unit - F.units a.mag : Nat) := by
    rw [hone, ha.signedUnits_eq]
    omega
  have hsub : sub (ofNat 1) a = round false (2 ^ F.unit - F.units a.mag) 1 := by
    have hpos : (ofNat 1 : Flt F).neg = false := rfl
    unfold sub
    simp only [hdiff, hpos, isNaN, isInfinite, Nat.not_lt.mpr (Nat.le_of_lt honef),
      Nat.not_lt.mpr (Nat.le_of_lt haf), Nat.ne_of_lt honef, Nat.ne_of_lt haf, decide_false,
      Bool.or_self, Bool.false_eq_true, if_false, Int.natAbs_natCast, Bool.and_false,
      Bool.false_and]
    have hnonneg : ¬ ((2 ^ F.unit - F.units a.mag : Nat) : Int) < 0 := by omega
    rw [decide_eq_false hnonneg, ite_self]
  rw [hsub]
  exact ⟨rfl, rfl⟩

/-- A sum of numbers from 0 to 1 is rounded once. -/
theorem InUnit.add_mag
    {x y : Flt F} (hx : x.InUnit) (hy : y.InUnit) :
    (add x y).mag = F.roundBits (F.units x.mag + F.units y.mag) 1 ∧
      ((add x y).neg = true → (add x y).mag = 0) := by
  have hxf := hx.finite hexp
  have hyf := hy.finite hexp
  have hsum : x.signedUnits + y.signedUnits = (F.units x.mag + F.units y.mag : Nat) := by
    rw [hx.signedUnits_eq, hy.signedUnits_eq]
    omega
  have hnonneg : ¬ ((F.units x.mag + F.units y.mag : Nat) : Int) < 0 := by omega
  have hadd : add x y = round
      (if ((F.units x.mag + F.units y.mag : Nat) : Int) = 0 then x.neg && y.neg else false)
      (F.units x.mag + F.units y.mag) 1 := by
    unfold add
    simp only [hsum, isNaN, isInfinite, Nat.not_lt.mpr (Nat.le_of_lt hxf),
      Nat.not_lt.mpr (Nat.le_of_lt hyf), Nat.ne_of_lt hxf, Nat.ne_of_lt hyf, decide_false,
      Bool.or_self, Bool.false_eq_true, if_false, Int.natAbs_natCast]
    rw [decide_eq_false hnonneg]
  rw [hadd]
  refine ⟨rfl, fun hneg => ?_⟩
  change F.roundBits (F.units x.mag + F.units y.mag) 1 = 0
  by_cases hzero : ((F.units x.mag + F.units y.mag : Nat) : Int) = 0
  · rw [Int.natCast_eq_zero.mp hzero, roundBits_zero]
  · simp only [round, if_neg hzero] at hneg
    exact absurd hneg (by decide)

/-- A mean of numbers from 0 to 1 is one. -/
theorem InUnit.mean
    (hunit : F.fraction + 1 ≤ F.unit) {a x y : Flt F} (ha : a.InUnit) (hx : x.InUnit)
    (hy : y.InUnit) :
    (Flt.mean a x y).InUnit := by
  obtain ⟨honef, hunits⟩ := units_one hexp
  have hale := F.units_mono (inUnit_iff.mp ha).1
  rw [hunits] at hale
  obtain ⟨hneg, hmag⟩ := ha.one_sub hexp
  have hrest : (sub (ofNat 1) a).InUnit := by
    refine inUnit_iff.mpr ⟨?_, fun h => absurd (hneg.symm.trans h) (by decide)⟩
    rw [hmag, ofNat_mag, Nat.one_mul]
    exact F.roundBits_mono Nat.one_pos Nat.one_pos (by omega)
  obtain ⟨hfirst, hfirstLe⟩ := ha.mul hexp hx
  obtain ⟨hsecond, hsecondLe⟩ := hrest.mul hexp hy
  obtain ⟨hsum, hsign⟩ := hfirst.add_mag hexp hsecond
  refine inUnit_iff.mpr ⟨?_, hsign⟩
  have hless := units_roundBits_lt hunit hexp
    (show 2 ^ F.unit - F.units a.mag ≤ 2 ^ F.unit from Nat.sub_le _ _)
  rw [← hmag] at hless
  have hfirstUnits := F.units_mono hfirstLe
  have hsecondUnits := F.units_mono hsecondLe
  calc (Flt.mean a x y).mag = F.roundBits (F.units (Flt.mul a x).mag +
        F.units (Flt.mul (sub (ofNat 1) a) y).mag) 1 := hsum
    _ ≤ F.roundBits (2 ^ F.unit) 1 := roundBits_above_one hunit (by omega)
    _ = (ofNat 1 : Flt F).mag := by rw [ofNat_mag, Nat.one_mul]

end UnitInterval

end Flt
end FocusVision
