import FocusVision.Lib.FloatExact

/-!
# Floats between 0 and 1

Fractions, and the way from a fraction to 1.  The difference of 1 and a fraction of
at least one half is exact, so an interpolation between the two ends at 1 and stays
below it before; it grows with its parameter.
-/

namespace FocusVision
namespace Flt

open FloatFormat

variable {F : FloatFormat}

/-- A float from 0 to 1, not a negative zero. -/
def Fraction (x : Flt F) : Prop :=
  x.neg = false ∧ x.mag ≤ (ofNat 1 : Flt F).mag

/-- `clamp(0.0, 1.0)`. -/
def clampUnit (x : Flt F) : Flt F :=
  if x < ofNat 0 then ofNat 0 else if ofNat 1 < x then ofNat 1 else x

/-- `min`, which ignores a NaN. -/
def minNum (x y : Flt F) : Flt F :=
  if x.isNaN then y else if y < x then y else x

/-- `start + (1.0 - start) * progress`. -/
def towardsOne (start progress : Flt F) : Flt F :=
  add start (mul (sub (ofNat 1) start) progress)

theorem ofNat_zero_mag :
    (ofNat 0 : Flt F).mag = 0 := by
  rw [ofNat_mag, Nat.zero_mul, roundBits_zero]

theorem nonneg_ofNat
    (n : Nat) :
    (ofNat n : Flt F).Nonneg :=
  nonneg_ofRatio n 1

theorem clampUnit_mag
    {x : Flt F} (hx : x.Nonneg) :
    (clampUnit x).neg = false ∧ (clampUnit x).mag = min x.mag (ofNat 1 : Flt F).mag := by
  have hlow : ¬ x < ofNat 0 := by
    rw [hx.lt_iff (nonneg_ofNat 0), ofNat_zero_mag]
    exact Nat.not_lt_zero _
  unfold clampUnit
  rw [if_neg hlow]
  split_ifs with hhigh
  · rw [(nonneg_ofNat 1).lt_iff hx] at hhigh
    exact ⟨rfl, (Nat.min_eq_right (Nat.le_of_lt hhigh)).symm⟩
  · rw [(nonneg_ofNat 1).lt_iff hx] at hhigh
    exact ⟨hx.1, (Nat.min_eq_left (Nat.not_lt.mp hhigh)).symm⟩

theorem clampUnit_fraction
    {x : Flt F} (hx : x.Nonneg) :
    (clampUnit x).Fraction := by
  obtain ⟨hneg, hmag⟩ := clampUnit_mag hx
  exact ⟨hneg, by rw [hmag]; exact Nat.min_le_right _ _⟩

/-- A sum is at least its first term. -/
theorem le_add_mag
    {x y : Flt F} (hx : x.Nonneg) (hy : y.neg = false) (hyf : y.mag < F.infBits) :
    x.mag ≤ (add x y).mag := by
  rcases Nat.lt_or_eq_of_le hx.2 with hfinite | hinf
  · rw [add_eq_round hx.1 hfinite hy hyf]
    calc x.mag = F.roundBits (F.units x.mag) 1 := (roundBits_units hfinite).symm
      _ ≤ F.roundBits (F.units x.mag + F.units y.mag) 1 := by
          refine F.roundBits_mono Nat.one_pos Nat.one_pos ?_
          exact Nat.mul_le_mul_right _ (Nat.le_add_right _ _)
  · have hsum : add x y = x := by
      simp [add, isNaN, isInfinite, hinf, Nat.not_lt.mpr (Nat.le_of_lt hyf), Nat.ne_of_lt hyf]
    rw [hsum]

theorem add_nonneg
    {x y : Flt F} (hx : x.Nonneg) (hy : y.neg = false) (hyf : y.mag < F.infBits) :
    (add x y).Nonneg := by
  rcases Nat.lt_or_eq_of_le hx.2 with hfinite | hinf
  · rw [add_eq_round hx.1 hfinite hy hyf]
    exact ⟨rfl, F.roundBits_le _ _⟩
  · have hsum : add x y = x := by
      simp [add, isNaN, isInfinite, hinf, Nat.not_lt.mpr (Nat.le_of_lt hyf), Nat.ne_of_lt hyf]
    rw [hsum]
    exact hx

section Quotients

variable {x z y : Flt F} (hx : x.Nonneg) (hy : y.neg = false) (hpos : 0 < y.mag)
variable (hyf : y.mag < F.infBits)

include hx hy hpos hyf

theorem div_mag :
    (div x y).neg = false ∧
      (div x y).mag =
        if x.mag = F.infBits then F.infBits
        else F.roundBits (F.units x.mag * 2 ^ F.unit) (F.units y.mag) := by
  have hzero : ¬ y.mag = 0 := by omega
  have hnan : ¬ F.infBits < x.mag := Nat.not_lt.mpr hx.2
  by_cases hinf : x.mag = F.infBits
  · simp [div, isNaN, isInfinite, inf, hx.1, hy, hinf, Nat.not_lt.mpr (Nat.le_of_lt hyf),
      Nat.ne_of_lt hyf]
  · simp [div, isNaN, isInfinite, round, hx.1, hy, hinf, hzero, hnan,
      Nat.not_lt.mpr (Nat.le_of_lt hyf), Nat.ne_of_lt hyf]

theorem div_nonneg :
    (div x y).Nonneg := by
  obtain ⟨hneg, hmag⟩ := div_mag hx hy hpos hyf
  refine ⟨hneg, ?_⟩
  rw [hmag]
  split_ifs
  · exact Nat.le_refl _
  · exact F.roundBits_le _ _

/-- A quotient grows with its numerator. -/
theorem div_mag_mono
    (hz : z.Nonneg) (hxz : x.mag ≤ z.mag) (hunits : 0 < F.units y.mag) :
    (div x y).mag ≤ (div z y).mag := by
  rw [(div_mag hx hy hpos hyf).2, (div_mag hz hy hpos hyf).2]
  have hzf := hz.2
  by_cases hzinf : z.mag = F.infBits
  · rw [if_pos hzinf]
    split_ifs
    · exact Nat.le_refl _
    · exact F.roundBits_le _ _
  · rw [if_neg hzinf, if_neg (by omega)]
    refine F.roundBits_mono hunits hunits (Nat.mul_le_mul_right _ ?_)
    exact Nat.mul_le_mul_right _ (F.units_mono hxz)

end Quotients

section UnitInterval

variable (hexp : F.fraction + 1 < 2 ^ (F.exponent - 1))

include hexp

theorem units_one :
    (ofNat 1 : Flt F).mag < F.infBits ∧ F.units (ofNat 1 : Flt F).mag = 2 ^ F.unit := by
  have h := units_ofNat hexp (Nat.one_lt_two_pow (Nat.succ_ne_zero F.fraction))
  rw [Nat.one_mul] at h
  exact h

theorem Fraction.finite
    {x : Flt F} (h : x.Fraction) :
    x.mag < F.infBits :=
  Nat.lt_of_le_of_lt h.2 (units_one hexp).1

theorem Fraction.nonneg
    {x : Flt F} (h : x.Fraction) :
    x.Nonneg :=
  ⟨h.1, Nat.le_of_lt (h.finite hexp)⟩

/-- Times 1 changes nothing. -/
theorem mul_one_mag
    {x : Flt F} (hx : x.neg = false) (hxf : x.mag < F.infBits) :
    (mul x (ofNat 1)).mag = x.mag := by
  obtain ⟨hone, hunits⟩ := units_one hexp
  have hunit := Nat.two_pow_pos F.unit
  have hscaled : F.roundBits (F.units x.mag * 2 ^ F.unit) (2 ^ F.unit) =
      F.roundBits (F.units x.mag) 1 :=
    Nat.le_antisymm (F.roundBits_mono hunit Nat.one_pos (by rw [Nat.mul_one]))
      (F.roundBits_mono Nat.one_pos hunit (by rw [Nat.mul_one]))
  rw [mul_eq_round hx hxf rfl hone, hunits]
  exact hscaled.trans (roundBits_units hxf)

/-- A product with a fraction is no larger. -/
theorem mul_fraction
    {x p : Flt F} (hx : x.neg = false) (hxf : x.mag < F.infBits) (hp : p.Fraction) :
    (mul x p).neg = false ∧ (mul x p).mag ≤ x.mag := by
  refine ⟨?_, ?_⟩
  · rw [mul_eq_round hx hxf hp.1 (hp.finite hexp)]
    rfl
  · calc (mul x p).mag ≤ (mul x (ofNat 1)).mag :=
          mul_mag_mono_finite hx hx (Nat.le_refl _) hxf hp.1 rfl hp.2 (units_one hexp).1
      _ = x.mag := mul_one_mag hexp hx hxf

theorem minNum_fraction
    {x y : Flt F} (hx : x.Nonneg) (hy : y.Fraction) :
    (minNum x y).Fraction := by
  unfold minNum
  rw [hx.isNaN_eq_false, if_neg (by decide)]
  split_ifs with hless
  · exact hy
  · rw [(hy.nonneg hexp).lt_iff hx] at hless
    exact ⟨hx.1, Nat.le_trans (Nat.not_lt.mp hless) hy.2⟩

/-- A quotient of an integer and a fraction does not round down to 0. -/
theorem ceil_div_fraction_pos
    {x y : Flt F} {bits : Nat} (hbits : 0 < bits) (hx : x.neg = false)
    (hone : (ofNat 1 : Flt F).mag ≤ x.mag) (hxf : x.mag < F.infBits) (hy : y.Fraction) :
    1 ≤ (div x y).ceil.toUnsigned bits := by
  obtain ⟨honef, hunits⟩ := units_one hexp
  have hunit := Nat.two_pow_pos F.unit
  -- the quotient is at least 1
  have hquotient : (div x y).Nonneg ∧ (ofNat 1 : Flt F).mag ≤ (div x y).mag := by
    rcases Nat.eq_zero_or_pos y.mag with hzero | hpos
    · have hinf : div x y = inf false := by
        have hxpos : x.mag ≠ 0 := by
          intro h
          rw [h, Nat.le_zero] at hone
          rw [hone, units_zero] at hunits
          omega
        simp [div, isNaN, isInfinite, hx, hy.1, hzero, hxpos, Nat.not_lt.mpr
          (Nat.le_of_lt hxf), Nat.ne_of_lt hxf]
        omega
      rw [hinf]
      exact ⟨⟨rfl, Nat.le_refl _⟩, Nat.le_of_lt honef⟩
    · have hyf := hy.finite hexp
      have hxn : x.Nonneg := ⟨hx, Nat.le_of_lt hxf⟩
      refine ⟨div_nonneg hxn hy.1 hpos hyf, ?_⟩
      rw [(div_mag hxn hy.1 hpos hyf).2, if_neg (Nat.ne_of_lt hxf), ofNat_mag, Nat.one_mul]
      have hyunits : 0 < F.units y.mag := by
        rcases Nat.eq_zero_or_pos (F.units y.mag) with h0 | h
        · have hround := @roundBits_units F _ hyf
          rw [h0, roundBits_zero] at hround
          omega
        · exact h
      refine F.roundBits_mono Nat.one_pos hyunits ?_
      have hxunits := F.units_mono hone
      have hyle := F.units_mono hy.2
      rw [hunits] at hxunits hyle
      calc 2 ^ F.unit * F.units y.mag ≤ 2 ^ F.unit * 2 ^ F.unit :=
            Nat.mul_le_mul_left _ hyle
        _ ≤ F.units x.mag * 2 ^ F.unit * 1 := by
            rw [Nat.mul_one]
            exact Nat.mul_le_mul_right _ hxunits
  have hceil : (ofNat 1 : Flt F).ceil.mag = (ofNat 1 : Flt F).mag := by
    have hneg : (ofNat 1 : Flt F).neg = false := rfl
    have hround : (2 ^ F.unit + (2 ^ F.unit - 1)) / 2 ^ F.unit = 1 :=
      Nat.div_eq_of_lt_le (by omega) (by omega)
    simp only [ceil, isNaN, isInfinite, hneg, hunits, hround, Nat.not_lt.mpr
      (Nat.le_of_lt honef), Nat.ne_of_lt honef, decide_false, Bool.or_self,
      Bool.false_eq_true, if_false]
    rfl
  have hint : (ofNat 1 : Flt F).ceil.toUnsigned bits = 1 := by
    have hneg : (ofNat 1 : Flt F).ceil.neg = false := ceil_neg _
    have htwo := Nat.one_lt_two_pow (Nat.ne_of_gt hbits)
    unfold toUnsigned
    rw [hceil, hunits, Nat.div_self hunit]
    simp only [isNaN, isInfinite, hneg, hceil, Nat.not_lt.mpr (Nat.le_of_lt honef),
      Nat.ne_of_lt honef, decide_false, Bool.or_self, Bool.false_eq_true, if_false]
    omega
  rw [← hint]
  exact toUnsigned_mono bits (ceil_neg _) ((ceil_neg _).trans hquotient.1.1)
    (ceil_mag_le hquotient.1.1 hquotient.1.2)
    (ceil_mag_mono rfl hquotient.1.1 hquotient.1.2 hquotient.2)

section Complement

variable {s : Flt F} (hs : s.Fraction) (hhalf : 2 ^ F.unit ≤ 2 * F.units s.mag)

include hs hhalf

/-- The difference of 1 and a fraction of at least one half is not rounded. -/
theorem units_one_sub :
    (sub (ofNat 1) s).neg = false ∧ (sub (ofNat 1) s).mag < F.infBits ∧
      F.units (sub (ofNat 1) s).mag + F.units s.mag = 2 ^ F.unit := by
  obtain ⟨hone, hunits⟩ := units_one hexp
  have hsf := hs.finite hexp
  have hle : F.units s.mag ≤ 2 ^ F.unit := by
    rw [← hunits]
    exact F.units_mono hs.2
  have hsub : sub (ofNat 1) s = round false (2 ^ F.unit - F.units s.mag) 1 := by
    have hone' : (ofNat 1 : Flt F).neg = false := rfl
    have hnonneg : ¬ ((2 : Int) ^ F.unit - F.units s.mag < 0) := by
      have : ((2 ^ F.unit : Nat) : Int) = (2 : Int) ^ F.unit := by norm_num
      omega
    have habs : ((2 : Int) ^ F.unit - F.units s.mag).natAbs = 2 ^ F.unit - F.units s.mag := by
      have : ((2 ^ F.unit : Nat) : Int) = (2 : Int) ^ F.unit := by norm_num
      omega
    simp [sub, signedUnits, isNaN, isInfinite, hone', hs.1, hunits, Nat.not_lt.mpr
      (Nat.le_of_lt hone), Nat.not_lt.mpr (Nat.le_of_lt hsf), Nat.ne_of_lt hone,
      Nat.ne_of_lt hsf, hnonneg, habs]
  -- the difference is a number of the fraction's last place
  obtain ⟨n, j, hn, hd⟩ : ∃ n j, n < 2 ^ (F.fraction + 1) ∧
      2 ^ F.unit - F.units s.mag = n * 2 ^ j := by
    rcases Nat.lt_or_eq_of_le hle with hlt | heq
    · have hfrac : s.mag % 2 ^ F.fraction < 2 ^ F.fraction :=
        Nat.mod_lt _ (Nat.two_pow_pos _)
      unfold units at hhalf hlt ⊢
      generalize s.mag % 2 ^ F.fraction = r at hfrac hhalf hlt ⊢
      split_ifs at hhalf hlt ⊢
      · exact ⟨2 ^ F.unit - r, 0, by rw [pow_succ]; omega, by rw [pow_zero, Nat.mul_one]⟩
      · generalize s.mag / 2 ^ F.fraction - 1 = e at hhalf hlt ⊢
        have hlow : F.fraction + e < F.unit := by
          refine (Nat.pow_lt_pow_iff_right (by omega : 1 < 2)).mp (Nat.lt_of_le_of_lt ?_ hlt)
          rw [pow_add]
          exact Nat.mul_le_mul_right _ (Nat.le_add_right _ _)
        have hhigh : F.unit < F.fraction + 1 + e + 1 := by
          refine (Nat.pow_lt_pow_iff_right (by omega : 1 < 2)).mp (Nat.lt_of_le_of_lt hhalf ?_)
          have hpos := Nat.two_pow_pos e
          calc 2 * ((2 ^ F.fraction + r) * 2 ^ e) < 2 * (2 ^ (F.fraction + 1) * 2 ^ e) := by
                refine Nat.mul_lt_mul_of_pos_left ?_ (by omega)
                refine Nat.mul_lt_mul_of_pos_right ?_ hpos
                rw [pow_succ]
                omega
            _ = 2 ^ (F.fraction + 1 + e + 1) := by
                rw [pow_succ _ (F.fraction + 1 + e), pow_add _ (F.fraction + 1)]
                ring
        have hunit : F.unit = F.fraction + 1 + e := by omega
        refine ⟨2 ^ (F.fraction + 1) - (2 ^ F.fraction + r), e, ?_, ?_⟩
        · have := Nat.two_pow_pos F.fraction
          have := Nat.two_pow_pos (F.fraction + 1)
          omega
        · rw [hunit, pow_add, Nat.sub_mul]
    · exact ⟨0, 0, Nat.two_pow_pos _, by omega⟩
  have hfinite : n * 2 ^ j < F.units F.infBits := by
    have hall := @unit_lt_units_infBits F 1 Nat.one_le_two_pow hexp
    omega
  obtain ⟨hinf, hround⟩ := units_roundBits_scaled hn hfinite
  rw [hsub, hd]
  refine ⟨rfl, hinf, ?_⟩
  change F.units (F.roundBits (n * 2 ^ j) 1) + _ = _
  rw [hround]
  omega

/-- The way to 1 stays between its start and 1, and is longer with more progress. -/
theorem towardsOne_mag
    {p q : Flt F} (hp : p.Fraction) (hq : q.Fraction) (hpq : p.mag ≤ q.mag) :
    (towardsOne s p).neg = false ∧ s.mag ≤ (towardsOne s p).mag ∧
      (towardsOne s p).mag ≤ (towardsOne s q).mag ∧
      (towardsOne s q).mag ≤ (ofNat 1 : Flt F).mag := by
  obtain ⟨hneg, hfinite, hsum⟩ := units_one_sub hexp hs hhalf
  have hone := (units_one hexp).1
  obtain ⟨hpneg, hple⟩ := mul_fraction hexp hneg hfinite hp
  obtain ⟨hqneg, hqle⟩ := mul_fraction hexp hneg hfinite hq
  have hsf := hs.finite hexp
  refine ⟨?_, ?_, ?_, ?_⟩
  · rw [towardsOne, add_eq_round hs.1 hsf hpneg (Nat.lt_of_le_of_lt hple hfinite)]
    rfl
  · exact le_add_mag (hs.nonneg hexp) hpneg (Nat.lt_of_le_of_lt hple hfinite)
  · refine add_mag_mono hs.1 hs.1 (Nat.le_refl _) hsf hpneg hqneg ?_
      (Nat.lt_of_le_of_lt hqle hfinite)
    exact mul_mag_mono_finite hneg hneg (Nat.le_refl _) hfinite hp.1 hq.1 hpq (hq.finite hexp)
  · rw [towardsOne, add_eq_round hs.1 hsf hqneg (Nat.lt_of_le_of_lt hqle hfinite)]
    refine F.roundBits_mono Nat.one_pos Nat.one_pos ?_
    have := F.units_mono hqle
    omega

/-- With full progress, the way ends at 1. -/
theorem towardsOne_one
    {p : Flt F} (hp : p.Fraction) (hfull : p.mag = (ofNat 1 : Flt F).mag) :
    (towardsOne s p).mag = (ofNat 1 : Flt F).mag := by
  obtain ⟨hneg, hfinite, hsum⟩ := units_one_sub hexp hs hhalf
  have hsf := hs.finite hexp
  have hmul : (mul (sub (ofNat 1) s) p).mag = (sub (ofNat 1) s).mag := by
    have hone := mul_one_mag hexp hneg hfinite
    rw [mul_eq_round hneg hfinite rfl (units_one hexp).1] at hone
    rw [mul_eq_round hneg hfinite hp.1 (hp.finite hexp)]
    rw [← hfull] at hone
    exact hone
  have hmulNeg := (mul_fraction hexp hneg hfinite hp).1
  rw [towardsOne, add_eq_round hs.1 hsf hmulNeg (by rw [hmul]; exact hfinite), hmul,
    Nat.add_comm, hsum, ofNat_mag, Nat.one_mul]
  rfl

end Complement

end UnitInterval

end Flt
end FocusVision
