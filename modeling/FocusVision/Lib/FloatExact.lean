import FocusVision.Lib.FloatOps

/-!
# Exact integers, and products

An integer that fits in the fraction is a float, so converting it there and back
changes nothing.  Products of floats that are not negative are monotone in both
factors, and a sum or product is only a NaN if an infinity is involved.
-/

namespace FocusVision
namespace FloatFormat

variable {F : FloatFormat}

theorem roundEven_mul_self
    (m : Nat) {d : Nat} (hd : 0 < d) :
    roundEven (m * d) d = m := by
  simp [roundEven, Nat.mul_div_cancel m hd, hd]

/-- A magnitude of the format is rounded to itself. -/
theorem roundBits_units
    {mag : Nat} (h : mag < F.infBits) :
    F.roundBits (F.units mag) 1 = mag := by
  have hfrac : mag % 2 ^ F.fraction < 2 ^ F.fraction := Nat.mod_lt _ (Nat.two_pow_pos _)
  have hmag := Nat.div_add_mod mag (2 ^ F.fraction)
  unfold units roundBits
  generalize mag % 2 ^ F.fraction = r at hfrac hmag ⊢
  split_ifs with hzero
  · -- subnormal: no shift
    rw [hzero, Nat.mul_zero, Nat.zero_add] at hmag
    have hshift : F.shift (r / 1) = 0 := by
      unfold shift
      rcases Nat.eq_zero_or_pos r with rfl | hpos
      · simp [Nat.log2_zero]
      · have := (Nat.log2_lt (Nat.div_one r ▸ Nat.ne_of_gt hpos)).mpr (by simpa using hfrac)
        omega
    have hround := roundEven_mul_self r Nat.one_pos
    rw [Nat.mul_one] at hround
    simp only [hshift, pow_zero, Nat.mul_one, hround]
    omega
  · obtain ⟨e, he⟩ := Nat.exists_eq_succ_of_ne_zero hzero
    rw [he, Nat.succ_sub_one]
    rw [he] at hmag
    have hlog : Nat.log2 ((2 ^ F.fraction + r) * 2 ^ e) = F.fraction + e := by
      have hpos := Nat.two_pow_pos e
      have hne : (2 ^ F.fraction + r) * 2 ^ e ≠ 0 := Nat.mul_ne_zero (by omega) (by omega)
      rw [Nat.log2_eq_iff hne]
      refine ⟨?_, ?_⟩
      · rw [pow_add]
        exact Nat.mul_le_mul_right _ (Nat.le_add_right _ _)
      · rw [Nat.add_right_comm, pow_add]
        refine Nat.mul_lt_mul_of_pos_right ?_ hpos
        rw [pow_succ]
        omega
    have hshift : F.shift ((2 ^ F.fraction + r) * 2 ^ e / 1) = e := by
      unfold shift
      rw [Nat.div_one, hlog]
      omega
    simp only [hshift, Nat.one_mul, roundEven_mul_self _ (Nat.two_pow_pos e)]
    have hsucc : 2 ^ F.fraction * e.succ = e * 2 ^ F.fraction + 2 ^ F.fraction := by
      rw [Nat.mul_succ, Nat.mul_comm]
    omega

theorem lt_of_units_lt
    {a b : Nat} (h : F.units a < F.units b) :
    a < b := by
  by_contra hle
  exact absurd (F.units_mono (Nat.not_lt.mp hle)) (Nat.not_le.mpr h)

theorem units_infBits
    (hexp : 0 < F.exponent) :
    F.units F.infBits = 2 ^ (F.fraction + (2 ^ F.exponent - 2)) := by
  have htwo := Nat.one_lt_two_pow (Nat.ne_of_gt hexp)
  unfold units infBits
  rw [Nat.mul_div_cancel _ (Nat.two_pow_pos _), Nat.mul_mod_left, if_neg (by omega), pow_add]
  rfl

/-- A number that the fraction can hold, shifted, is a magnitude of the format. -/
theorem exists_units_eq
    (F : FloatFormat) {n : Nat} (hn : n < 2 ^ (F.fraction + 1)) (j : Nat) :
    ∃ mag, F.units mag = n * 2 ^ j := by
  rw [pow_succ] at hn
  induction j generalizing n with
  | zero =>
      refine ⟨n, ?_⟩
      unfold units
      rw [pow_zero, Nat.mul_one]
      rcases Nat.lt_or_ge n (2 ^ F.fraction) with hlt | hge
      · rw [if_pos (Nat.div_eq_of_lt hlt), Nat.mod_eq_of_lt hlt]
      · have hdiv : n / 2 ^ F.fraction = 1 := Nat.div_eq_of_lt_le (by omega) (by omega)
        have hmod := Nat.div_add_mod n (2 ^ F.fraction)
        rw [hdiv] at hmod
        rw [hdiv, if_neg (by omega), Nat.sub_self, pow_zero]
        omega
  | succ j ih =>
      rcases Nat.lt_or_ge n (2 ^ F.fraction) with hlt | hge
      · obtain ⟨mag, hmag⟩ := @ih (2 * n) (by omega)
        refine ⟨mag, hmag.trans ?_⟩
        rw [pow_succ]
        ring
      · refine ⟨2 ^ F.fraction * (j + 2) + (n - 2 ^ F.fraction), ?_⟩
        have hlow : n - 2 ^ F.fraction < 2 ^ F.fraction := by omega
        unfold units
        rw [Nat.mul_add_div (Nat.two_pow_pos _), Nat.div_eq_of_lt hlow, Nat.mul_add_mod,
          Nat.mod_eq_of_lt hlow, if_neg (by omega)]
        have hsig : 2 ^ F.fraction + (n - 2 ^ F.fraction) = n := by omega
        rw [hsig]
        rfl

/-- Such a number is rounded to itself, as long as it is finite. -/
theorem units_roundBits_scaled
    {n j : Nat} (hn : n < 2 ^ (F.fraction + 1)) (hfinite : n * 2 ^ j < F.units F.infBits) :
    F.roundBits (n * 2 ^ j) 1 < F.infBits ∧ F.units (F.roundBits (n * 2 ^ j) 1) = n * 2 ^ j := by
  obtain ⟨mag, hmag⟩ := exists_units_eq F hn j
  have hlt : mag < F.infBits := by
    rw [← hmag] at hfinite
    exact lt_of_units_lt hfinite
  rw [← hmag, roundBits_units hlt]
  exact ⟨hlt, rfl⟩

/-- `2 ^ (F.fraction + 1)` ones are a finite number. -/
theorem unit_lt_units_infBits
    {n : Nat} (hn : n ≤ 2 ^ (F.fraction + 1)) (hexp : F.fraction + 1 < 2 ^ (F.exponent - 1)) :
    n * 2 ^ F.unit < F.units F.infBits := by
  have hpos : 0 < F.exponent := by
    by_contra hzero
    have hz : F.exponent = 0 := by omega
    rw [hz] at hexp
    simp at hexp
  have htwo : 2 ^ F.exponent = 2 * 2 ^ (F.exponent - 1) := by
    rw [← Nat.pow_succ', Nat.succ_eq_add_one, Nat.sub_add_cancel hpos]
  have hunit : F.unit = 2 ^ (F.exponent - 1) - 2 + F.fraction := rfl
  rw [units_infBits hpos]
  calc n * 2 ^ F.unit ≤ 2 ^ (F.fraction + 1) * 2 ^ F.unit := Nat.mul_le_mul_right _ hn
    _ = 2 ^ (F.fraction + 1 + F.unit) := (pow_add _ _ _).symm
    _ < 2 ^ (F.fraction + (2 ^ F.exponent - 2)) := Nat.pow_lt_pow_right (by omega) (by omega)

/-- A number of whole units that the fraction can hold is rounded to itself. -/
theorem units_roundBits
    {n : Nat} (hn : n < 2 ^ (F.fraction + 1)) (hexp : F.fraction + 1 < 2 ^ (F.exponent - 1)) :
    F.roundBits (n * 2 ^ F.unit) 1 < F.infBits ∧
      F.units (F.roundBits (n * 2 ^ F.unit) 1) = n * 2 ^ F.unit :=
  units_roundBits_scaled hn (unit_lt_units_infBits (Nat.le_of_lt hn) hexp)

end FloatFormat

namespace Flt

open FloatFormat

variable {F : FloatFormat}

theorem eq_of_bits
    {x y : Flt F} (hneg : x.neg = y.neg) (hmag : x.mag = y.mag) :
    x = y := by
  cases x
  cases y
  cases hneg
  cases hmag
  rfl

/-! ### Integers -/

theorem ofNat_mag
    (n : Nat) :
    (ofNat n : Flt F).mag = F.roundBits (n * 2 ^ F.unit) 1 :=
  rfl

theorem ofNat_mag_mono
    {m n : Nat} (h : m ≤ n) :
    (ofNat m : Flt F).mag ≤ (ofNat n : Flt F).mag :=
  F.roundBits_mono Nat.one_pos Nat.one_pos
    (Nat.mul_le_mul_right _ (Nat.mul_le_mul_right _ h))

section Exact

variable (hexp : F.fraction + 1 < 2 ^ (F.exponent - 1))

include hexp

theorem units_ofNat
    {n : Nat} (hn : n < 2 ^ (F.fraction + 1)) :
    (ofNat n : Flt F).mag < F.infBits ∧ F.units (ofNat n : Flt F).mag = n * 2 ^ F.unit :=
  units_roundBits hn hexp

/-- An integer that the fraction can hold converts back to itself. -/
theorem toUnsigned_ofNat
    {n bits : Nat} (hn : n < 2 ^ (F.fraction + 1)) (hbits : n < 2 ^ bits) :
    (ofNat n : Flt F).toUnsigned bits = n := by
  obtain ⟨hfinite, hunits⟩ := units_ofNat hexp hn
  have hneg : (ofNat n : Flt F).neg = false := rfl
  unfold toUnsigned
  rw [hunits, Nat.mul_div_cancel n (Nat.two_pow_pos _)]
  simp only [isNaN, isInfinite, hneg, Bool.or_false, decide_eq_true_eq]
  rw [if_neg (by omega), if_neg (by omega)]
  omega

/-- A quotient of two integers that the fraction can hold is rounded once. -/
theorem div_ofNat
    {a b : Nat} (ha : a < 2 ^ (F.fraction + 1)) (hb : b < 2 ^ (F.fraction + 1))
    (hpos : 0 < b) :
    div (ofNat a : Flt F) (ofNat b) = ofRatio a b := by
  obtain ⟨haf, hua⟩ := units_ofNat hexp ha
  obtain ⟨hbf, hub⟩ := units_ofNat hexp hb
  have hunit := Nat.two_pow_pos F.unit
  have hzero : (ofNat b : Flt F).mag ≠ 0 := by
    intro h
    rw [h, units_zero] at hub
    have := Nat.mul_pos hpos hunit
    omega
  have hneg : ∀ n : Nat, (ofNat n : Flt F).neg = false := fun n => rfl
  have hdiv : div (ofNat a : Flt F) (ofNat b) =
      round false (a * 2 ^ F.unit * 2 ^ F.unit) (b * 2 ^ F.unit) := by
    simp only [div, isNaN, isInfinite, hua, hub, hneg, Nat.not_lt.mpr (Nat.le_of_lt haf),
      Nat.not_lt.mpr (Nat.le_of_lt hbf), Nat.ne_of_lt haf, Nat.ne_of_lt hbf, hzero,
      decide_false, Bool.or_self, Bool.false_eq_true, if_false, bne_self_eq_false]
  have hscaled : F.roundBits (a * 2 ^ F.unit * 2 ^ F.unit) (b * 2 ^ F.unit) =
      F.roundBits (a * 2 ^ F.unit) b := by
    have hden := Nat.mul_pos hpos hunit
    have hcross : a * 2 ^ F.unit * 2 ^ F.unit * b = a * 2 ^ F.unit * (b * 2 ^ F.unit) := by
      ring
    exact Nat.le_antisymm (F.roundBits_mono hden hpos (Nat.le_of_eq hcross))
      (F.roundBits_mono hpos hden (Nat.le_of_eq hcross.symm))
  rw [hdiv]
  simp only [ofRatio, round, hscaled]

end Exact

/-! ### Products -/

/-- A float that is not negative, nor a NaN. -/
def Nonneg (x : Flt F) : Prop :=
  x.neg = false ∧ x.mag ≤ F.infBits

theorem nonneg_ofRatio
    (num den : Nat) :
    (ofRatio num den : Flt F).Nonneg :=
  ⟨rfl, F.roundBits_le _ _⟩

theorem Nonneg.isNaN_eq_false
    {x : Flt F} (h : x.Nonneg) :
    x.isNaN = false :=
  decide_eq_false (Nat.not_lt.mpr h.2)

theorem Nonneg.le_iff
    {x y : Flt F} (hx : x.Nonneg) (hy : y.Nonneg) :
    x ≤ y ↔ x.mag ≤ y.mag := by
  rw [le_def, hx.isNaN_eq_false, hy.isNaN_eq_false]
  unfold key
  rw [hx.1, hy.1]
  simp

theorem Nonneg.lt_iff
    {x y : Flt F} (hx : x.Nonneg) (hy : y.Nonneg) :
    x < y ↔ x.mag < y.mag := by
  rw [lt_def, hx.isNaN_eq_false, hy.isNaN_eq_false]
  unfold key
  rw [hx.1, hy.1]
  simp

/-- A finite product is rounded once. -/
theorem mul_eq_round
    {x m : Flt F} (hx : x.neg = false) (hxf : x.mag < F.infBits) (hm : m.neg = false)
    (hmf : m.mag < F.infBits) :
    mul x m = round false (F.units x.mag * F.units m.mag) (2 ^ F.unit) := by
  simp [mul, isNaN, isInfinite, hx, hm, Nat.not_lt.mpr (Nat.le_of_lt hxf),
    Nat.not_lt.mpr (Nat.le_of_lt hmf), Nat.ne_of_lt hxf, Nat.ne_of_lt hmf]

theorem mul_inf
    {x m : Flt F} (hx : x.neg = false) (hxf : x.mag = F.infBits) (hm : m.neg = false)
    (hpos : 0 < m.mag) (hmf : m.mag < F.infBits) :
    mul x m = inf false := by
  have hzero : ¬ F.infBits = 0 := by omega
  have hmzero : ¬ m.mag = 0 := by omega
  simp [mul, isNaN, isInfinite, hx, hm, hxf, Nat.not_lt.mpr (Nat.le_of_lt hmf),
    hzero, hmzero]

/-- A product with a finite positive factor is not a NaN. -/
theorem Nonneg.mul
    {x m : Flt F} (hx : x.Nonneg) (hm : m.neg = false) (hpos : 0 < m.mag)
    (hmf : m.mag < F.infBits) :
    (Flt.mul x m).Nonneg := by
  rcases Nat.lt_or_eq_of_le hx.2 with hfinite | hinf
  · rw [mul_eq_round hx.1 hfinite hm hmf]
    exact ⟨rfl, F.roundBits_le _ _⟩
  · rw [mul_inf hx.1 hinf hm hpos hmf]
    exact ⟨rfl, Nat.le_refl _⟩

/-- A finite product grows with both factors. -/
theorem mul_mag_mono_finite
    {x y m k : Flt F} (hx : x.neg = false) (hy : y.neg = false) (hxy : x.mag ≤ y.mag)
    (hyf : y.mag < F.infBits) (hm : m.neg = false) (hk : k.neg = false)
    (hmk : m.mag ≤ k.mag) (hkf : k.mag < F.infBits) :
    (mul x m).mag ≤ (mul y k).mag := by
  rw [mul_eq_round hx (Nat.lt_of_le_of_lt hxy hyf) hm (Nat.lt_of_le_of_lt hmk hkf),
    mul_eq_round hy hyf hk hkf]
  refine F.roundBits_mono (Nat.two_pow_pos _) (Nat.two_pow_pos _) ?_
  exact Nat.mul_le_mul_right _ (Nat.mul_le_mul (F.units_mono hxy) (F.units_mono hmk))

/-- A product grows with both factors. -/
theorem mul_mag_mono
    {x y m k : Flt F} (hx : x.Nonneg) (hy : y.Nonneg) (hxy : x.mag ≤ y.mag)
    (hm : m.neg = false) (hk : k.neg = false) (hpos : 0 < m.mag) (hmk : m.mag ≤ k.mag)
    (hkf : k.mag < F.infBits) :
    (mul x m).mag ≤ (mul y k).mag := by
  have hmf := Nat.lt_of_le_of_lt hmk hkf
  rcases Nat.lt_or_eq_of_le hy.2 with hfinite | hinf
  · exact mul_mag_mono_finite hx.1 hy.1 hxy hfinite hm hk hmk hkf
  · rw [mul_inf hy.1 hinf hk (Nat.lt_of_lt_of_le hpos hmk) hkf]
    exact (hx.mul hm hpos hmf).2

/-- A finite sum is rounded once. -/
theorem add_eq_round
    {x y : Flt F} (hx : x.neg = false) (hxf : x.mag < F.infBits) (hy : y.neg = false)
    (hyf : y.mag < F.infBits) :
    add x y = round false (F.units x.mag + F.units y.mag) 1 := by
  have hsum : ¬ ((F.units x.mag : Int) + F.units y.mag < 0) := by omega
  have habs : ((F.units x.mag : Int) + F.units y.mag).natAbs =
      F.units x.mag + F.units y.mag := by omega
  simp [add, signedUnits, isNaN, isInfinite, hx, hy, Nat.not_lt.mpr (Nat.le_of_lt hxf),
    Nat.not_lt.mpr (Nat.le_of_lt hyf), Nat.ne_of_lt hxf, Nat.ne_of_lt hyf, hsum, habs]

/-- A finite sum grows with both terms. -/
theorem add_mag_mono
    {x y p q : Flt F} (hx : x.neg = false) (hp : p.neg = false) (hxp : x.mag ≤ p.mag)
    (hpf : p.mag < F.infBits) (hy : y.neg = false) (hq : q.neg = false)
    (hyq : y.mag ≤ q.mag) (hqf : q.mag < F.infBits) :
    (add x y).mag ≤ (add p q).mag := by
  rw [add_eq_round hx (Nat.lt_of_le_of_lt hxp hpf) hy (Nat.lt_of_le_of_lt hyq hqf),
    add_eq_round hp hpf hq hqf]
  refine F.roundBits_mono Nat.one_pos Nat.one_pos (Nat.mul_le_mul_right _ ?_)
  exact Nat.add_le_add (F.units_mono hxp) (F.units_mono hyq)

section ExactProducts

variable (hexp : F.fraction + 1 < 2 ^ (F.exponent - 1)) {c n bits : Nat} {m : Flt F}
variable (hc : c < 2 ^ (F.fraction + 1)) (hn : n < 2 ^ (F.fraction + 1)) (hbits : n < 2 ^ bits)
variable (hm : m.neg = false) (hmf : m.mag < F.infBits)

include hexp hc hm hmf

theorem mul_ofNat_eq_round :
    mul (ofNat c) m = round false (c * 2 ^ F.unit * F.units m.mag) (2 ^ F.unit) := by
  obtain ⟨hfinite, hunits⟩ := units_ofNat hexp hc
  rw [mul_eq_round rfl hfinite hm hmf, hunits]

include hn hbits

/-- A product of at most `n` is rounded to at most `n`. -/
theorem toUnsigned_mul_ofNat_le
    (h : c * F.units m.mag ≤ n * 2 ^ F.unit) :
    (mul (ofNat c) m).toUnsigned bits ≤ n := by
  have hmag : (mul (ofNat c) m).mag ≤ (ofNat n : Flt F).mag := by
    rw [mul_ofNat_eq_round hexp hc hm hmf]
    refine F.roundBits_mono (Nat.two_pow_pos _) Nat.one_pos ?_
    rw [Nat.mul_one]
    calc c * 2 ^ F.unit * F.units m.mag = c * F.units m.mag * 2 ^ F.unit := by ring
      _ ≤ n * 2 ^ F.unit * 2 ^ F.unit := Nat.mul_le_mul_right _ h
  rw [mul_ofNat_eq_round hexp hc hm hmf] at hmag ⊢
  have hmono := toUnsigned_mono bits rfl rfl (nonneg_ofRatio n 1).2 hmag
  exact Nat.le_trans hmono (Nat.le_of_eq (toUnsigned_ofNat hexp hn hbits))

/-- A product of at least `n` is rounded to at least `n`. -/
theorem le_toUnsigned_mul_ofNat
    (h : n * 2 ^ F.unit ≤ c * F.units m.mag) :
    n ≤ (mul (ofNat c) m).toUnsigned bits := by
  have hmag : (ofNat n : Flt F).mag ≤ (mul (ofNat c) m).mag := by
    rw [mul_ofNat_eq_round hexp hc hm hmf]
    refine F.roundBits_mono Nat.one_pos (Nat.two_pow_pos _) ?_
    rw [Nat.mul_one]
    calc n * 2 ^ F.unit * 2 ^ F.unit ≤ c * F.units m.mag * 2 ^ F.unit :=
          Nat.mul_le_mul_right _ h
      _ = c * 2 ^ F.unit * F.units m.mag := by ring
  rw [mul_ofNat_eq_round hexp hc hm hmf] at hmag ⊢
  have hmono := toUnsigned_mono bits rfl rfl (F.roundBits_le _ _) hmag
  exact Nat.le_trans (Nat.le_of_eq (toUnsigned_ofNat hexp hn hbits).symm) hmono

end ExactProducts

/-! ### No NaN -/

theorem isNaN_inf
    (neg : Bool) :
    (inf neg : Flt F).isNaN = false :=
  decide_eq_false (Nat.lt_irrefl _)

theorem isNaN_of_finite
    {x : Flt F} (h : x.mag < F.infBits) :
    x.isNaN = false :=
  decide_eq_false (Nat.not_lt.mpr (Nat.le_of_lt h))

/-- A product with a finite factor that is not zero is not a NaN. -/
theorem isNaN_mul
    {m x : Flt F} (hm : m.mag < F.infBits) (hzero : m.mag ≠ 0) (hx : x.isNaN = false) :
    (mul m x).isNaN = false := by
  have hmf : m.isInfinite = false := decide_eq_false (Nat.ne_of_lt hm)
  unfold mul
  rw [isNaN_of_finite hm, hx, hmf]
  simp only [Bool.or_self, Bool.false_eq_true, if_false, Bool.false_or]
  split_ifs with hinf hnan
  · -- the product with an infinity: neither factor is zero
    exfalso
    rw [isInfinite, decide_eq_true_eq] at hinf
    rcases hnan with h | h
    · exact hzero h
    · omega
  · exact isNaN_inf _
  · exact isNaN_round _ _ _

/-- A sum with a finite term is not a NaN. -/
theorem isNaN_add
    {x y : Flt F} (hx : x.mag < F.infBits) (hy : y.isNaN = false) :
    (add x y).isNaN = false := by
  have hxf : x.isInfinite = false := decide_eq_false (Nat.ne_of_lt hx)
  unfold add
  rw [isNaN_of_finite hx, hy, hxf]
  cases y.isInfinite with
  | true => exact hy
  | false => exact isNaN_round _ _ _

/-- The magnitude of a product with a factor of at most 1. -/
theorem mul_mag_le
    {m x : Flt F} {bound : Nat} (hm : m.mag < F.infBits) (hx : x.mag < F.infBits)
    (hunit : F.units m.mag ≤ 2 ^ F.unit) (hbound : F.units x.mag ≤ bound * 2 ^ F.unit) :
    (mul m x).mag ≤ (ofNat bound : Flt F).mag := by
  have hmul : (mul m x).mag = F.roundBits (F.units m.mag * F.units x.mag) (2 ^ F.unit) := by
    simp [mul, isNaN, isInfinite, round, Nat.not_lt.mpr (Nat.le_of_lt hm),
      Nat.not_lt.mpr (Nat.le_of_lt hx), Nat.ne_of_lt hm, Nat.ne_of_lt hx]
  rw [hmul, ofNat_mag]
  refine F.roundBits_mono (Nat.two_pow_pos _) Nat.one_pos ?_
  rw [Nat.mul_one, Nat.mul_comm (bound * 2 ^ F.unit)]
  exact Nat.mul_le_mul hunit hbound

end Flt

theorem f64_nonneg
    (num den : Nat) :
    (f64 num den).Nonneg :=
  Flt.nonneg_ofRatio num den

theorem f64_mag_mono
    {a b c d : Nat} (hb : 0 < b) (hd : 0 < d) (h : a * d ≤ c * b) :
    (f64 a b).mag ≤ (f64 c d).mag :=
  ((f64_nonneg a b).le_iff (f64_nonneg c d)).mp (Flt.ofRatio_le hb hd h)

end FocusVision
