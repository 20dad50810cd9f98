import Mathlib.Data.Nat.Log
import Mathlib.Algebra.Order.Ring.Nat
import Mathlib.Algebra.Order.Group.Nat
import Mathlib.Tactic.Ring

/-!
# Binary floating-point formats

A float of a format is its bits: a sign, and exponent and fraction read as one
number `mag`.  Finite magnitudes grow with `mag`, so comparisons compare the
bits, and rounding to nearest (ties to even) can be computed on `mag` as well.
Magnitudes are counted in units of the smallest subnormal number.

The main result is that rounding is monotone; from it the arithmetic of
non-negative floats is monotone.
-/

namespace FocusVision

/-- Widths of the fraction and exponent fields. -/
structure FloatFormat where
  fraction : Nat
  exponent : Nat

namespace FloatFormat

/-- The bits of an infinity, without the sign. -/
def infBits (F : FloatFormat) : Nat :=
  (2 ^ F.exponent - 1) * 2 ^ F.fraction

/-- The number 1 has `2 ^ F.unit` units. -/
def unit (F : FloatFormat) : Nat :=
  2 ^ (F.exponent - 1) - 2 + F.fraction

/-- Magnitude of the bits `mag`, in units. -/
def units (F : FloatFormat) (mag : Nat) : Nat :=
  if mag / 2 ^ F.fraction = 0 then mag % 2 ^ F.fraction
  else (2 ^ F.fraction + mag % 2 ^ F.fraction) * 2 ^ (mag / 2 ^ F.fraction - 1)

/-- `num / den` rounded to an integer, ties to even. -/
def roundEven (num den : Nat) : Nat :=
  if 2 * (num % den) < den then num / den
  else if den < 2 * (num % den) then num / den + 1
  else num / den + num / den % 2

/-- How far a magnitude of `q` units is shifted to fit the fraction. -/
def shift (F : FloatFormat) (q : Nat) : Nat :=
  Nat.log2 q - F.fraction

/-- Bits of `num / den` units, rounded to nearest. -/
def roundBits (F : FloatFormat) (num den : Nat) : Nat :=
  let s := F.shift (num / den)
  min (s * 2 ^ F.fraction + roundEven num (den * 2 ^ s)) F.infBits

end FloatFormat

/-- A float: its sign, and the other bits as a number. -/
structure Flt (F : FloatFormat) where
  neg : Bool
  mag : Nat
  mag_lt : mag < 2 ^ (F.fraction + F.exponent)
deriving DecidableEq

namespace FloatFormat

theorem infBits_lt
    (F : FloatFormat) :
    F.infBits < 2 ^ (F.fraction + F.exponent) := by
  unfold infBits
  rw [pow_add, Nat.mul_comm (2 ^ F.fraction)]
  have h1 := Nat.two_pow_pos F.exponent
  exact Nat.mul_lt_mul_of_pos_right (by omega) (Nat.two_pow_pos _)

theorem roundBits_le
    (F : FloatFormat) (num den : Nat) :
    F.roundBits num den ≤ F.infBits :=
  Nat.min_le_right _ _

theorem units_zero
    (F : FloatFormat) :
    F.units 0 = 0 := by
  simp [units]

theorem roundBits_zero
    (F : FloatFormat) (den : Nat) :
    F.roundBits 0 den = 0 := by
  simp [roundBits, shift, roundEven, Nat.log2_zero]

/-- Rounding passes `k` above `k + 1/2`, and at `k + 1/2` if `k` is odd. -/
theorem lt_roundEven_iff
    {a b k : Nat} (hb : 0 < b) :
    k < roundEven a b ↔
      (2 * k + 1) * b < 2 * a ∨ (2 * k + 1) * b = 2 * a ∧ k % 2 = 1 := by
  have hdiv := Nat.div_add_mod a b
  have hmod := Nat.mod_lt a hb
  have hlow : a / b ≤ roundEven a b := by
    unfold roundEven
    split_ifs <;> omega
  have hhigh : roundEven a b ≤ a / b + 1 := by
    unfold roundEven
    split_ifs <;> omega
  rcases Nat.lt_trichotomy k (a / b) with hlt | heq | hgt
  · have h : (2 * k + 1) * b + b ≤ 2 * (b * (a / b)) := by
      calc (2 * k + 1) * b + b = 2 * (b * (k + 1)) := by ring
        _ ≤ 2 * (b * (a / b)) :=
            Nat.mul_le_mul_left 2 (Nat.mul_le_mul_left b hlt)
    constructor
    · intro _
      exact Or.inl (by omega)
    · intro _
      omega
  · have h : (2 * k + 1) * b = 2 * (b * (a / b)) + b := by
      rw [heq]
      ring
    unfold roundEven
    rw [h, ← heq]
    rw [← heq] at hdiv
    split_ifs <;> omega
  · have h : 2 * (b * (a / b)) + 3 * b ≤ (2 * k + 1) * b := by
      calc 2 * (b * (a / b)) + 3 * b = (2 * (a / b + 1) + 1) * b := by ring
        _ ≤ (2 * k + 1) * b := Nat.mul_le_mul_right b (by omega)
    constructor
    · intro _
      omega
    · intro _
      omega

/-- Rounding to an integer is monotone. -/
theorem roundEven_mono
    {a b c d : Nat} (hb : 0 < b) (hd : 0 < d) (h : a * d ≤ c * b) :
    roundEven a b ≤ roundEven c d := by
  refine le_of_forall_lt fun k hk => ?_
  rw [lt_roundEven_iff hb] at hk
  rw [lt_roundEven_iff hd]
  have hle : (2 * k + 1) * b ≤ 2 * a := by omega
  have hscaled : (2 * k + 1) * d * b ≤ 2 * c * b := by
    calc (2 * k + 1) * d * b = (2 * k + 1) * b * d := by ring
      _ ≤ 2 * a * d := Nat.mul_le_mul_right d hle
      _ = 2 * (a * d) := by ring
      _ ≤ 2 * (c * b) := Nat.mul_le_mul_left 2 h
      _ = 2 * c * b := by ring
  rcases Nat.lt_or_eq_of_le (Nat.le_of_mul_le_mul_right hscaled hb) with hlt | heq
  · exact Or.inl hlt
  · -- at the midpoint on the right, the left is at the midpoint too
    refine Or.inr ⟨heq, ?_⟩
    rcases hk with hlt | ⟨-, hodd⟩
    · have h1 : (2 * k + 1) * d * b < 2 * c * b := by
        calc (2 * k + 1) * d * b = (2 * k + 1) * b * d := by ring
          _ < 2 * a * d := Nat.mul_lt_mul_of_pos_right hlt hd
          _ = 2 * (a * d) := by ring
          _ ≤ 2 * (c * b) := Nat.mul_le_mul_left 2 h
          _ = 2 * c * b := by ring
      rw [heq] at h1
      exact absurd h1 (Nat.lt_irrefl _)
    · exact hodd

theorem roundEven_le
    {a b k : Nat} (hb : 0 < b) (h : a ≤ k * b) :
    roundEven a b ≤ k := by
  have hmono := @roundEven_mono a b k 1 hb Nat.one_pos (by omega)
  simpa [roundEven, Nat.mod_one] using hmono

theorem le_roundEven
    {a b k : Nat} (hb : 0 < b) (h : k * b ≤ a) :
    k ≤ roundEven a b := by
  have hmono := @roundEven_mono k 1 a b Nat.one_pos hb (by omega)
  simpa [roundEven, Nat.mod_one] using hmono

section Rounding

variable (F : FloatFormat)

/-- Magnitudes grow with their bits. -/
theorem units_mono
    {a b : Nat} (h : a ≤ b) :
    F.units a ≤ F.units b := by
  have hfrac : a % 2 ^ F.fraction < 2 ^ F.fraction := Nat.mod_lt a (Nat.two_pow_pos _)
  have hexp : a / 2 ^ F.fraction ≤ b / 2 ^ F.fraction := Nat.div_le_div_right h
  rcases Nat.lt_or_eq_of_le hexp with hlt | heq
  · -- a smaller exponent: below the first magnitude of the larger one
    have hlow : 2 ^ F.fraction * 2 ^ (b / 2 ^ F.fraction - 1) ≤ F.units b := by
      unfold units
      rw [if_neg (Nat.ne_of_gt (Nat.lt_of_le_of_lt (Nat.zero_le _) hlt))]
      exact Nat.mul_le_mul_right _ (Nat.le_add_right _ _)
    refine Nat.le_trans ?_ hlow
    unfold units
    generalize a / 2 ^ F.fraction = p at hlt ⊢
    generalize b / 2 ^ F.fraction = q at hlt ⊢
    split_ifs with h0
    · exact Nat.le_trans (Nat.le_of_lt hfrac)
        (Nat.le_mul_of_pos_right _ (Nat.two_pow_pos _))
    · have hpq : p - 1 + 1 ≤ q - 1 := by omega
      calc (2 ^ F.fraction + a % 2 ^ F.fraction) * 2 ^ (p - 1)
          ≤ 2 ^ F.fraction * 2 * 2 ^ (p - 1) := Nat.mul_le_mul_right _ (by omega)
        _ = 2 ^ F.fraction * 2 ^ (p - 1 + 1) := by
            rw [pow_succ]
            ring
        _ ≤ 2 ^ F.fraction * 2 ^ (q - 1) :=
            Nat.mul_le_mul_left _ (Nat.pow_le_pow_right (by omega) hpq)
  · have hmod : a % 2 ^ F.fraction ≤ b % 2 ^ F.fraction := by
      have ha := Nat.div_add_mod a (2 ^ F.fraction)
      have hb := Nat.div_add_mod b (2 ^ F.fraction)
      rw [heq] at ha
      omega
    unfold units
    rw [heq]
    split_ifs
    · exact hmod
    · exact Nat.mul_le_mul_right _ (Nat.add_le_add_left hmod _)

/-- A quotient below the next power of two fits the shifted fraction. -/
theorem roundEven_shift_le
    {num den : Nat} (hden : 0 < den) :
    roundEven num (den * 2 ^ F.shift (num / den)) ≤ 2 ^ (F.fraction + 1) := by
  refine roundEven_le (Nat.mul_pos hden (Nat.two_pow_pos _)) ?_
  have hq : num / den < 2 ^ (F.fraction + 1 + F.shift (num / den)) := by
    refine Nat.lt_of_lt_of_le Nat.lt_log2_self
      (Nat.pow_le_pow_right (by omega) ?_)
    unfold shift
    omega
  have hlt := (Nat.div_lt_iff_lt_mul hden).mp hq
  calc num ≤ 2 ^ (F.fraction + 1 + F.shift (num / den)) * den := Nat.le_of_lt hlt
    _ = 2 ^ (F.fraction + 1) * (den * 2 ^ F.shift (num / den)) := by
        rw [pow_add]
        ring

/-- A shifted quotient fills the fraction. -/
theorem le_roundEven_shift
    {num den : Nat} (hden : 0 < den) (hs : 0 < F.shift (num / den)) :
    2 ^ F.fraction ≤ roundEven num (den * 2 ^ F.shift (num / den)) := by
  refine le_roundEven (Nat.mul_pos hden (Nat.two_pow_pos _)) ?_
  have hne : num / den ≠ 0 := by
    intro h
    simp [shift, h] at hs
  have hq : 2 ^ (F.fraction + F.shift (num / den)) ≤ num / den := by
    refine Nat.le_trans (Nat.pow_le_pow_right (by omega) ?_) (Nat.log2_self_le hne)
    unfold shift at hs ⊢
    omega
  have hle := (Nat.le_div_iff_mul_le hden).mp hq
  calc 2 ^ F.fraction * (den * 2 ^ F.shift (num / den))
      = 2 ^ (F.fraction + F.shift (num / den)) * den := by
        rw [pow_add]
        ring
    _ ≤ num := hle

theorem shift_mono
    {p q : Nat} (h : p ≤ q) :
    F.shift p ≤ F.shift q := by
  unfold shift
  rcases Nat.eq_zero_or_pos p with rfl | hp
  · simp
  · have : Nat.log2 p ≤ Nat.log2 q := by
      rw [Nat.le_log2 (by omega)]
      exact Nat.le_trans (Nat.log2_self_le (by omega)) h
    omega

/-- Rounding to nearest is monotone. -/
theorem roundBits_mono
    {a b c d : Nat} (hb : 0 < b) (hd : 0 < d) (h : a * d ≤ c * b) :
    F.roundBits a b ≤ F.roundBits c d := by
  have hq : a / b ≤ c / d := by
    rw [Nat.le_div_iff_mul_le hd]
    refine Nat.le_of_mul_le_mul_right ?_ hb
    calc a / b * d * b = a / b * b * d := by ring
      _ ≤ a * d := Nat.mul_le_mul_right d (Nat.div_mul_le_self a b)
      _ ≤ c * b := h
  have hs := F.shift_mono hq
  unfold roundBits
  simp only
  refine Nat.le_min.mpr ⟨Nat.le_trans (Nat.min_le_left _ _) ?_, Nat.min_le_right _ _⟩
  rcases Nat.lt_or_eq_of_le hs with hlt | heq
  · -- the next binade begins where this one ends
    have h1 := @roundEven_shift_le F a b hb
    have h2 := @le_roundEven_shift F c d hd (by omega)
    have h3 : (F.shift (a / b) + 1) * 2 ^ F.fraction ≤ F.shift (c / d) * 2 ^ F.fraction :=
      Nat.mul_le_mul_right _ hlt
    rw [pow_succ] at h1
    rw [Nat.add_mul] at h3
    omega
  · rw [heq]
    refine Nat.add_le_add_left (roundEven_mono ?_ ?_ ?_) _
    · exact Nat.mul_pos hb (Nat.two_pow_pos _)
    · exact Nat.mul_pos hd (Nat.two_pow_pos _)
    · calc a * (d * 2 ^ F.shift (c / d)) = a * d * 2 ^ F.shift (c / d) := by ring
        _ ≤ c * b * 2 ^ F.shift (c / d) := Nat.mul_le_mul_right _ h
        _ = c * (b * 2 ^ F.shift (c / d)) := by ring

end Rounding

end FloatFormat
end FocusVision
