import FocusVision.Lib.FloatMean

/-!
# Conversions between formats

A float converted to another format is rounded once.  To a format with a longer fraction
and a wider range nothing is lost, so converting a finite float there and back gives
the same float.
-/

namespace FocusVision

open FloatFormat

variable {F G : FloatFormat}

/-- The float of the other format that is nearest: `as f32`, `as f64`. -/
def Flt.convert (G : FloatFormat) (x : Flt F) : Flt G :=
  if x.isNaN then nan
  else if x.isInfinite then inf x.neg
  else round x.neg (F.units x.mag * 2 ^ G.unit) (2 ^ F.unit)

namespace FloatFormat

/-- A common factor of the quotient does not matter. -/
theorem roundBits_mul_right
    (F : FloatFormat) (num : Nat) {den k : Nat} (hden : 0 < den) (hk : 0 < k) :
    F.roundBits (num * k) (den * k) = F.roundBits num den := by
  have hcross : num * k * den = num * (den * k) := by
    ring
  exact Nat.le_antisymm (F.roundBits_mono (Nat.mul_pos hden hk) hden (Nat.le_of_eq hcross))
    (F.roundBits_mono hden (Nat.mul_pos hden hk) (Nat.le_of_eq hcross.symm))

/-- A magnitude is a number that the fraction can hold, shifted. -/
theorem exists_scaled
    (F : FloatFormat) (mag : Nat) :
    ∃ n j, n < 2 ^ (F.fraction + 1) ∧ F.units mag = n * 2 ^ j := by
  have hmod : mag % 2 ^ F.fraction < 2 ^ F.fraction := Nat.mod_lt _ (Nat.two_pow_pos _)
  unfold units
  split_ifs
  · exact ⟨mag % 2 ^ F.fraction, 0, by rw [pow_succ]; omega, by rw [pow_zero, Nat.mul_one]⟩
  · exact ⟨2 ^ F.fraction + mag % 2 ^ F.fraction, mag / 2 ^ F.fraction - 1,
      by rw [pow_succ]; omega, rfl⟩

theorem units_lt_infBits
    {mag : Nat} (hexp : 0 < F.exponent) (h : mag < F.infBits) :
    F.units mag < F.units F.infBits := by
  have hmod : mag % 2 ^ F.fraction < 2 ^ F.fraction := Nat.mod_lt _ (Nat.two_pow_pos _)
  have hexponent : mag / 2 ^ F.fraction < 2 ^ F.exponent - 1 :=
    Nat.div_lt_of_lt_mul (by rwa [Nat.mul_comm])
  rw [units_infBits hexp]
  unfold units
  generalize mag / 2 ^ F.fraction = q at hexponent ⊢
  split_ifs with hzero
  · exact Nat.lt_of_lt_of_le hmod (Nat.pow_le_pow_right Nat.two_pos (Nat.le_add_right _ _))
  · calc (2 ^ F.fraction + mag % 2 ^ F.fraction) * 2 ^ (q - 1)
        < 2 ^ (F.fraction + 1) * 2 ^ (q - 1) :=
          Nat.mul_lt_mul_of_pos_right (by rw [pow_succ]; omega) (Nat.two_pow_pos _)
      _ = 2 ^ (F.fraction + 1 + (q - 1)) := (pow_add _ _ _).symm
      _ ≤ 2 ^ (F.fraction + (2 ^ F.exponent - 2)) :=
          Nat.pow_le_pow_right Nat.two_pos (by omega)

end FloatFormat

namespace Flt

theorem convert_of_finite
    (G : FloatFormat) {x : Flt F} (h : x.mag < F.infBits) :
    x.convert G = round x.neg (F.units x.mag * 2 ^ G.unit) (2 ^ F.unit) := by
  unfold convert isNaN isInfinite
  rw [decide_eq_false (Nat.not_lt.mpr (Nat.le_of_lt h)), decide_eq_false (Nat.ne_of_lt h)]
  rfl

/-- Widening and narrowing again gives the same float. -/
theorem convert_convert
    (hexp : 0 < F.exponent) (hfraction : F.fraction ≤ G.fraction) (hunit : F.unit ≤ G.unit)
    (hrange : F.units F.infBits * 2 ^ (G.unit - F.unit) ≤ G.units G.infBits)
    {x : Flt F} (h : x.mag < F.infBits) :
    (x.convert G).convert F = x := by
  obtain ⟨n, j, hn, hunits⟩ := F.exists_scaled x.mag
  have hwide : F.units x.mag * 2 ^ (G.unit - F.unit) = n * 2 ^ (j + (G.unit - F.unit)) := by
    rw [hunits, Nat.mul_assoc, ← pow_add]
  have hpow : 2 ^ G.unit = 2 ^ (G.unit - F.unit) * 2 ^ F.unit := by
    rw [← pow_add, Nat.sub_add_cancel hunit]
  have hscaled : F.units x.mag * 2 ^ G.unit =
      F.units x.mag * 2 ^ (G.unit - F.unit) * 2 ^ F.unit := by
    rw [hpow, Nat.mul_assoc]
  -- the wider format holds the number
  have hexact : G.roundBits (F.units x.mag * 2 ^ G.unit) (2 ^ F.unit) < G.infBits ∧
      G.units (G.roundBits (F.units x.mag * 2 ^ G.unit) (2 ^ F.unit)) =
        F.units x.mag * 2 ^ (G.unit - F.unit) := by
    have hlt : n < 2 ^ (G.fraction + 1) :=
      Nat.lt_of_lt_of_le hn (Nat.pow_le_pow_right Nat.two_pos (by omega))
    have hfinite : n * 2 ^ (j + (G.unit - F.unit)) < G.units G.infBits := by
      rw [← hwide]
      exact Nat.lt_of_lt_of_le
        (Nat.mul_lt_mul_of_pos_right (units_lt_infBits hexp h) (Nat.two_pow_pos _)) hrange
    have hround := G.roundBits_mul_right (F.units x.mag * 2 ^ (G.unit - F.unit)) Nat.one_pos
      (Nat.two_pow_pos F.unit)
    rw [Nat.one_mul] at hround
    rw [hscaled, hround, hwide]
    exact units_roundBits_scaled hlt hfinite
  have hback : F.roundBits (F.units x.mag * 2 ^ (G.unit - F.unit) * 2 ^ F.unit) (2 ^ G.unit) =
      x.mag := by
    have hround := F.roundBits_mul_right (F.units x.mag) Nat.one_pos (Nat.two_pow_pos G.unit)
    rw [Nat.one_mul, hscaled] at hround
    rw [hround]
    exact roundBits_units h
  rw [convert_of_finite G h, convert_of_finite F hexact.1]
  refine eq_of_bits rfl ?_
  simp only [round]
  rw [hexact.2]
  exact hback

/-- `f32` to `f64` and back. -/
theorem f32_convert_convert
    {x : F32} (h : x.isFinite = true) :
    (x.convert ⟨52, 11⟩).convert ⟨23, 8⟩ = x := by
  refine convert_convert (by decide) (by decide) (by decide) ?_ (of_decide_eq_true h)
  rw [units_infBits (by decide), units_infBits (by decide), ← pow_add]
  exact Nat.pow_le_pow_right Nat.two_pos (by decide)

end Flt
end FocusVision
