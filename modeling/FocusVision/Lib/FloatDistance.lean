import FocusVision.Lib.FloatExact

/-!
# Equal and close floats

`==` of floats, which takes both zeros for equal, `max` and `clamp`, the cast to a
signed integer, and the rounded distance of two finite floats.  The distance depends
on the values only and grows with the exact one.
-/

namespace FocusVision
namespace Flt

open FloatFormat

variable {F : FloatFormat}

/-- `==`. -/
def Same (x y : Flt F) : Prop :=
  x.isNaN = false ∧ y.isNaN = false ∧ x.key = y.key

instance (x y : Flt F) : Decidable (x.Same y) :=
  inferInstanceAs (Decidable (_ ∧ _ ∧ _))

/-- `max`, which ignores a NaN. -/
def maxNum (x y : Flt F) : Flt F :=
  if x.isNaN then y else if x < y then y else x

/-- `clamp`, for `lo ≤ hi`. -/
def clampTo (lo hi x : Flt F) : Flt F :=
  if x < lo then lo else if hi < x then hi else x

def negate (x : Flt F) : Flt F :=
  { x with neg := !x.neg }

/-- Truncation to a signed integer of `bits` bits, which saturates. -/
def toSigned (bits : Nat) (x : Flt F) : Int :=
  if x.neg then -(min (x.negate.toUnsigned bits) (2 ^ (bits - 1)) : Nat)
  else (min (x.toUnsigned bits) (2 ^ (bits - 1) - 1) : Nat)

theorem Same.refl
    {x : Flt F} (hx : x.isNaN = false) :
    x.Same x :=
  ⟨hx, hx, rfl⟩

theorem Same.symm
    {x y : Flt F} (h : x.Same y) :
    y.Same x :=
  ⟨h.2.1, h.1, h.2.2.symm⟩

theorem Same.trans
    {x y z : Flt F} (hxy : x.Same y) (hyz : y.Same z) :
    x.Same z :=
  ⟨hxy.1, hyz.2.1, hxy.2.2.trans hyz.2.2⟩

theorem Same.le
    {x y : Flt F} (h : x.Same y) :
    x ≤ y :=
  ⟨h.1, h.2.1, Int.le_of_eq h.2.2⟩

theorem maxNum_eq
    {x y : Flt F} (h : y ≤ x) :
    maxNum x y = x := by
  rw [maxNum, h.2.1, if_neg (by decide), if_neg (not_lt_of_le h)]

theorem clamp_eq
    {lo hi : Flt F} (h : lo ≤ hi) (x : Flt F) :
    clamp x lo hi = some (clampTo lo hi x) := by
  rw [clamp, if_pos h]
  rfl

/-- What is clamped is in the range, if it is a number. -/
theorem clampTo_mem
    {lo hi x : Flt F} (h : lo ≤ hi) (hx : (clampTo lo hi x).isNaN = false) :
    lo ≤ clampTo lo hi x ∧ clampTo lo hi x ≤ hi := by
  unfold clampTo at hx ⊢
  split_ifs at hx ⊢ with hlow hhigh
  · exact ⟨le_refl h.1, h⟩
  · exact ⟨h, le_refl h.2.1⟩
  · exact ⟨le_of_not_lt h.1 hx hlow, le_of_not_lt hx h.2.1 hhigh⟩

theorem clampTo_of_mem
    {lo hi x : Flt F} (hlow : lo ≤ x) (hhigh : x ≤ hi) :
    clampTo lo hi x = x := by
  rw [clampTo, if_neg (not_lt_of_le hlow), if_neg (not_lt_of_le hhigh)]

/-! ### Distances -/

/-- Values grow with the order. -/
theorem signedUnits_mono
    {x y : Flt F} (h : x.key ≤ y.key) :
    x.signedUnits ≤ y.signedUnits := by
  have hmono : ∀ {a b : Nat}, (a : Int) ≤ b → (F.units a : Int) ≤ F.units b :=
    fun hab => Int.ofNat_le.mpr (F.units_mono (Int.ofNat_le.mp hab))
  unfold key at h
  unfold signedUnits
  split_ifs at h ⊢ with hx hy hy
  · have hle := @hmono y.mag x.mag (by omega)
    omega
  · omega
  · -- a positive float is at most a negative one: both are zeros
    have hxz : x.mag = 0 := by omega
    have hyz : y.mag = 0 := by omega
    rw [hxz, hyz, units_zero]
    simp
  · exact hmono h

theorem Same.signedUnits_eq
    {x y : Flt F} (h : x.Same y) :
    x.signedUnits = y.signedUnits :=
  Int.le_antisymm (signedUnits_mono (Int.le_of_eq h.2.2))
    (signedUnits_mono (Int.le_of_eq h.2.2.symm))

/-- The distance of two finite floats is rounded once. -/
theorem abs_sub_eq
    {x y : Flt F} (hx : x.mag < F.infBits) (hy : y.mag < F.infBits) :
    (sub x y).abs = round false (x.signedUnits - y.signedUnits).natAbs 1 := by
  simp only [sub, isNaN, isInfinite, Nat.not_lt.mpr (Nat.le_of_lt hx),
    Nat.not_lt.mpr (Nat.le_of_lt hy), Nat.ne_of_lt hx, Nat.ne_of_lt hy, decide_false,
    Bool.or_self, Bool.false_eq_true, if_false, abs, round]

/-- A larger distance stays above a bound. -/
theorem lt_abs_sub_of_le
    {e a b c d : Flt F} (ha : a.mag < F.infBits) (hb : b.mag < F.infBits)
    (hc : c.mag < F.infBits) (hd : d.mag < F.infBits)
    (hle : (a.signedUnits - b.signedUnits).natAbs ≤ (c.signedUnits - d.signedUnits).natAbs)
    (hlt : e < (sub a b).abs) :
    e < (sub c d).abs := by
  refine lt_of_lt_of_le hlt ?_
  rw [abs_sub_eq ha hb, abs_sub_eq hc hd]
  refine ⟨isNaN_round _ _ _, isNaN_round _ _ _, Int.ofNat_le.mpr ?_⟩
  exact F.roundBits_mono Nat.one_pos Nat.one_pos (Nat.mul_le_mul_right 1 hle)

theorem isNaN_abs_sub
    {x y : Flt F} (h : x.isNaN = true ∨ y.isNaN = true) :
    (sub x y).abs.isNaN = (nan : Flt F).isNaN := by
  rcases h with h | h
  · simp only [sub, h, Bool.true_or, if_true]
    rfl
  · simp only [sub, h, Bool.or_true, if_true]
    rfl

end Flt
end FocusVision
