import Mathlib.LinearAlgebra.Matrix.NonsingularInverse
import Mathlib.LinearAlgebra.Vandermonde
import Mathlib.Tactic

/-!
# Systematic Vandermonde codes

Over a field with `total` distinct nodes, a message of `n` symbols is encoded by
`E = V * V_top⁻¹`, where `V` has the powers of the nodes in its rows and `V_top`
is its first `n` rows.  The first `n` code symbols are the message itself, and
any `n` of the `total` rows of `E` form an invertible matrix, so any `n` code
symbols determine the message.
-/

namespace FocusVision
namespace SystematicCode

universe u

variable {K : Type u} [Field K] {total n : Nat}

/-- The rectangular matrix of powers `V i j = ν i ^ j`. -/
def powers (ν : Fin total → K) (n : Nat) : Matrix (Fin total) (Fin n) K :=
  fun i j => ν i ^ j.val

/-- `E = V * V_top⁻¹`. -/
noncomputable def encodingMatrix (ν : Fin total → K) (h : n ≤ total) :
    Matrix (Fin total) (Fin n) K :=
  powers ν n * (powers (ν ∘ Fin.castLE h) n)⁻¹

/-- Rows selected from `V` form a Vandermonde matrix. -/
theorem powers_submatrix (ν : Fin total → K) (sel : Fin n → Fin total) :
    (powers ν n).submatrix sel id = Matrix.vandermonde (ν ∘ sel) := by
  funext i j
  simp [powers, Matrix.vandermonde_apply]

theorem powers_top_det_ne_zero {ν : Fin total → K}
    (hν : Function.Injective ν) (h : n ≤ total) :
    (powers (ν ∘ Fin.castLE h) n).det ≠ 0 := by
  have hv : powers (ν ∘ Fin.castLE h) n = Matrix.vandermonde (ν ∘ Fin.castLE h) :=
    powers_submatrix (ν ∘ Fin.castLE h) id
  rw [hv]
  exact Matrix.det_vandermonde_ne_zero_iff.mpr
    (hν.comp (Fin.castLE_injective h))

theorem encodingMatrix_submatrix (ν : Fin total → K) (h : n ≤ total)
    (sel : Fin n → Fin total) :
    (encodingMatrix ν h).submatrix sel id =
      Matrix.vandermonde (ν ∘ sel) * (powers (ν ∘ Fin.castLE h) n)⁻¹ := by
  rw [← powers_submatrix]
  rfl

/-- The code is systematic: the first `n` rows are the identity. -/
theorem encodingMatrix_top {ν : Fin total → K}
    (hν : Function.Injective ν) (h : n ≤ total) (i j : Fin n) :
    encodingMatrix ν h (Fin.castLE h i) j = if i = j then 1 else 0 := by
  have hunit : IsUnit (powers (ν ∘ Fin.castLE h) n).det :=
    isUnit_iff_ne_zero.mpr (powers_top_det_ne_zero hν h)
  have htop : (encodingMatrix ν h).submatrix (Fin.castLE h) id = 1 := by
    rw [encodingMatrix_submatrix, ← powers_submatrix]
    exact Matrix.mul_nonsing_inv _ hunit
  have := congrFun (congrFun htop i) j
  rwa [Matrix.one_apply] at this

/-- Any `n` rows of the encoding matrix are invertible. -/
theorem encodingMatrix_submatrix_det_ne_zero {ν : Fin total → K}
    (hν : Function.Injective ν) (h : n ≤ total)
    {sel : Fin n → Fin total} (hsel : Function.Injective sel) :
    ((encodingMatrix ν h).submatrix sel id).det ≠ 0 := by
  rw [encodingMatrix_submatrix, Matrix.det_mul]
  refine mul_ne_zero (Matrix.det_vandermonde_ne_zero_iff.mpr (hν.comp hsel)) ?_
  rw [Matrix.det_nonsing_inv]
  exact (isUnit_iff_ne_zero.mpr (powers_top_det_ne_zero hν h)).ringInverse.ne_zero

/-- Inverting the selected rows recovers the message from the selected symbols. -/
theorem inv_submatrix_mulVec {ν : Fin total → K}
    (hν : Function.Injective ν) (h : n ≤ total)
    {sel : Fin n → Fin total} (hsel : Function.Injective sel)
    (x : Fin n → K) (i : Fin n) :
    ∑ k, (((encodingMatrix ν h).submatrix sel id)⁻¹) i k *
        (∑ j, encodingMatrix ν h (sel k) j * x j) = x i := by
  set M := (encodingMatrix ν h).submatrix sel id with hM
  have hunit : IsUnit M.det :=
    isUnit_iff_ne_zero.mpr (encodingMatrix_submatrix_det_ne_zero hν h hsel)
  have hmul : M⁻¹.mulVec (M.mulVec x) = x := by
    rw [Matrix.mulVec_mulVec, Matrix.nonsing_inv_mul M hunit, Matrix.one_mulVec]
  exact congrFun hmul i

end SystematicCode
end FocusVision
