import Mathlib.LinearAlgebra.Matrix.NonsingularInverse
import Mathlib.LinearAlgebra.Matrix.ToLin
import Mathlib.Tactic

/-!
# Gauss-Jordan inversion in place

The usual loop on a stored matrix augmented with the identity: for every column,
search downwards for a pivot, swap it into place, scale its row and clear the
column in every other row.  `invert` gives the right half, or `none` when a
column has no pivot.

Row operations are judged by the solutions they keep: two stored matrices are
`SameKernel` when they have the same solutions `v` of `A v = 0`.  Read on the
augmented matrix this one relation gives both halves of the specification: a
column without a pivot yields a nonzero solution of the original matrix, and a
finished elimination `[1 | R]` has the solutions of `[M | 1]` only if `M R = 1`.
-/

namespace FocusVision
namespace GaussJordan

universe u

/-- A stored matrix: `n` rows of `m` entries. -/
abbrev Rows (K : Type u) (n m : Nat) := Vector (Vector K m) n

section Storage

variable {K : Type u} {n m : Nat}

/-- Read a stored matrix as a Mathlib matrix. -/
def toMatrix (A : Rows K n m) : Matrix (Fin n) (Fin m) K :=
  fun i j => A[i.val][j.val]

/-- Store a matrix entry by entry. -/
def ofEntries (f : Fin n → Fin m → K) : Rows K n m :=
  Vector.ofFn fun i => Vector.ofFn fun j => f i j

@[simp] theorem toMatrix_ofEntries
    (f : Fin n → Fin m → K) (i : Fin n) (j : Fin m) :
    toMatrix (ofEntries f) i j = f i j := by
  simp [toMatrix, ofEntries]

end Storage

section Operations

variable {K : Type u} [Field K] [DecidableEq K] {n m : Nat}

/-- `pivot = k; while (pivot < n && A[pivot][c] == 0) pivot++`. -/
def findPivot (A : Rows K n m) (k : Fin n) (c : Fin m) : Option (Fin n) :=
  (List.finRange n).find? fun i => decide (k ≤ i) && decide (A[i.val][c.val] ≠ 0)

/-- Exchange two rows. -/
def swapRows (A : Rows K n m) (p k : Fin n) : Rows K n m :=
  A.swap p.val k.val

/-- Multiply every entry of row `k` by `x`. -/
def scaleRow (A : Rows K n m) (k : Fin n) (x : K) : Rows K n m :=
  A.set k.val (A[k.val].map (· * x))

/-- Subtract from every other row its multiple of row `k` that clears column
`c`; rows that have a zero there are skipped. -/
def clearColumn (A : Rows K n m) (k : Fin n) (c : Fin m) : Rows K n m :=
  Vector.ofFn fun i =>
    if i = k ∨ A[i.val][c.val] = 0 then A[i.val]
    else Vector.zipWith (fun x y => x - A[i.val][c.val] * y) A[i.val] A[k.val]

/-- One column of the elimination; `none` when it has no pivot. -/
def eliminateColumn (A : Rows K n m) (k : Fin n) (c : Fin m) :
    Option (Rows K n m) :=
  match findPivot A k c with
  | none => none
  | some p =>
      let B := swapRows A p k
      some (clearColumn (scaleRow B k (B[k.val][c.val])⁻¹) k c)

/-- The first `k` columns of the elimination. -/
def reduceUpTo (h : n ≤ m) (A : Rows K n m) : Nat → Option (Rows K n m)
  | 0 => some A
  | k + 1 =>
      match reduceUpTo h A k with
      | none => none
      | some B =>
          if hk : k < n then eliminateColumn B ⟨k, hk⟩ ⟨k, by omega⟩ else some B

/-- `[M | 1]`. -/
def augment (M : Rows K n n) : Rows K n (n + n) :=
  Vector.ofFn fun i => Vector.ofFn fun j =>
    if h : j.val < n then M[i.val][j.val] else if j.val = n + i.val then 1 else 0

/-- The right half of an augmented matrix. -/
def rightHalf (A : Rows K n (n + n)) : Rows K n n :=
  Vector.ofFn fun i => Vector.ofFn fun j => A[i.val][n + j.val]

/-- Inverse by elimination of `[M | 1]`; `none` for a singular matrix. -/
def invert (M : Rows K n n) : Option (Rows K n n) :=
  (reduceUpTo (by omega) (augment M) n).map rightHalf

end Operations

section Entries

variable {K : Type u} [Field K] [DecidableEq K] {n m : Nat}

theorem findPivot_some {A : Rows K n m} {k p : Fin n} {c : Fin m}
    (h : findPivot A k c = some p) :
    k ≤ p ∧ toMatrix A p c ≠ 0 := by
  have hp := List.find?_some h
  simpa [toMatrix] using hp

theorem findPivot_none {A : Rows K n m} {k : Fin n} {c : Fin m}
    (h : findPivot A k c = none) (i : Fin n) (hi : k ≤ i) :
    toMatrix A i c = 0 := by
  have hp := List.find?_eq_none.mp h i (List.mem_finRange i)
  simpa [toMatrix, hi] using hp

omit [Field K] [DecidableEq K] in
@[simp] theorem toMatrix_swapRows (A : Rows K n m) (p k i : Fin n) (j : Fin m) :
    toMatrix (swapRows A p k) i j = toMatrix A (Equiv.swap p k i) j := by
  unfold toMatrix swapRows
  by_cases hp : i = p
  · subst hp
    simp
  · by_cases hk : i = k
    · subst hk
      simp
    · have h1 : i.val ≠ p.val := fun h => hp (Fin.ext h)
      have h2 : i.val ≠ k.val := fun h => hk (Fin.ext h)
      simp [h1, h2, Equiv.swap_apply_of_ne_of_ne hp hk]

omit [DecidableEq K] in
@[simp] theorem toMatrix_scaleRow (A : Rows K n m) (k i : Fin n) (x : K)
    (j : Fin m) :
    toMatrix (scaleRow A k x) i j =
      if i = k then toMatrix A k j * x else toMatrix A i j := by
  unfold toMatrix scaleRow
  by_cases hk : i = k
  · subst hk
    simp
  · have hne : k.val ≠ i.val := fun h => hk (Fin.ext h.symm)
    simp [hne, hk]

@[simp] theorem toMatrix_clearColumn (A : Rows K n m) (k i : Fin n)
    (c j : Fin m) :
    toMatrix (clearColumn A k c) i j =
      if i = k then toMatrix A k j
      else toMatrix A i j - toMatrix A i c * toMatrix A k j := by
  unfold toMatrix clearColumn
  by_cases hk : i = k
  · subst hk
    simp
  · by_cases hz : A[i.val][c.val] = 0
    · simp [hk, hz]
    · simp [hk, hz]

end Entries

section Kernel

variable {K : Type u} [Field K] {n m : Nat}

/-- The value of equation `i` at `v`. -/
def rowValue (A : Rows K n m) (v : Fin m → K) (i : Fin n) : K :=
  ∑ j, toMatrix A i j * v j

/-- `v` solves every equation. -/
def Solves (A : Rows K n m) (v : Fin m → K) : Prop :=
  ∀ i, rowValue A v i = 0

/-- The same solutions. -/
def SameKernel (A B : Rows K n m) : Prop :=
  ∀ v, Solves A v ↔ Solves B v

theorem SameKernel.trans {A B C : Rows K n m}
    (h₁ : SameKernel A B) (h₂ : SameKernel B C) : SameKernel A C :=
  fun v => (h₁ v).trans (h₂ v)

variable [DecidableEq K]

omit [DecidableEq K] in
theorem sameKernel_swapRows (A : Rows K n m) (p k : Fin n) :
    SameKernel A (swapRows A p k) := by
  have hrow : ∀ v i, rowValue (swapRows A p k) v i = rowValue A v (Equiv.swap p k i) := by
    intro v i
    simp [rowValue]
  intro v
  constructor
  · intro h i
    rw [hrow]
    exact h _
  · intro h i
    have := h (Equiv.swap p k i)
    rwa [hrow, Equiv.swap_apply_self] at this

omit [DecidableEq K] in
theorem sameKernel_scaleRow (A : Rows K n m) (k : Fin n) {x : K} (hx : x ≠ 0) :
    SameKernel A (scaleRow A k x) := by
  have hrow : ∀ v i, rowValue (scaleRow A k x) v i =
      if i = k then rowValue A v k * x else rowValue A v i := by
    intro v i
    by_cases hi : i = k
    · simp only [rowValue, toMatrix_scaleRow, if_pos hi, Finset.sum_mul]
      exact Finset.sum_congr rfl fun j _ => by ring
    · simp only [rowValue, toMatrix_scaleRow, if_neg hi]
  intro v
  constructor
  · intro h i
    rw [hrow]
    split_ifs
    · rw [h k, zero_mul]
    · exact h i
  · intro h i
    have hi := h i
    rw [hrow] at hi
    split_ifs at hi with hik
    · subst hik
      exact (mul_eq_zero.mp hi).resolve_right hx
    · exact hi

theorem sameKernel_clearColumn (A : Rows K n m) (k : Fin n) (c : Fin m) :
    SameKernel A (clearColumn A k c) := by
  have hrow : ∀ v i, rowValue (clearColumn A k c) v i =
      if i = k then rowValue A v k
      else rowValue A v i - toMatrix A i c * rowValue A v k := by
    intro v i
    by_cases hi : i = k
    · simp only [rowValue, toMatrix_clearColumn, if_pos hi]
    · simp only [rowValue, toMatrix_clearColumn, if_neg hi, Finset.mul_sum,
        ← Finset.sum_sub_distrib]
      exact Finset.sum_congr rfl fun j _ => by ring
  intro v
  constructor
  · intro h i
    rw [hrow, h k]
    split_ifs
    · rfl
    · rw [h i, mul_zero, sub_zero]
  · intro h i
    have hk : rowValue A v k = 0 := by
      have := h k
      rwa [hrow, if_pos rfl] at this
    have hi := h i
    rw [hrow] at hi
    split_ifs at hi with hik
    · rw [hik]
      exact hk
    · rwa [hk, mul_zero, sub_zero] at hi

end Kernel

section Invariant

variable {K : Type u} [Field K] [DecidableEq K] {n m : Nat}

/-- The first `k` columns are unit columns. -/
def UnitUpTo (h : n ≤ m) (A : Rows K n m) (k : Nat) : Prop :=
  ∀ c : Fin n, c.val < k → ∀ i : Fin n,
    toMatrix A i (Fin.castLE h c) = if i = c then 1 else 0

/-- What one eliminated column does: solutions stay, and one more column is a
unit column. -/
theorem eliminateColumn_spec (h : n ≤ m) {A B : Rows K n m} {k : Fin n}
    (hA : UnitUpTo h A k.val)
    (hB : eliminateColumn A k (Fin.castLE h k) = some B) :
    SameKernel A B ∧ UnitUpTo h B (k.val + 1) := by
  unfold eliminateColumn at hB
  cases hp : findPivot A k (Fin.castLE h k) with
  | none => simp [hp] at hB
  | some p =>
      rw [hp] at hB
      obtain ⟨hkp, hne⟩ := findPivot_some hp
      set S := swapRows A p k with hS
      have hpiv : toMatrix S k (Fin.castLE h k) ≠ 0 := by
        rw [hS, toMatrix_swapRows, Equiv.swap_apply_right]
        exact hne
      have hBeq : B = clearColumn
          (scaleRow S k (toMatrix S k (Fin.castLE h k))⁻¹) k (Fin.castLE h k) :=
        (Option.some.inj hB).symm
      subst hBeq
      refine ⟨(sameKernel_swapRows A p k).trans
        ((sameKernel_scaleRow S k (inv_ne_zero hpiv)).trans
          (sameKernel_clearColumn _ _ _)), ?_⟩
      intro c hc i
      rcases Nat.lt_succ_iff_lt_or_eq.mp hc with hlt | heq
      · -- an earlier column: both swapped rows are zero in it
        have hpc : p ≠ c := fun he => by
          have : k.val ≤ p.val := hkp
          rw [he] at this
          omega
        have hkc : k ≠ c := fun he => by rw [he] at hlt; omega
        have hcol : ∀ r, toMatrix S r (Fin.castLE h c) = if r = c then 1 else 0 := by
          intro r
          rw [hS, toMatrix_swapRows, hA c hlt]
          by_cases hrc : r = c
          · subst hrc
            rw [Equiv.swap_apply_of_ne_of_ne hpc.symm hkc.symm]
          · have : Equiv.swap p k r ≠ c := by
              intro he
              rw [Equiv.swap_apply_eq_iff] at he
              rw [Equiv.swap_apply_of_ne_of_ne hpc.symm hkc.symm] at he
              exact hrc he
            simp [this, hrc]
        by_cases hik : i = k
        · subst hik
          simp [hcol, hkc]
        · simp [hcol, hik, hkc]
      · -- the column just eliminated
        have hck : c = k := Fin.ext heq
        subst hck
        by_cases hik : i = c
        · subst hik
          simp [mul_inv_cancel₀ hpiv]
        · simp [hik, mul_inv_cancel₀ hpiv]

/-- A column without a pivot gives a nonzero solution that is zero past it. -/
theorem exists_solution_of_no_pivot (h : n ≤ m) {A : Rows K n m} {k : Fin n}
    (hA : UnitUpTo h A k.val)
    (hp : findPivot A k (Fin.castLE h k) = none) :
    ∃ x : Fin n → K, x ≠ 0 ∧
      ∀ i, ∑ c, toMatrix A i (Fin.castLE h c) * x c = 0 := by
  classical
  -- the column itself minus its combination of the unit columns before it
  refine ⟨fun c => if c = k then 1
    else if c < k then -toMatrix A c (Fin.castLE h k) else 0, ?_, ?_⟩
  · intro hx
    have := congrFun hx k
    simp at this
  · intro i
    have hsplit : ∀ c : Fin n,
        toMatrix A i (Fin.castLE h c) *
          (if c = k then 1
            else if c < k then -toMatrix A c (Fin.castLE h k) else 0) =
        (if c = k then toMatrix A i (Fin.castLE h k) else 0) -
          (if c = i then (if i < k then toMatrix A i (Fin.castLE h k) else 0)
            else 0) := by
      intro c
      by_cases hck : c = k
      · subst hck
        by_cases hci : c = i
        · simp [← hci]
        · simp [hci]
      · by_cases hlt : c < k
        · rw [hA c hlt i]
          by_cases hci : c = i
          · subst hci
            simp [hck, hlt]
          · simp [hck, hci, Ne.symm hci]
        · by_cases hci : c = i
          · subst hci
            simp [hck, hlt]
          · simp [hck, hlt, hci]
    rw [Finset.sum_congr rfl fun c _ => hsplit c, Finset.sum_sub_distrib]
    simp only [Finset.sum_ite_eq', Finset.mem_univ, if_true]
    by_cases hik : i < k
    · simp [hik]
    · rw [findPivot_none hp i (not_lt.mp hik)]
      simp

/-- **Run of the elimination**: solutions are kept and the processed columns are
unit columns. -/
theorem reduceUpTo_spec (h : n ≤ m) (A : Rows K n m) :
    ∀ (k : Nat), k ≤ n → ∀ B, reduceUpTo h A k = some B →
      SameKernel A B ∧ UnitUpTo h B k
  | 0, _, B, hB => by
      obtain rfl : A = B := Option.some.inj hB
      exact ⟨fun _ => Iff.rfl, fun c hc => absurd hc (by omega)⟩
  | k + 1, hk, B, hB => by
      unfold reduceUpTo at hB
      cases hC : reduceUpTo h A k with
      | none => simp [hC] at hB
      | some C =>
          obtain ⟨hker, hunit⟩ := reduceUpTo_spec h A k (by omega) C hC
          rw [hC] at hB
          simp only [dif_pos (show k < n by omega)] at hB
          obtain ⟨hker', hunit'⟩ :=
            eliminateColumn_spec h (k := ⟨k, by omega⟩) hunit hB
          exact ⟨hker.trans hker', hunit'⟩

/-- If the left block has only the zero solution, every column has a pivot. -/
theorem reduceUpTo_isSome (h : n ≤ m) (A : Rows K n m)
    (hA : ∀ x : Fin n → K,
      (∀ i, ∑ c, toMatrix A i (Fin.castLE h c) * x c = 0) → x = 0)
    (hpad : ∀ x : Fin n → K, ∃ v : Fin m → K, ∀ B : Rows K n m, ∀ i,
      rowValue B v i = ∑ c, toMatrix B i (Fin.castLE h c) * x c) :
    ∀ k ≤ n, ∃ B, reduceUpTo h A k = some B
  | 0, _ => ⟨A, rfl⟩
  | k + 1, hk => by
      obtain ⟨C, hC⟩ := reduceUpTo_isSome h A hA hpad k (by omega)
      obtain ⟨hker, hunit⟩ := reduceUpTo_spec h A k (by omega) C hC
      unfold reduceUpTo
      rw [hC]
      simp only [dif_pos (show k < n by omega)]
      cases hp : findPivot C ⟨k, hk⟩ (Fin.castLE h ⟨k, hk⟩) with
      | some p => exact ⟨_, by unfold eliminateColumn; simp only [Fin.castLE_mk] at hp; rw [hp]⟩
      | none =>
          obtain ⟨x, hx, hsol⟩ :=
            exists_solution_of_no_pivot h (k := ⟨k, hk⟩) hunit hp
          obtain ⟨v, hv⟩ := hpad x
          have hvC : Solves C v := fun i => by rw [hv, hsol]
          have hvA := (hker v).mpr hvC
          exact absurd (hA x fun i => by rw [← hv]; exact hvA i) hx

end Invariant

section Inverse

variable {K : Type u} [Field K] [DecidableEq K] {n : Nat}

omit [DecidableEq K] in
theorem toMatrix_augment_left (M : Rows K n n) (i j : Fin n) :
    toMatrix (augment M) i (Fin.castAdd n j) = toMatrix M i j := by
  simp [toMatrix, augment]

omit [DecidableEq K] in
theorem toMatrix_augment_right (M : Rows K n n) (i j : Fin n) :
    toMatrix (augment M) i (Fin.natAdd n j) = if j = i then 1 else 0 := by
  simp [toMatrix, augment, Fin.ext_iff, -Fin.natAdd_eq_addNat]

omit [Field K] [DecidableEq K] in
theorem toMatrix_rightHalf (A : Rows K n (n + n)) (i j : Fin n) :
    toMatrix (rightHalf A) i j = toMatrix A i (Fin.natAdd n j) := by
  simp [toMatrix, rightHalf, -Fin.natAdd_eq_addNat]

omit [DecidableEq K] in
/-- An equation of an augmented matrix, split into its two halves. -/
theorem rowValue_append (A : Rows K n (n + n)) (x y : Fin n → K) (i : Fin n) :
    rowValue A (Fin.append x y) i =
      ∑ c, toMatrix A i (Fin.castAdd n c) * x c +
        ∑ c, toMatrix A i (Fin.natAdd n c) * y c := by
  simp only [rowValue, Fin.sum_univ_add, Fin.append_left, Fin.append_right]

/-- **Gauss-Jordan inversion**: on a matrix with nonzero determinant no column
lacks a pivot, and the result is the inverse. -/
theorem invert_eq_some {M : Rows K n n} (hM : (toMatrix M).det ≠ 0) :
    ∃ R, invert M = some R ∧ toMatrix R = (toMatrix M)⁻¹ := by
  have hle : n ≤ n + n := by omega
  have hcast : ∀ c : Fin n, Fin.castLE hle c = Fin.castAdd n c := fun _ => rfl
  have hinj : ∀ x : Fin n → K,
      (∀ i, ∑ c, toMatrix (augment M) i (Fin.castLE hle c) * x c = 0) → x = 0 := by
    intro x hx
    refine Matrix.eq_zero_of_mulVec_eq_zero hM ?_
    funext i
    simpa [Matrix.mulVec, dotProduct, hcast, toMatrix_augment_left] using hx i
  have hpad : ∀ x : Fin n → K, ∃ v : Fin (n + n) → K,
      ∀ B : Rows K n (n + n), ∀ i,
        rowValue B v i = ∑ c, toMatrix B i (Fin.castLE hle c) * x c := by
    intro x
    refine ⟨Fin.append x 0, fun B i => ?_⟩
    rw [rowValue_append]
    simp [hcast]
  obtain ⟨B, hB⟩ := reduceUpTo_isSome hle (augment M) hinj hpad n le_rfl
  obtain ⟨hker, hunit⟩ := reduceUpTo_spec hle (augment M) n le_rfl B hB
  refine ⟨rightHalf B, by simp [invert, hB], ?_⟩
  have hmul : toMatrix M * toMatrix (rightHalf B) = 1 := by
    refine Matrix.ext_of_mulVec_single fun j => ?_
    set y : Fin n → K := Pi.single j 1
    -- `(-R y, y)` solves the eliminated system, hence the original one
    have hsol : Solves B (Fin.append (-(toMatrix (rightHalf B)).mulVec y) y) := by
      intro i
      rw [rowValue_append]
      have hleft : ∑ c, toMatrix B i (Fin.castAdd n c) *
          (-(toMatrix (rightHalf B)).mulVec y) c =
          -(toMatrix (rightHalf B)).mulVec y i := by
        rw [Finset.sum_eq_single i]
        · have := hunit i i.isLt i
          rw [hcast] at this
          simp [this]
        · intro c _ hci
          have := hunit c c.isLt i
          rw [hcast, if_neg (Ne.symm hci)] at this
          rw [this, zero_mul]
        · simp
      rw [hleft, neg_add_eq_zero]
      simp only [Matrix.mulVec, dotProduct, toMatrix_rightHalf]
    have horig := (hker _).mpr hsol
    rw [← Matrix.mulVec_mulVec, Matrix.one_mulVec]
    funext i
    have hi := horig i
    rw [rowValue_append] at hi
    have hid : ∑ c, toMatrix (augment M) i (Fin.natAdd n c) * y c = y i := by
      simp only [toMatrix_augment_right, ite_mul, one_mul, zero_mul,
        Finset.sum_ite_eq', Finset.mem_univ, if_true]
    have hneg : ∑ c, toMatrix (augment M) i (Fin.castAdd n c) *
        (-(toMatrix (rightHalf B)).mulVec y) c =
        -(toMatrix M).mulVec ((toMatrix (rightHalf B)).mulVec y) i := by
      simp only [toMatrix_augment_left, Pi.neg_apply, mul_neg,
        Finset.sum_neg_distrib]
      rfl
    rw [hid, hneg] at hi
    exact (neg_add_eq_zero.mp hi)
  exact (Matrix.inv_eq_right_inv hmul).symm

end Inverse

end GaussJordan
end FocusVision
