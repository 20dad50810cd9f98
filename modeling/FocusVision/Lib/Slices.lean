import Mathlib.Data.List.Basic

/-!
# Checked slices

Slices of a list and differences of unsigned integers as a checked language has
them: out of range, they fail.
-/

namespace FocusVision
namespace Slices

universe u

variable {α : Type u}

/-- `xs[a..b]`. -/
def slice (xs : List α) (a b : Nat) : Option (List α) :=
  if a ≤ b ∧ b ≤ xs.length then some ((xs.drop a).take (b - a)) else none

/-- `a - b`. -/
def checkedSub (a b : Nat) : Option Nat :=
  if b ≤ a then some (a - b) else none

theorem slice_of_le
    {xs : List α} {a b : Nat} (hab : a ≤ b) (hb : b ≤ xs.length) :
    slice xs a b = some ((xs.drop a).take (b - a)) :=
  if_pos ⟨hab, hb⟩

theorem checkedSub_of_le
    {a b : Nat} (h : b ≤ a) :
    checkedSub a b = some (a - b) :=
  if_pos h

/-- A slice in the second part of a list. -/
theorem slice_append_right
    {xs ys : List α} {a b n : Nat} (hn : xs.length = n) (hab : a ≤ b) :
    slice (xs ++ ys) (n + a) (n + b) = slice ys a b := by
  subst hn
  unfold slice
  have hsub : xs.length + b - (xs.length + a) = b - a := by omega
  have hlength : (xs ++ ys).length = xs.length + ys.length := List.length_append
  rw [List.drop_append, List.drop_of_length_le (Nat.le_add_right _ _), List.nil_append,
    Nat.add_sub_cancel_left, hsub, hlength]
  simp only [Nat.add_le_add_iff_left]

end Slices
end FocusVision
