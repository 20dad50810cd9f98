import Mathlib.Order.WellFounded

/-!
# Endless schedules

A system takes one step for each entry of a schedule that never ends.  If every step that
changes something uses up a measure, the system comes to rest; and where every kind of step
comes up again and again, it rests in a state that no kind of step changes.
-/

namespace FocusVision
namespace Schedule

universe u v

variable {σ : Type u} {α : Type v} (step : σ → α → σ)

/-- The state before the `n`-th entry. -/
def stateAt (s : σ) (schedule : Nat → α) : Nat → σ
  | 0 => s
  | n + 1 => step (stateAt s schedule n) (schedule n)

/-- Entries of this kind come up again and again. -/
def Recurs (schedule : Nat → α) (kind : α → Prop) : Prop :=
  ∀ n, ∃ later, n ≤ later ∧ kind (schedule later)

variable {step}

/-- The schedule up to an entry is a run. -/
theorem stateAt_eq_foldl
    (s : σ) (schedule : Nat → α) (n : Nat) :
    stateAt step s schedule n = ((List.range n).map schedule).foldl step s := by
  induction n with
  | zero => rfl
  | succ n ih =>
      rw [List.range_succ, List.map_append, List.foldl_append, ← ih]
      rfl

theorem stateAt_invariant
    {Inv : σ → Prop} {s : σ} {schedule : Nat → α} (hs : Inv s)
    (hstep : ∀ s n, Inv s → Inv (step s (schedule n))) (n : Nat) :
    Inv (stateAt step s schedule n) := by
  induction n with
  | zero => exact hs
  | succ n ih => exact hstep _ n ih

/-- A system whose changes use up a measure comes to rest. -/
theorem comes_to_rest
    {Inv : σ → Prop} {measure : σ → Nat} {s : σ} {schedule : Nat → α} (hs : Inv s)
    (hstep : ∀ s n, Inv s → Inv (step s (schedule n)))
    (hless : ∀ s n, Inv s →
      step s (schedule n) = s ∨ measure (step s (schedule n)) < measure s) :
    ∃ n, ∀ later, n ≤ later → stateAt step s schedule later = stateAt step s schedule n := by
  let left := fun n => measure (stateAt step s schedule n)
  have hnext : ∀ n, stateAt step s schedule (n + 1) = stateAt step s schedule n ∨
      left (n + 1) < left n := fun n =>
    hless (stateAt step s schedule n) n (stateAt_invariant hs hstep n)
  -- the entry with the least measure
  refine ⟨Function.argmin left, fun later hlater => ?_⟩
  induction later, hlater using Nat.le_induction with
  | base => rfl
  | succ later hlater ih =>
      rcases hnext later with hsame | hchanged
      · exact hsame.trans ih
      · have hleast : left (Function.argmin left) ≤ left (later + 1) :=
          Function.argmin_le left (later + 1)
        have hequal : left later = left (Function.argmin left) := congrArg measure ih
        omega

/-- Where it rests, no kind of step that comes up again and again changes anything. -/
theorem rests_unchanged
    {s : σ} {schedule : Nat → α} {kind : α → Prop} {n : Nat} (hkind : Recurs schedule kind)
    (hrest : ∀ later, n ≤ later → stateAt step s schedule later = stateAt step s schedule n) :
    ∃ a, kind a ∧ step (stateAt step s schedule n) a = stateAt step s schedule n := by
  obtain ⟨later, hlater, ha⟩ := hkind n
  refine ⟨schedule later, ha, ?_⟩
  have hnow := hrest later hlater
  have hnext := hrest (later + 1) (by omega)
  rw [← hnow]
  exact hnext.trans hnow.symm

end Schedule
end FocusVision
