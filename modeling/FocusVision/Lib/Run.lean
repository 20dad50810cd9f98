import Mathlib.Data.List.Induction

/-!
# Runs of a stateful function

A component is a step function `σ → α → β × σ`: it takes an input, answers and
moves on.  `outputs` and `final` feed it a list of inputs.  The rules below turn
a fact about one step into a fact about every run; `history` lets the invariant
speak about the inputs and answers so far.  `emitted` is for components that
only answer some of their inputs.
-/

namespace FocusVision
namespace Run

universe u v w

variable {σ : Type u} {α : Type v} {β : Type w}
variable (step : σ → α → β × σ)

/-- The state after a list of inputs. -/
def final : σ → List α → σ
  | s, [] => s
  | s, a :: as => final (step s a).2 as

/-- The answers to a list of inputs. -/
def outputs : σ → List α → List β
  | _, [] => []
  | s, a :: as => (step s a).1 :: outputs (step s a).2 as

@[simp] theorem final_nil
    (s : σ) :
    final step s [] = s :=
  rfl

@[simp] theorem final_cons
    (s : σ) (a : α) (as : List α) :
    final step s (a :: as) = final step (step s a).2 as :=
  rfl

@[simp] theorem outputs_nil
    (s : σ) :
    outputs step s [] = [] :=
  rfl

@[simp] theorem outputs_cons
    (s : σ) (a : α) (as : List α) :
    outputs step s (a :: as) =
      (step s a).1 :: outputs step (step s a).2 as :=
  rfl

theorem final_append
    (s : σ) (as bs : List α) :
    final step s (as ++ bs) = final step (final step s as) bs := by
  induction as generalizing s with
  | nil => rfl
  | cons a as ih => exact ih (step s a).2

theorem outputs_append
    (s : σ) (as bs : List α) :
    outputs step s (as ++ bs) =
      outputs step s as ++ outputs step (final step s as) bs := by
  induction as generalizing s with
  | nil => rfl
  | cons a as ih =>
      simp only [List.cons_append, outputs_cons, final_cons, ih]

/-- What one step keeps, a run keeps. -/
theorem final_invariant
    {Inv : σ → Prop}
    (hstep : ∀ s a, Inv s → Inv (step s a).2)
    {s : σ} (hs : Inv s) (as : List α) :
    Inv (final step s as) := by
  induction as generalizing s with
  | nil => exact hs
  | cons a as ih => exact ih (hstep s a hs)

/-- A map that commutes with every step commutes with a run. -/
theorem final_map
    {τ : Type u} {γ : Type w} (step' : τ → α → γ × τ) (f : σ → τ)
    (hstep : ∀ s a, f (step s a).2 = (step' (f s) a).2) (s : σ) (as : List α) :
    f (final step s as) = final step' (f s) as := by
  induction as generalizing s with
  | nil => rfl
  | cons a as ih => rw [final_cons, ih, hstep, final_cons]

/-- An invariant that also speaks about the inputs and answers so far. -/
theorem history
    {Inv : List α → List β → σ → Prop} {s : σ}
    (hnil : Inv [] [] s)
    (hstep : ∀ as bs t a, Inv as bs t →
      Inv (as ++ [a]) (bs ++ [(step t a).1]) (step t a).2)
    (as : List α) :
    Inv as (outputs step s as) (final step s as) := by
  induction as using List.reverseRecOn with
  | nil => exact hnil
  | append_singleton as a ih =>
      rw [outputs_append, final_append]
      exact hstep as _ _ a ih

/-- A stretch of an extended list ends before the new entry, or with it. -/
theorem append_eq_append_singleton
    {before since log : List α} {e : α} (h : log ++ [e] = before ++ since) :
    (since = [] ∧ before = log ++ [e]) ∨
      ∃ since', since = since' ++ [e] ∧ log = before ++ since' := by
  rcases List.eq_nil_or_concat since with rfl | ⟨since', x, rfl⟩
  · exact Or.inl ⟨rfl, by simpa using h.symm⟩
  · rw [List.concat_eq_append, ← List.append_assoc] at h
    obtain ⟨hlog, hx⟩ := List.append_inj' h rfl
    simp only [List.cons.injEq, and_true] at hx
    exact Or.inr ⟨since', by rw [List.concat_eq_append, hx], hlog⟩

section Along

/-- `P` holds of every input of a run, with the state that it meets. -/
def Along (P : σ → α → Prop) : σ → List α → Prop
  | _, [] => True
  | s, a :: as => P s a ∧ Along P (step s a).2 as

variable {P Q : σ → α → Prop} {Inv : σ → Prop}

instance Along.decidable
    [∀ s a, Decidable (P s a)] :
    ∀ (s : σ) (as : List α), Decidable (Along step P s as)
  | _, [] => isTrue trivial
  | s, a :: as =>
      have := Along.decidable (step s a).2 as
      inferInstanceAs (Decidable (P s a ∧ Along step P (step s a).2 as))

theorem along_append
    (s : σ) (as bs : List α) :
    Along step P s (as ++ bs) ↔ Along step P s as ∧ Along step P (final step s as) bs := by
  induction as generalizing s with
  | nil => simp [Along]
  | cons a as ih =>
      simp only [List.cons_append, Along, final_cons, ih, and_assoc]

theorem along_and
    (s : σ) (as : List α) :
    Along step (fun s a => P s a ∧ Q s a) s as ↔ Along step P s as ∧ Along step Q s as := by
  induction as generalizing s with
  | nil => simp [Along]
  | cons a as ih =>
      simp only [Along, ih]
      exact and_and_and_comm

/-- What is the same for every step in good order is the same along a run, if only
the steps that have it need to leave things in order. -/
theorem along_congr_of
    (hstep : ∀ s a, Inv s → Q s a → Inv (step s a).2)
    (h : ∀ s a, Inv s → (P s a ↔ Q s a))
    {s : σ} (hs : Inv s) (as : List α) :
    Along step P s as ↔ Along step Q s as := by
  induction as generalizing s with
  | nil => exact Iff.rfl
  | cons a as ih =>
      refine ⟨fun hall => ?_, fun hall => ?_⟩
      · have hq := (h s a hs).mp hall.1
        exact ⟨hq, (ih (hstep s a hs hq)).mp hall.2⟩
      · exact ⟨(h s a hs).mpr hall.1, (ih (hstep s a hs hall.1)).mpr hall.2⟩

theorem along_congr
    (hstep : ∀ s a, Inv s → Inv (step s a).2)
    (h : ∀ s a, Inv s → (P s a ↔ Q s a))
    {s : σ} (hs : Inv s) (as : List α) :
    Along step P s as ↔ Along step Q s as :=
  along_congr_of step (fun s a hs _ => hstep s a hs) h hs as

/-- A property of states that each step keeps exactly under a condition. -/
theorem along_iff
    {K : σ → Prop}
    (hstep : ∀ s a, Inv s → Inv (step s a).2)
    (h : ∀ s a, Inv s → K s → (K (step s a).2 ↔ Q s a))
    {s : σ} (hs : Inv s) (hk : K s) (as : List α) :
    Along step (fun s a => K (step s a).2) s as ↔ Along step Q s as := by
  have hnext : ∀ s a, Inv s ∧ K s → Q s a → Inv (step s a).2 ∧ K (step s a).2 :=
    fun s a hs hq => ⟨hstep s a hs.1, (h s a hs.1 hs.2).mpr hq⟩
  exact along_congr_of step hnext (fun s a hs => h s a hs.1 hs.2) ⟨hs, hk⟩ as

end Along

section Emitted

variable {γ : Type w} (emit : σ → α → Option γ × σ)

/-- What a component gave out that does not answer every input. -/
def emitted (s : σ) (as : List α) : List γ :=
  (outputs emit s as).filterMap id

@[simp] theorem emitted_nil
    (s : σ) :
    emitted emit s [] = [] :=
  rfl

theorem emitted_cons
    (s : σ) (a : α) (as : List α) :
    emitted emit s (a :: as) =
      (emit s a).1.toList ++ emitted emit (emit s a).2 as := by
  unfold emitted
  rw [outputs_cons]
  cases (emit s a).1 <;> rfl

theorem emitted_append
    (s : σ) (as bs : List α) :
    emitted emit s (as ++ bs) =
      emitted emit s as ++ emitted emit (final emit s as) bs := by
  unfold emitted
  rw [outputs_append, List.filterMap_append]

/-- What was given out first comes from a first part of the inputs. -/
theorem emitted_eq_append
    {s : σ} {as : List α} {xs ys : List γ} (h : emitted emit s as = xs ++ ys) :
    ∃ bs cs, as = bs ++ cs ∧ emitted emit s bs = xs ∧
      emitted emit (final emit s bs) cs = ys := by
  induction as generalizing s xs with
  | nil =>
      obtain ⟨rfl, rfl⟩ := List.nil_eq_append_iff.mp h
      exact ⟨[], [], rfl, rfl, rfl⟩
  | cons a as ih =>
      rw [emitted_cons] at h
      cases ha : (emit s a).1 with
      | none =>
          rw [ha] at h
          obtain ⟨bs, cs, rfl, hbs, hcs⟩ := ih h
          refine ⟨a :: bs, cs, rfl, ?_, hcs⟩
          rw [emitted_cons, ha]
          exact hbs
      | some x =>
          rw [ha] at h
          cases xs with
          | nil =>
              refine ⟨[], a :: as, rfl, rfl, ?_⟩
              rw [final_nil, emitted_cons, ha]
              exact h
          | cons x' xs =>
              obtain ⟨rfl, htail⟩ := List.cons.inj h
              obtain ⟨bs, cs, rfl, hbs, hcs⟩ := ih htail
              refine ⟨a :: bs, cs, rfl, ?_, hcs⟩
              rw [emitted_cons, ha, hbs]
              rfl

/-- What was given out at some point comes from one input. -/
theorem emitted_eq_append_cons
    {s : σ} {as : List α} {xs ys : List γ} {x : γ}
    (h : emitted emit s as = xs ++ x :: ys) :
    ∃ bs a cs, as = bs ++ a :: cs ∧ (emit (final emit s bs) a).1 = some x ∧
      emitted emit (emit (final emit s bs) a).2 cs = ys := by
  induction as generalizing s xs with
  | nil => exact absurd h (by simp)
  | cons a as ih =>
      rw [emitted_cons] at h
      cases ha : (emit s a).1 with
      | none =>
          rw [ha] at h
          obtain ⟨bs, b, cs, rfl, hb, hcs⟩ := ih h
          exact ⟨a :: bs, b, cs, rfl, hb, hcs⟩
      | some x' =>
          rw [ha] at h
          cases xs with
          | nil =>
              obtain ⟨rfl, htail⟩ := List.cons.inj h
              exact ⟨[], a, as, rfl, ha, htail⟩
          | cons x'' xs =>
              obtain ⟨-, htail⟩ := List.cons.inj h
              obtain ⟨bs, b, cs, rfl, hb, hcs⟩ := ih htail
              exact ⟨a :: bs, b, cs, rfl, hb, hcs⟩

end Emitted

end Run
end FocusVision
