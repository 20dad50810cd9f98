import Mathlib.Data.List.Basic

/-!
# Programs that can be killed

A program makes calls whose answers its environment decides, and changes a state that
outlives it.  It is killed at the first call that has no answer.  A triple says in which
state it leaves off when it returns and when it is killed, and that it does not panic.
-/

namespace FocusVision

/-- How a program ends. -/
inductive Exit (α : Type) where
  | returned (a : α)
  | killed
  | panicked

/-- From the answers to its calls and the state: its end, the other answers, the state. -/
def Prog (ω σ α : Type) : Type :=
  List ω → σ → Exit α × List ω × σ

namespace Prog

variable {ω σ α β : Type}

instance : Monad (Prog ω σ) where
  pure a := fun answers s => (.returned a, answers, s)
  bind p f := fun answers s =>
    match p answers s with
    | (.returned a, rest, t) => f a rest t
    | (.killed, rest, t) => (.killed, rest, t)
    | (.panicked, rest, t) => (.panicked, rest, t)

/-- The answer to the next call. -/
def call : Prog ω σ ω := fun answers s =>
  match answers with
  | [] => (.killed, [], s)
  | a :: rest => (.returned a, rest, s)

def get : Prog ω σ σ := fun answers s => (.returned s, answers, s)

def modify (f : σ → σ) : Prog ω σ Unit := fun answers s => (.returned (), answers, f s)

/-- The value, unless it is out of bounds. -/
def checked (ok : Prop) [Decidable ok] (a : α) : Prog ω σ α := fun answers s =>
  if ok then (.returned a, answers, s) else (.panicked, answers, s)

/-- From `P`, with answers that are allowed, the program returns with `Q` or is killed
with `C`. -/
def Triple (allowed : ω → Prop) (P : σ → Prop) (p : Prog ω σ α) (Q : α → σ → Prop)
    (C : σ → Prop) : Prop :=
  ∀ answers s, (∀ a ∈ answers, allowed a) → P s →
    match p answers s with
    | (.returned a, rest, t) => (∀ a ∈ rest, allowed a) ∧ Q a t
    | (.killed, _, t) => C t
    | (.panicked, _, _) => False

namespace Triple

variable {allowed : ω → Prop} {P P' C : σ → Prop} {Q Q' : α → σ → Prop} {R : β → σ → Prop}
variable {p : Prog ω σ α} {f : α → Prog ω σ β}

theorem ret
    {a : α} (h : ∀ s, P s → Q a s) :
    Triple allowed P (pure a) Q C :=
  fun _ s hall hs => ⟨hall, h s hs⟩

theorem bind
    (hp : Triple allowed P p Q C) (hf : ∀ a, Triple allowed (Q a) (f a) R C) :
    Triple allowed P (p >>= f) R C := by
  intro answers s hall hs
  have hfirst := hp answers s hall hs
  simp only [Bind.bind]
  revert hfirst
  rcases p answers s with ⟨exit, rest, t⟩
  cases exit with
  | returned a => exact fun ⟨hrest, ht⟩ => hf a rest t hrest ht
  | killed => exact id
  | panicked => exact id

theorem weaken
    (hp : Triple allowed P p Q C) (hpre : ∀ s, P' s → P s)
    (hpost : ∀ a s, Q a s → Q' a s) :
    Triple allowed P' p Q' C := by
  intro answers s hall hs
  have hrun := hp answers s hall (hpre s hs)
  revert hrun
  rcases p answers s with ⟨exit, rest, t⟩
  cases exit with
  | returned a => exact fun ⟨hrest, ht⟩ => ⟨hrest, hpost a t ht⟩
  | killed => exact id
  | panicked => exact id

/-- Where it is killed, more may hold. -/
theorem weaken_killed
    {C' : σ → Prop} (hp : Triple allowed P p Q C) (hkilled : ∀ s, C s → C' s) :
    Triple allowed P p Q C' := by
  intro answers s hall hs
  have hrun := hp answers s hall hs
  revert hrun
  rcases p answers s with ⟨exit, rest, t⟩
  cases exit with
  | returned a => exact id
  | killed => exact hkilled t
  | panicked => exact id

/-- What does not depend on the state can be used for the rest of the program. -/
theorem of_fact
    {fact : Prop} (h : fact → Triple allowed P p Q C) :
    Triple allowed (fun s => fact ∧ P s) p Q C :=
  fun answers s hall hs => h hs.1 answers s hall hs.2

theorem of_exists
    {ι : Sort*} {P : ι → σ → Prop} (h : ∀ i, Triple allowed (P i) p Q C) :
    Triple allowed (fun s => ∃ i, P i s) p Q C :=
  fun answers s hall ⟨i, hs⟩ => h i answers s hall hs

/-- A call finds the program alive or kills it. -/
theorem call
    (hkilled : ∀ s, P s → C s) :
    Triple allowed P Prog.call (fun a s => allowed a ∧ P s) C := by
  intro answers s hall hs
  cases answers with
  | nil => exact hkilled s hs
  | cons a rest =>
      exact ⟨fun b hb => hall b (List.mem_cons_of_mem _ hb), hall a List.mem_cons_self, hs⟩

theorem get :
    Triple allowed P Prog.get (fun a s => a = s ∧ P s) C :=
  fun _ _ hall hs => ⟨hall, rfl, hs⟩

theorem modify
    {g : σ → σ} {Q : σ → Prop} (h : ∀ s, P s → Q (g s)) :
    Triple allowed P (Prog.modify g) (fun _ => Q) C :=
  fun _ s hall hs => ⟨hall, h s hs⟩

theorem checked
    {ok : Prop} [Decidable ok] {a : α} (hok : ∀ s, P s → ok) (h : ∀ s, P s → Q a s) :
    Triple allowed P (Prog.checked ok a) Q C := by
  intro answers s hall hs
  unfold Prog.checked
  rw [if_pos (hok s hs)]
  exact ⟨hall, h s hs⟩

/-- A branch of the program. -/
theorem ite
    {c : Prop} [Decidable c] {q : Prog ω σ α}
    (hpos : c → Triple allowed P p Q C) (hneg : ¬c → Triple allowed P q Q C) :
    Triple allowed P (if c then p else q) Q C := by
  by_cases hc : c
  · rw [if_pos hc]
    exact hpos hc
  · rw [if_neg hc]
    exact hneg hc

end Triple
end Prog
end FocusVision
