import Mathlib.Data.List.Basic

/-!
# A bounded mailbox

A queue between two tasks with room for a number of entries.  Sending never waits: it
fails when the mailbox is full, or closed by its receiver.
-/

namespace FocusVision

universe u

structure Mailbox (α : Type u) where
  waiting : List α := []
  closed : Bool := false

namespace Mailbox

variable {α : Type u}

/-- There is room for one more entry. -/
def HasRoom (capacity : Nat) (m : Mailbox α) : Prop :=
  m.closed = false ∧ m.waiting.length < capacity

instance (capacity : Nat) (m : Mailbox α) : Decidable (m.HasRoom capacity) :=
  inferInstanceAs (Decidable (_ ∧ _))

/-- `try_send`: whether it was sent. -/
def trySend (capacity : Nat) (m : Mailbox α) (x : α) : Bool × Mailbox α :=
  if m.HasRoom capacity then (true, { m with waiting := m.waiting ++ [x] }) else (false, m)

/-- `recv`: the oldest entry. -/
def recv (m : Mailbox α) : Option α × Mailbox α :=
  match m.closed, m.waiting with
  | false, x :: rest => (some x, { m with waiting := rest })
  | _, _ => (none, m)

/-- The receiver is gone, and what waited for it. -/
def close (_ : Mailbox α) : Mailbox α :=
  { waiting := [], closed := true }

theorem trySend_of_room
    {capacity : Nat} {m : Mailbox α} (h : m.HasRoom capacity) (x : α) :
    m.trySend capacity x = (true, { m with waiting := m.waiting ++ [x] }) :=
  if_pos h

theorem trySend_of_no_room
    {capacity : Nat} {m : Mailbox α} (h : ¬m.HasRoom capacity) (x : α) :
    m.trySend capacity x = (false, m) :=
  if_neg h

@[simp] theorem trySend_closed
    (capacity : Nat) (m : Mailbox α) (x : α) :
    (m.trySend capacity x).2.closed = m.closed := by
  unfold trySend
  split
  · rfl
  · rfl

/-- A property of the entries that a send does not change, for an entry that does not
count. -/
theorem flatMap_trySend
    {β : Type u} {f : α → List β} {x : α} (h : f x = []) (capacity : Nat) (m : Mailbox α) :
    (m.trySend capacity x).2.waiting.flatMap f = m.waiting.flatMap f := by
  unfold trySend
  split
  · simp [h]
  · rfl

end Mailbox
end FocusVision
