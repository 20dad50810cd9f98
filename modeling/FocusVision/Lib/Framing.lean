import FocusVision.Lib.Run

/-!
# Incremental framing

A framer takes the next message off the front of a buffer, once it has fully
arrived.  `drain` takes messages until none is left or the buffer turns out bad,
and a `Receiver` drains its inbox after every chunk that it reads, until it meets
something bad.  The result is that the cutting of the stream into chunks does not
matter: `received_eq`.
-/

namespace FocusVision

universe u v w

/--
`take` answers `none` while the next message is incomplete, and may drop bytes that
carry nothing.  What it answers once, it answers whatever arrives later.
-/
structure Framer (α : Type u) (μ : Type v) (ε : Type w) where
  take : List α → Except ε (Option μ) × List α
  shrinks : ∀ {xs m rest}, take xs = (.ok (some m), rest) → rest.length < xs.length
  message_append : ∀ {xs m rest}, take xs = (.ok (some m), rest) →
    ∀ ys, take (xs ++ ys) = (.ok (some m), rest ++ ys)
  error_append : ∀ {xs e rest}, take xs = (.error e, rest) →
    ∀ ys, take (xs ++ ys) = (.error e, rest ++ ys)
  none_append : ∀ {xs rest}, take xs = (.ok none, rest) →
    ∀ ys, take (xs ++ ys) = take (rest ++ ys)

/-- The messages that a buffer held, what was wrong with it, and what is left of it. -/
structure Drained (α : Type u) (μ : Type v) (ε : Type w) where
  messages : List μ
  error : Option ε
  rest : List α

namespace Drained

variable {α : Type u} {μ : Type v} {ε : Type w}

/-- The same, after the messages `ms`. -/
def after (ms : List μ) (d : Drained α μ ε) : Drained α μ ε :=
  { d with messages := ms ++ d.messages }

@[simp] theorem after_messages
    (ms : List μ) (d : Drained α μ ε) :
    (d.after ms).messages = ms ++ d.messages :=
  rfl

@[simp] theorem after_error
    (ms : List μ) (d : Drained α μ ε) :
    (d.after ms).error = d.error :=
  rfl

@[simp] theorem after_rest
    (ms : List μ) (d : Drained α μ ε) :
    (d.after ms).rest = d.rest :=
  rfl

@[simp] theorem after_nil
    (d : Drained α μ ε) :
    d.after [] = d :=
  rfl

theorem after_after
    (ms ms' : List μ) (d : Drained α μ ε) :
    (d.after ms').after ms = d.after (ms ++ ms') := by
  unfold after
  rw [List.append_assoc]

end Drained

namespace Framer

variable {α : Type u} {μ : Type v} {ε : Type w} (F : Framer α μ ε)

/-- Take messages until none is complete. -/
def drain (xs : List α) : Drained α μ ε :=
  match h : F.take xs with
  | (.ok (some m), rest) =>
      have : rest.length < xs.length := F.shrinks h
      (drain rest).after [m]
  | (.ok none, rest) => ⟨[], none, rest⟩
  | (.error e, rest) => ⟨[], some e, rest⟩
termination_by xs.length

section Steps

variable {F} {xs rest : List α}

theorem drain_message
    {m : μ} (h : F.take xs = (.ok (some m), rest)) :
    F.drain xs = (F.drain rest).after [m] := by
  rw [drain]
  split
  · rename_i heq
    rw [h] at heq
    cases heq
    rfl
  · rename_i heq
    rw [h] at heq
    cases heq
  · rename_i heq
    rw [h] at heq
    cases heq

theorem drain_none
    (h : F.take xs = (.ok none, rest)) :
    F.drain xs = ⟨[], none, rest⟩ := by
  rw [drain]
  split
  · rename_i heq
    rw [h] at heq
    cases heq
  · rename_i heq
    rw [h] at heq
    cases heq
    rfl
  · rename_i heq
    rw [h] at heq
    cases heq

theorem drain_error
    {e : ε} (h : F.take xs = (.error e, rest)) :
    F.drain xs = ⟨[], some e, rest⟩ := by
  rw [drain]
  split
  · rename_i heq
    rw [h] at heq
    cases heq
  · rename_i heq
    rw [h] at heq
    cases heq
  · rename_i heq
    rw [h] at heq
    cases heq
    rfl

end Steps

/-- Induction along the messages that `drain` takes. -/
theorem drain_induction
    {P : List α → Prop}
    (hmessage : ∀ xs m rest, F.take xs = (.ok (some m), rest) → P rest → P xs)
    (hnone : ∀ xs rest, F.take xs = (.ok none, rest) → P xs)
    (herror : ∀ xs e rest, F.take xs = (.error e, rest) → P xs)
    (xs : List α) :
    P xs := by
  rcases h : F.take xs with ⟨e | _ | m, rest⟩
  · exact herror xs e rest h
  · exact hnone xs rest h
  · have : rest.length < xs.length := F.shrinks h
    exact hmessage xs m rest h (drain_induction hmessage hnone herror rest)
termination_by xs.length

variable {F}

theorem drain_congr
    {xs ys : List α} (h : F.take xs = F.take ys) :
    F.drain xs = F.drain ys := by
  rcases hy : F.take ys with ⟨e | _ | m, rest⟩
  · rw [drain_error hy, drain_error (h.trans hy)]
  · rw [drain_none hy, drain_none (h.trans hy)]
  · rw [drain_message hy, drain_message (h.trans hy)]

/-- What is left of a good buffer is taken up when more arrives. -/
theorem drain_append
    {xs : List α} (h : (F.drain xs).error = none) (ys : List α) :
    F.drain (xs ++ ys) =
      (F.drain ((F.drain xs).rest ++ ys)).after (F.drain xs).messages := by
  induction xs using F.drain_induction with
  | hmessage xs m rest htake ih =>
      rw [drain_message htake] at h ⊢
      rw [drain_message (F.message_append htake ys), ih h]
      exact Drained.after_after _ _ _
  | hnone xs rest htake =>
      rw [drain_none htake]
      exact drain_congr (F.none_append htake ys)
  | herror xs e rest htake =>
      rw [drain_error htake] at h
      exact absurd h (Option.some_ne_none e)

/-- Nothing that arrives later changes a bad buffer. -/
theorem drain_append_of_error
    {xs : List α} {e : ε} (h : (F.drain xs).error = some e) (ys : List α) :
    F.drain (xs ++ ys) =
      ⟨(F.drain xs).messages, some e, (F.drain xs).rest ++ ys⟩ := by
  induction xs using F.drain_induction with
  | hmessage xs m rest htake ih =>
      rw [drain_message htake] at h ⊢
      rw [drain_message (F.message_append htake ys), ih h]
      rfl
  | hnone xs rest htake =>
      rw [drain_none htake] at h
      exact absurd h.symm (Option.some_ne_none e)
  | herror xs e' rest htake =>
      rw [drain_error htake] at h ⊢
      obtain rfl : e' = e := Option.some.inj h
      rw [drain_error (F.error_append htake ys)]

/-- Items that are taken one by one, encoded one after the other. -/
theorem drain_flatMap
    {ι : Type*} {encode : ι → List α} {decode : ι → μ} {items : List ι}
    (htake : ∀ i ∈ items, ∀ ys, F.take (encode i ++ ys) = (.ok (some (decode i)), ys))
    (ys : List α) :
    F.drain (items.flatMap encode ++ ys) = (F.drain ys).after (items.map decode) := by
  induction items with
  | nil => rfl
  | cons i items ih =>
      have hfirst := htake i List.mem_cons_self (items.flatMap encode ++ ys)
      rw [← List.append_assoc] at hfirst
      rw [List.flatMap_cons, drain_message hfirst,
        ih (fun j hj => htake j (List.mem_cons_of_mem i hj))]
      exact Drained.after_after [decode i] (items.map decode) _

/-! ### Reading in chunks -/

/-- The inbox of a connection, and why it was closed. -/
structure Receiver (α : Type u) (ε : Type w) where
  inbox : List α
  error : Option ε

variable (F)

/-- Read a chunk and drain the inbox; a closed connection reads nothing. -/
def receive (s : Receiver α ε) (chunk : List α) : List μ × Receiver α ε :=
  match s.error with
  | some _ => ([], s)
  | none =>
      let d := F.drain (s.inbox ++ chunk)
      (d.messages, ⟨d.rest, d.error⟩)

/-- Every message that came in with the chunks, and the connection after them. -/
def received (chunks : List (List α)) : List μ × Receiver α ε :=
  ((Run.outputs F.receive ⟨[], none⟩ chunks).flatten,
    Run.final F.receive ⟨[], none⟩ chunks)

/--
What came in with the chunks is what their concatenation holds.  Without an error
the inbox is what is left of it; after one, the inbox and the chunks that are not
read any more.
-/
structure Reads (chunks : List (List α)) (messages : List μ) (s : Receiver α ε) : Prop where
  messages_eq : messages = (F.drain chunks.flatten).messages
  error_eq : s.error = (F.drain chunks.flatten).error
  rest_eq : ∃ unread, (F.drain chunks.flatten).rest = s.inbox ++ unread ∧
    (s.error = none → unread = []) ∧ unread <:+ chunks.flatten

variable {F}

theorem Reads.receive
    {chunks : List (List α)} {messages : List μ} {s : Receiver α ε}
    (h : F.Reads chunks messages s) (chunk : List α) :
    F.Reads (chunks ++ [chunk]) (messages ++ (F.receive s chunk).1) (F.receive s chunk).2 := by
  have hflatten : (chunks ++ [chunk]).flatten = chunks.flatten ++ chunk := by simp
  obtain ⟨unread, hrest, hnone, hsuffix⟩ := h.rest_eq
  unfold Framer.receive
  cases herror : s.error with
  | some e =>
      have hbad := drain_append_of_error (h.error_eq.symm.trans herror) chunk
      refine ⟨?_, ?_, unread ++ chunk, ?_, ?_, ?_⟩
      · rw [hflatten, hbad, List.append_nil]
        exact h.messages_eq
      · rw [hflatten, hbad]
        exact herror
      · rw [hflatten, hbad, hrest, List.append_assoc]
      · intro hclosed
        exact absurd (herror.symm.trans hclosed) (Option.some_ne_none e)
      · rw [hflatten]
        obtain ⟨read, hread⟩ := hsuffix
        exact ⟨read, by rw [← hread, List.append_assoc]⟩
  | none =>
      have hgood := drain_append (h.error_eq.symm.trans herror) chunk
      rw [hrest, hnone herror, List.append_nil] at hgood
      refine ⟨?_, ?_, [], ?_, fun _ => rfl, List.nil_suffix⟩
      · rw [hflatten, hgood, h.messages_eq]
        rfl
      · rw [hflatten, hgood]
        rfl
      · rw [hflatten, hgood, List.append_nil]
        rfl

/-- The cutting of the stream into chunks does not matter. -/
theorem received_reads
    (hempty : F.take [] = (.ok none, [])) (chunks : List (List α)) :
    F.Reads chunks (F.received chunks).1 (F.received chunks).2 := by
  refine @Run.history _ _ _ F.receive (fun as bs s => F.Reads as bs.flatten s)
    ⟨[], none⟩ ?_ ?_ chunks
  · have hdrain := drain_none hempty
    exact ⟨by simp [hdrain], by simp [hdrain], [], by simp [hdrain], fun _ => rfl,
      List.nil_suffix⟩
  · intro as bs t a h
    rw [List.flatten_append, List.flatten_singleton]
    exact h.receive a

end Framer
end FocusVision
