import FocusVision.Lib.Utf8

/-!
# Scanning a text and masking what is found

A scanner goes over the positions of a text and at each one finds something or nothing
and moves on; the spans that it finds are then replaced by a label.  What a scanner does
is a derivation, `Found`; what is left of the text after the replacement is seen through
the segments that are kept.
-/

namespace FocusVision
namespace TextScan

universe u

variable {α : Type u}

/-! ### Runs of bytes -/

/-- The end of the run of `p` that begins at `i`, before `hi`. -/
def forward (p : α → Bool) (xs : List α) (i hi : Nat) : Nat :=
  i + (((xs.take hi).drop i).takeWhile p).length

/-- The beginning of the run of `p` that ends at `i`, from `lo` on. -/
def backward (p : α → Bool) (xs : List α) (lo i : Nat) : Nat :=
  i - (((xs.take i).drop lo).reverse.takeWhile p).length

/-- All elements from `i` up to `j` are in `p`. -/
def AllIn (p : α → Bool) (xs : List α) (i j : Nat) : Prop :=
  ∀ k, i ≤ k → k < j → ∃ c, xs[k]? = some c ∧ p c = true

/-- `j` is the end of the run of `p` that begins at `i`. -/
structure RunEnd (p : α → Bool) (xs : List α) (i hi j : Nat) : Prop where
  le : i ≤ j
  le_hi : j ≤ hi
  all : AllIn p xs i j
  stop : j = hi ∨ ∃ c, xs[j]? = some c ∧ p c = false

/-- A run that begins with an element of `p` is not empty. -/
theorem RunEnd.lt
    {p : α → Bool} {xs : List α} {i hi j : Nat} (h : RunEnd p xs i hi j) (hi : i < hi) {c : α}
    (hc : xs[i]? = some c) (hp : p c = true) :
    i < j := by
  rcases Nat.eq_or_lt_of_le h.le with rfl | hlt
  · rcases h.stop with rfl | ⟨d, hd, hnot⟩
    · exact absurd hi (Nat.lt_irrefl _)
    · obtain rfl := Option.some.inj (hc.symm.trans hd)
      exact nomatch hp.symm.trans hnot
  · exact hlt

/-- `j` is the beginning of the run of `p` that ends at `i`. -/
structure RunStart (p : α → Bool) (xs : List α) (lo i j : Nat) : Prop where
  le : j ≤ i
  lo_le : lo ≤ j
  all : AllIn p xs j i
  stop : j = lo ∨ ∃ c, xs[j - 1]? = some c ∧ p c = false

theorem takeWhile_spec
    (p : α → Bool) (xs : List α) :
    (∀ k, k < (xs.takeWhile p).length → ∃ c, xs[k]? = some c ∧ p c = true) ∧
      ((xs.takeWhile p).length = xs.length ∨
        ∃ c, xs[(xs.takeWhile p).length]? = some c ∧ p c = false) := by
  induction xs with
  | nil => exact ⟨fun k hk => (nomatch hk), Or.inl rfl⟩
  | cons x xs ih =>
      cases hx : p x with
      | false =>
          rw [List.takeWhile_cons_of_neg (by simp [hx])]
          exact ⟨fun k hk => (nomatch hk), Or.inr ⟨x, rfl, hx⟩⟩
      | true =>
          rw [List.takeWhile_cons_of_pos hx, List.length_cons]
          obtain ⟨hall, hstop⟩ := ih
          refine ⟨fun k hk => ?_, ?_⟩
          · cases k with
            | zero => exact ⟨x, rfl, hx⟩
            | succ k => exact hall k (by omega)
          · rcases hstop with hlength | hc
            · exact Or.inl (by rw [hlength, List.length_cons])
            · exact Or.inr hc

theorem forward_spec
    (p : α → Bool) {xs : List α} {i hi : Nat} (hle : i ≤ hi) (hhi : hi ≤ xs.length) :
    RunEnd p xs i hi (forward p xs i hi) := by
  obtain ⟨hall, hstop⟩ := takeWhile_spec p ((xs.take hi).drop i)
  have hlength : ((xs.take hi).drop i).length = hi - i := by
    rw [List.length_drop, List.length_take, Nat.min_eq_left hhi]
  have hmax : (((xs.take hi).drop i).takeWhile p).length ≤ hi - i :=
    hlength ▸ (List.takeWhile_sublist p).length_le
  have hget : ∀ k, i + k < hi → ((xs.take hi).drop i)[k]? = xs[i + k]? := by
    intro k hk
    rw [List.getElem?_drop, List.getElem?_take_of_lt hk]
  unfold forward
  refine ⟨Nat.le_add_right _ _, by omega, fun k hik hk => ?_, ?_⟩
  · have hk' := hall (k - i) (by omega)
    rw [hget _ (by omega), Nat.add_sub_cancel' hik] at hk'
    exact hk'
  · rcases Nat.lt_or_ge (i + (((xs.take hi).drop i).takeWhile p).length) hi with hlt | hge
    · rcases hstop with hall | hc
      · omega
      · rw [hget _ hlt] at hc
        exact Or.inr hc
    · exact Or.inl (by omega)

theorem backward_spec
    (p : α → Bool) {xs : List α} {lo i : Nat} (hle : lo ≤ i) (hi : i ≤ xs.length) :
    RunStart p xs lo i (backward p xs lo i) := by
  obtain ⟨hall, hstop⟩ := takeWhile_spec p ((xs.take i).drop lo).reverse
  have hlength : ((xs.take i).drop lo).length = i - lo := by
    rw [List.length_drop, List.length_take, Nat.min_eq_left hi]
  have hmax : (((xs.take i).drop lo).reverse.takeWhile p).length ≤ i - lo := by
    have hsub := (@List.takeWhile_sublist _ ((xs.take i).drop lo).reverse p).length_le
    rwa [List.length_reverse, hlength] at hsub
  have hget : ∀ k, k < i - lo → ((xs.take i).drop lo).reverse[k]? = xs[i - 1 - k]? := by
    intro k hk
    rw [List.getElem?_reverse (by omega), hlength, List.getElem?_drop,
      List.getElem?_take_of_lt (by omega)]
    congr 1
    omega
  unfold backward
  refine ⟨Nat.sub_le _ _, by omega, fun k hik hk => ?_, ?_⟩
  · have hk' := hall (i - 1 - k) (by omega)
    rw [hget _ (by omega)] at hk'
    have hindex : i - 1 - (i - 1 - k) = k := by omega
    rwa [hindex] at hk'
  · rcases Nat.lt_or_ge (((xs.take i).drop lo).reverse.takeWhile p).length (i - lo) with hlt | hge
    · rcases hstop with hall | hc
      · rw [List.length_reverse, hlength] at hall
        omega
      · rw [hget _ hlt] at hc
        rw [Nat.sub_right_comm]
        exact Or.inr hc
    · exact Or.inl (by omega)

/-- There is one end of a run. -/
theorem RunEnd.unique
    {p : α → Bool} {xs : List α} {i hi j j' : Nat} (h : RunEnd p xs i hi j)
    (h' : RunEnd p xs i hi j') :
    j = j' := by
  have haux : ∀ {j j'}, RunEnd p xs i hi j → RunEnd p xs i hi j' → ¬j < j' := by
    intro j j' h h' hlt
    rcases h.stop with hend | ⟨c, hc, hp⟩
    · have := h'.le_hi
      omega
    · obtain ⟨d, hd, hpd⟩ := h'.all j h.le hlt
      obtain rfl := Option.some.inj (hc.symm.trans hd)
      exact nomatch hp.symm.trans hpd
  exact Nat.le_antisymm (Nat.not_lt.mp (haux h' h)) (Nat.not_lt.mp (haux h h'))

theorem forward_eq_iff
    (p : α → Bool) {xs : List α} {i hi j : Nat} (hle : i ≤ hi) (hhi : hi ≤ xs.length) :
    forward p xs i hi = j ↔ RunEnd p xs i hi j :=
  ⟨fun h => h ▸ forward_spec p hle hhi, fun h => (forward_spec p hle hhi).unique h⟩

/-! ### Scanners -/

section Scan

variable {β : Type u} (step : Nat → Option (Option β × Nat)) (stop : Nat)

/-- A scan from `i`; a step that fails makes it fail. -/
def scanFrom : Nat → Nat → Option (List β)
  | 0, _ => some []
  | turns + 1, i =>
      if i < stop then
        match step i with
        | none => none
        | some (found, next) => (scanFrom turns next).map (found.toList ++ ·)
      else some []

/-- A scan from the beginning. -/
def scan : Option (List β) :=
  scanFrom step stop stop 0

/-- What a scan from `i` finds. -/
inductive Found : Nat → List β → Prop where
  | done {i : Nat} (h : stop ≤ i) : Found i []
  | step {i next : Nat} {found : Option β} {rest : List β} (h : i < stop)
      (hstep : step i = some (found, next)) (hrest : Found next rest) :
      Found i (found.toList ++ rest)

variable {step stop}

/-- A scanner whose steps go on reaches the end. -/
theorem scanFrom_found
    {turns i : Nat}
    (hstep : ∀ j, i ≤ j → j < stop → ∃ found next, step j = some (found, next) ∧ j < next)
    (hturns : stop ≤ i + turns) :
    ∃ xs, scanFrom step stop turns i = some xs ∧ Found step stop i xs := by
  induction turns generalizing i with
  | zero => exact ⟨[], rfl, .done (by omega)⟩
  | succ turns ih =>
      unfold scanFrom
      by_cases hi : i < stop
      · obtain ⟨found, next, heq, hnext⟩ := hstep i (Nat.le_refl i) hi
        obtain ⟨rest, hrest, hfound⟩ :=
          ih (fun j hj hlt => hstep j (by omega) hlt) (by omega : stop ≤ next + turns)
        refine ⟨found.toList ++ rest, ?_, .step hi heq hfound⟩
        rw [if_pos hi, heq]
        simp only [hrest, Option.map_some]
      · exact ⟨[], if_neg hi, .done (by omega)⟩

theorem scan_found
    (hstep : ∀ i, i < stop → ∃ found next, step i = some (found, next) ∧ i < next) :
    ∃ xs, scan step stop = some xs ∧ Found step stop 0 xs :=
  scanFrom_found (fun j _ hlt => hstep j hlt) (by omega)

/-- A position that no step jumps over is visited. -/
theorem Found.visits
    {Inv : Nat → Prop} {i t : Nat} {xs : List β} (h : Found step stop i xs) (hi : Inv i)
    (hit : i ≤ t) (ht : t < stop)
    (hjump : ∀ j, Inv j → j < t → ∀ found next, step j = some (found, next) →
      (∀ x ∈ found, x ∈ xs) → Inv next ∧ next ≤ t) :
    ∃ found next, step t = some (found, next) ∧ ∀ x ∈ found, x ∈ xs := by
  induction h with
  | done hle => omega
  | @step j next found rest hlt hstep _ ih =>
      have hfound : ∀ x ∈ found, x ∈ found.toList ++ rest := by
        intro x hx
        exact List.mem_append_left _ (Option.mem_toList.mpr hx)
      rcases Nat.eq_or_lt_of_le hit with rfl | hjt
      · exact ⟨found, next, hstep, hfound⟩
      · obtain ⟨hinv, hle⟩ := hjump j hi hjt found next hstep hfound
        obtain ⟨found', next', hstep', hmem⟩ := ih hinv hle
          (fun k hk hkt f n hs hf => hjump k hk hkt f n hs fun x hx =>
            List.mem_append_right _ (hf x hx))
        exact ⟨found', next', hstep', fun x hx => List.mem_append_right _ (hmem x hx)⟩

/-- The same without an invariant. -/
theorem Found.visits_of_le
    {i t : Nat} {xs : List β} (h : Found step stop i xs) (hit : i ≤ t) (ht : t < stop)
    (hjump : ∀ j, j < t → ∀ found next, step j = some (found, next) →
      (∀ x ∈ found, x ∈ xs) → next ≤ t) :
    ∃ found next, step t = some (found, next) ∧ ∀ x ∈ found, x ∈ xs :=
  @Found.visits β step stop (fun _ => True) i t xs h trivial hit ht
    fun j _ hjt found next hstep hmem => ⟨trivial, hjump j hjt found next hstep hmem⟩

/-- What is found is found at some position. -/
theorem Found.mem
    {i : Nat} {xs : List β} (h : Found step stop i xs) {x : β} (hx : x ∈ xs) :
    ∃ j next, j < stop ∧ step j = some (some x, next) := by
  induction h with
  | done _ => exact nomatch hx
  | @step j next found rest hlt hstep _ ih =>
      rcases List.mem_append.mp hx with hfound | hrest
      · obtain rfl := Option.mem_toList.mp hfound
        exact ⟨j, next, hlt, hstep⟩
      · exact ih hrest

end Scan

/-! ### Replacing spans -/

/-- The bytes from one position up to another. -/
abbrev Span : Type := Nat × Nat

/-- Spans that follow each other from `lo` on, none of them empty. -/
def Ordered : Nat → List Span → Prop
  | _, [] => True
  | lo, s :: rest => lo ≤ s.1 ∧ s.1 < s.2 ∧ Ordered s.2 rest

/-- `out` is `text` with a label in place of each span; the first byte of `text` is at
`offset`. -/
inductive Replaced (label : List α) : Nat → List Span → List α → List α → Prop where
  | done {offset : Nat} {text : List α} : Replaced label offset [] text text
  | span {offset : Nat} {spans : List Span} {kept gone text out : List α}
      (hrest : Replaced label (offset + kept.length + gone.length) spans text out) :
      Replaced label offset
        ((offset + kept.length, offset + kept.length + gone.length) :: spans)
        (kept ++ gone ++ text) (kept ++ label ++ out)

theorem Ordered.mono
    {lo lo' : Nat} {spans : List Span} (h : Ordered lo spans) (hle : lo' ≤ lo) :
    Ordered lo' spans := by
  cases spans with
  | nil => trivial
  | cons s spans => exact ⟨Nat.le_trans hle h.1, h.2⟩

theorem Ordered.mem
    {lo : Nat} {spans : List Span} (h : Ordered lo spans) {s : Span} (hs : s ∈ spans) :
    lo ≤ s.1 ∧ s.1 < s.2 := by
  induction spans generalizing lo with
  | nil => exact nomatch hs
  | cons t spans ih =>
      rcases List.mem_cons.mp hs with rfl | hs
      · exact ⟨h.1, h.2.1⟩
      · have hlo := ih h.2.2 hs
        have := h.1
        have := h.2.1
        omega

/-- Two of them do not overlap. -/
theorem Ordered.apart
    {lo : Nat} {spans : List Span} (h : Ordered lo spans) {s t : Span} (hs : s ∈ spans)
    (ht : t ∈ spans) (hlt : s.1 < t.1) :
    s.2 ≤ t.1 := by
  induction spans generalizing lo with
  | nil => exact nomatch hs
  | cons u spans ih =>
      obtain ⟨-, hu, hrest⟩ := h
      rcases List.mem_cons.mp hs with rfl | hs'
      · rcases List.mem_cons.mp ht with rfl | ht'
        · omega
        · exact (hrest.mem ht').1
      · rcases List.mem_cons.mp ht with rfl | ht'
        · have := (hrest.mem hs').1
          omega
        · exact ih hrest hs' ht'

/-- Spans that do not overlap are in order. -/
theorem ordered_of_pairwise
    {lo : Nat} {spans : List Span} (hlo : ∀ s ∈ spans, lo ≤ s.1 ∧ s.1 < s.2)
    (h : spans.Pairwise fun s t => s.2 ≤ t.1) :
    Ordered lo spans := by
  induction spans generalizing lo with
  | nil => trivial
  | cons s spans ih =>
      obtain ⟨hs, hrest⟩ := List.pairwise_cons.mp h
      obtain ⟨hle, hlt⟩ := hlo s List.mem_cons_self
      refine ⟨hle, hlt, ih (fun t ht => ⟨hs t ht, ?_⟩) hrest⟩
      exact (hlo t (List.mem_cons_of_mem _ ht)).2

theorem drop_eq_append
    {a b : Nat} (h : a ≤ b) {xs : List α} (hb : b ≤ xs.length) :
    xs.drop a = (xs.take b).drop a ++ xs.drop b := by
  have hlength : a ≤ (xs.take b).length := by
    rw [List.length_take, Nat.min_eq_left hb]
    exact h
  rw [← List.drop_append_of_le_length hlength, List.take_append_drop]

/-- What a scanner finds is in order, if each step looks behind what it has found. -/
theorem Found.ordered
    {step : Nat → Option (Option Span × Nat)} {stop i : Nat} {xs : List Span}
    (h : Found step stop i xs) {P : Span → Prop}
    (hstep : ∀ j, i ≤ j → j < stop → ∀ found next, step j = some (found, next) →
      j < next ∧ ∀ s ∈ found, (j ≤ s.1 ∧ s.1 < s.2 ∧ s.2 ≤ next) ∧ P s) :
    Ordered i xs ∧ ∀ s ∈ xs, P s := by
  induction h with
  | done _ => exact ⟨trivial, fun s hs => nomatch hs⟩
  | @step j next found rest hlt heq _ ih =>
      obtain ⟨hnext, hspan⟩ := hstep j (Nat.le_refl j) hlt _ _ heq
      obtain ⟨hrest, hall⟩ := ih fun k hk hks => hstep k (by omega) hks
      cases found with
      | none => exact ⟨hrest.mono (Nat.le_of_lt hnext), hall⟩
      | some s =>
          obtain ⟨⟨hle, hpos, hbefore⟩, hP⟩ := hspan s rfl
          refine ⟨⟨hle, hpos, hrest.mono hbefore⟩, fun t ht => ?_⟩
          rcases List.mem_cons.mp ht with rfl | ht
          · exact hP
          · exact hall t ht

end TextScan
end FocusVision
