import Mathlib.Data.List.Basic
import Mathlib.Data.List.Induction

/-!
# Lines with a key and a value

A line may be a field: a key, a separator and a value.  Reading a key from a list of
lines keeps the value of its last field and fails at a value that cannot be read,
whatever the lines of other keys are.
-/

namespace FocusVision
namespace KeyedLines

universe u v

variable {α : Type u} {β : Type v} [DecidableEq α]

/-- What stands before and after the first separator. -/
def cut (sep : α) : List α → Option (List α × List α)
  | [] => none
  | c :: rest =>
      if c = sep then some ([], rest)
      else (cut sep rest).map fun parts => (c :: parts.1, parts.2)

/-- The value, if the line is a field of this key. -/
def field? (sep : α) (key line : List α) : Option (List α) :=
  (cut sep line).bind fun parts => if parts.1 = key then some parts.2 else none

/-- The last field of the key among the lines has this value. -/
def LastField (sep : α) (lines : List (List α)) (key value : List α) : Prop :=
  ∃ earlier later, lines = earlier ++ (key ++ sep :: value) :: later ∧
    ∀ v, key ++ sep :: v ∉ later

/-- One line where only fields of `key` are read. -/
def slotStep (sep : α) (key : List α) (read : List α → Option β) (slot : Option β)
    (line : List α) : Option (Option β) :=
  match field? sep key line with
  | none => some slot
  | some value => (read value).map some

theorem cut_eq_some_iff
    {sep : α} {s before after : List α} :
    cut sep s = some (before, after) ↔ s = before ++ sep :: after ∧ sep ∉ before := by
  induction s generalizing before with
  | nil =>
      simp [cut]
  | cons c rest ih =>
      unfold cut
      by_cases hc : c = sep
      · subst hc
        rw [if_pos rfl]
        constructor
        · intro h
          cases h
          exact ⟨rfl, List.not_mem_nil⟩
        · rintro ⟨h, hnot⟩
          rcases before with - | ⟨b, before⟩
          · cases h
            rfl
          · obtain ⟨rfl, -⟩ := List.cons.inj h
            exact absurd List.mem_cons_self hnot
      · rw [if_neg hc, Option.map_eq_some_iff]
        constructor
        · rintro ⟨⟨b, a⟩, hcut, heq⟩
          cases heq
          obtain ⟨rfl, hnot⟩ := ih.mp hcut
          exact ⟨rfl, fun h => (List.mem_cons.mp h).elim (fun h => hc h.symm) hnot⟩
        · rintro ⟨h, hnot⟩
          rcases before with - | ⟨b, before⟩
          · exact absurd (List.cons.inj h).1 hc
          · obtain ⟨rfl, hrest⟩ := List.cons.inj h
            exact ⟨(before, after), ih.mpr ⟨hrest, fun h => hnot (List.mem_cons_of_mem _ h)⟩, rfl⟩

theorem cut_eq_none_iff
    {sep : α} {s : List α} :
    cut sep s = none ↔ sep ∉ s := by
  induction s with
  | nil =>
      simp [cut]
  | cons c rest ih =>
      unfold cut
      by_cases hc : c = sep
      · simp [hc]
      · simp [hc, ih, Ne.symm hc]

theorem field?_eq_some_iff
    {sep : α} {key line value : List α} (hkey : sep ∉ key) :
    field? sep key line = some value ↔ line = key ++ sep :: value := by
  unfold field?
  rw [Option.bind_eq_some_iff]
  constructor
  · rintro ⟨⟨before, after⟩, hcut, hvalue⟩
    split_ifs at hvalue with hbefore
    cases hvalue
    cases hbefore
    exact (cut_eq_some_iff.mp hcut).1
  · rintro rfl
    exact ⟨(key, value), cut_eq_some_iff.mpr ⟨rfl, hkey⟩, if_pos rfl⟩

/-- A field of the key takes the slot's place. -/
theorem slotStep_self
    {sep : α} {key value : List α} (hkey : sep ∉ key) {read : List α → Option β} {b : β}
    (hread : read value = some b) (slot : Option β) :
    slotStep sep key read slot (key ++ sep :: value) = some (some b) := by
  unfold slotStep
  rw [(field?_eq_some_iff hkey).mpr rfl]
  simp only [hread, Option.map_some]

/-- A field of another key is passed over. -/
theorem slotStep_other
    {sep : α} {key other : List α} (hother : sep ∉ other) (hne : other ≠ key)
    (read : List α → Option β) (slot : Option β) (value : List α) :
    slotStep sep key read slot (other ++ sep :: value) = some slot := by
  unfold slotStep field?
  rw [cut_eq_some_iff.mpr ⟨rfl, hother⟩, Option.bind_some, if_neg hne]

omit [DecidableEq α] in
theorem LastField.mem
    {sep : α} {lines : List (List α)} {key value : List α}
    (h : LastField sep lines key value) :
    key ++ sep :: value ∈ lines := by
  obtain ⟨earlier, later, rfl, -⟩ := h
  exact List.mem_append_right _ List.mem_cons_self

omit [DecidableEq α] in
theorem lastField_append_other
    {sep : α} {lines : List (List α)} {key line : List α}
    (hother : ∀ v, line ≠ key ++ sep :: v) (value : List α) :
    LastField sep (lines ++ [line]) key value ↔ LastField sep lines key value := by
  constructor
  · rintro ⟨earlier, later, heq, hlater⟩
    rcases later.eq_nil_or_concat' with rfl | ⟨later', last, rfl⟩
    · have hlast := List.append_inj_right' heq rfl
      exact absurd (List.cons.inj hlast).1 (hother value)
    · rw [← List.cons_append, ← List.append_assoc] at heq
      have hinit := List.append_inj_left' heq rfl
      exact ⟨earlier, later', hinit, fun v hv => hlater v (List.mem_append_left _ hv)⟩
  · rintro ⟨earlier, later, rfl, hlater⟩
    refine ⟨earlier, later ++ [line], by rw [List.append_assoc, List.cons_append], ?_⟩
    intro v hv
    rcases List.mem_append.mp hv with hv | hv
    · exact hlater v hv
    · exact hother v (List.mem_singleton.mp hv).symm

omit [DecidableEq α] in
theorem lastField_append_self
    {sep : α} {lines : List (List α)} {key v : List α} (value : List α) :
    LastField sep (lines ++ [key ++ sep :: v]) key value ↔ value = v := by
  constructor
  · rintro ⟨earlier, later, heq, hlater⟩
    rcases later.eq_nil_or_concat' with rfl | ⟨later', last, rfl⟩
    · have hlast := (List.cons.inj (List.append_inj_right' heq rfl)).1
      exact (List.cons.inj (List.append_cancel_left hlast)).2.symm
    · rw [← List.cons_append, ← List.append_assoc] at heq
      have hlast := (List.cons.inj (List.append_inj_right' heq rfl)).1
      exact absurd (List.mem_append_right _ (List.mem_singleton.mpr hlast)) (hlater v)
  · rintro rfl
    exact ⟨lines, [], rfl, fun _ h => absurd h List.not_mem_nil⟩

omit [DecidableEq α] in
theorem LastField.unique
    {sep : α} {lines : List (List α)} {key v w : List α} (hv : LastField sep lines key v)
    (hw : LastField sep lines key w) :
    v = w := by
  induction lines using List.reverseRecOn with
  | nil =>
      exact absurd hv.mem List.not_mem_nil
  | append_singleton lines line ih =>
      by_cases hline : ∃ value, line = key ++ sep :: value
      · obtain ⟨value, rfl⟩ := hline
        rw [(lastField_append_self v).mp hv, (lastField_append_self w).mp hw]
      · have hother := not_exists.mp hline
        exact ih ((lastField_append_other hother v).mp hv) ((lastField_append_other hother w).mp hw)

theorem exists_foldlM_slotStep
    {sep : α} {key : List α} (hkey : sep ∉ key) {read : List α → Option β}
    {lines : List (List α)} (h : ∀ v, key ++ sep :: v ∈ lines → ∃ b, read v = some b)
    (start : Option β) :
    ∃ slot, lines.foldlM (slotStep sep key read) start = some slot := by
  induction lines generalizing start with
  | nil =>
      exact ⟨start, rfl⟩
  | cons line rest ih =>
      have hrest := ih fun v hv => h v (List.mem_cons_of_mem _ hv)
      have hstep : ∃ next, slotStep sep key read start line = some next := by
        unfold slotStep
        cases hfield : field? sep key line with
        | none =>
            exact ⟨start, rfl⟩
        | some v =>
            obtain ⟨b, hb⟩ := h v ((field?_eq_some_iff hkey).mp hfield ▸ List.mem_cons_self)
            exact ⟨some b, congrArg (Option.map some) hb⟩
      obtain ⟨next, hnext⟩ := hstep
      obtain ⟨slot, hslot⟩ := hrest next
      exact ⟨slot, by rw [List.foldlM_cons, hnext]; exact hslot⟩

/-- The lines can be read when every field of the key can, and what is kept is the value of
the last one. -/
theorem foldlM_slotStep_iff
    {sep : α} {key : List α} (hkey : sep ∉ key) (read : List α → Option β)
    (lines : List (List α)) (slot : Option β) :
    lines.foldlM (slotStep sep key read) none = some slot ↔
      (∀ v, key ++ sep :: v ∈ lines → ∃ b, read v = some b) ∧
        match slot with
        | none => ∀ v, key ++ sep :: v ∉ lines
        | some b => ∃ v, LastField sep lines key v ∧ read v = some b := by
  induction lines using List.reverseRecOn generalizing slot with
  | nil =>
      rw [List.foldlM_nil]
      cases slot with
      | none =>
          simp
      | some b =>
          simp [LastField]
  | append_singleton lines line ih =>
      rw [List.foldlM_append]
      simp only [List.foldlM_cons, List.foldlM_nil, Option.bind_eq_bind, Option.pure_def]
      cases hfield : field? sep key line with
      | none =>
          have hother : ∀ v, line ≠ key ++ sep :: v := by
            intro v hv
            rw [(field?_eq_some_iff hkey).mpr hv] at hfield
            cases hfield
          have hmem : ∀ v, key ++ sep :: v ∈ lines ++ [line] ↔ key ++ sep :: v ∈ lines := by
            intro v
            rw [List.mem_append, List.mem_singleton]
            exact or_iff_left fun h => hother v h.symm
          simp only [slotStep, hfield, Option.bind_fun_some, hmem, lastField_append_other hother]
          exact ih slot
      | some v =>
          obtain rfl := (field?_eq_some_iff hkey).mp hfield
          have hmem : key ++ sep :: v ∈ lines ++ [key ++ sep :: v] :=
            List.mem_append_right _ (List.mem_singleton.mpr rfl)
          simp only [slotStep, hfield, lastField_append_self]
          rw [Option.bind_eq_some_iff]
          constructor
          · rintro ⟨before, hbefore, hread⟩
            obtain ⟨b, hb, rfl⟩ := Option.map_eq_some_iff.mp (by simpa using hread)
            obtain ⟨hlines, -⟩ := (ih before).mp hbefore
            refine ⟨?_, v, rfl, hb⟩
            intro v' hv'
            rcases List.mem_append.mp hv' with hv' | hv'
            · exact hlines v' hv'
            · obtain rfl := (List.cons.inj (List.append_cancel_left (List.mem_singleton.mp hv'))).2
              exact ⟨b, hb⟩
          · rintro ⟨hlines, hslot⟩
            obtain ⟨before, hbefore⟩ := exists_foldlM_slotStep hkey
              (fun v' hv' => hlines v' (List.mem_append_left _ hv')) none
            refine ⟨before, hbefore, ?_⟩
            cases slot with
            | none =>
                exact absurd hmem (hslot v)
            | some b =>
                obtain ⟨v', rfl, hb⟩ := hslot
                simp [hb]

end KeyedLines
end FocusVision
