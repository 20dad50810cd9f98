import Mathlib.Order.Lattice
import Mathlib.Data.List.Pairwise

/-!
# Nested tables

A table maps keys to values that are leaves or tables, its entries in the order of
their keys.  Laying one table over another keeps, key by key, what the second one does
not mention: tables are merged, and any other value is replaced.

What a table is, is what it has at each path.  The main rule says which of the two
tables decides that after one was laid over the other, and two tables that have the
same at every path are equal.
-/

namespace FocusVision
namespace NestedTable

universe u v

/-- A leaf, or the entries of a table. -/
inductive Value (κ : Type u) (α : Type v) where
  | leaf (a : α)
  | table (entries : List (κ × Value κ α))

abbrev Entries (κ : Type u) (α : Type v) : Type (max u v) :=
  List (κ × Value κ α)

/-- What there is at a path. -/
inductive Node (α : Type v) where
  | leaf (a : α)
  | table
deriving DecidableEq

variable {κ : Type u} {α : Type v}

def Value.node : Value κ α → Node α
  | .leaf a => .leaf a
  | .table _ => .table

variable [LinearOrder κ]

mutual

/-- The keys increase, in this table and in the tables inside it. -/
def Value.Sorted : Value κ α → Prop
  | .leaf _ => True
  | .table entries => Sorted entries

def Sorted : Entries κ α → Prop
  | [] => True
  | (key, value) :: rest =>
      value.Sorted ∧ (∀ entry ∈ rest, key < entry.1) ∧ Sorted rest

end

/-- The entry goes in its place, over the one that has its key. -/
def insert (key : κ) (value : Value κ α) : Entries κ α → Entries κ α
  | [] => [(key, value)]
  | (k, v) :: rest =>
      if key < k then (key, value) :: (k, v) :: rest
      else if key = k then (key, value) :: rest
      else (k, v) :: insert key value rest

/-- The entries with a key to keep. -/
def retain (keep : κ → Bool) (entries : Entries κ α) : Entries κ α :=
  entries.filter fun entry => keep entry.1

def remove (key : κ) (entries : Entries κ α) : Entries κ α :=
  retain (fun k => !(k == key)) entries

mutual

/-- `top` laid over `base`, one entry after the other. -/
def overlay (base : Entries κ α) : Entries κ α → Entries κ α
  | [] => base
  | (key, value) :: rest => overlay (overlayEntry base key value) rest

def overlayEntry (base : Entries κ α) (key : κ) : Value κ α → Entries κ α
  | .leaf a => insert key (.leaf a) base
  | .table incoming =>
      match base.lookup key with
      | some (.table existing) => insert key (.table (overlay existing incoming)) base
      | _ => insert key (.table incoming) base

end

/-- The value at a path. -/
def Value.at? : Value κ α → List κ → Option (Value κ α)
  | value, [] => some value
  | .leaf _, _ :: _ => none
  | .table entries, key :: path => (entries.lookup key).bind (at? · path)

def Value.nodeAt (value : Value κ α) (path : List κ) : Option (Node α) :=
  (value.at? path).map node

/-- The value settles what is at the path: it has something there, or a leaf on the way. -/
def Value.decides : Value κ α → List κ → Bool
  | _, [] => true
  | .leaf _, _ :: _ => true
  | .table entries, key :: path =>
      match entries.lookup key with
      | none => false
      | some value => value.decides path

theorem Value.nodeAt_leaf_iff
    {value : Value κ α} {path : List κ} {a : α} :
    value.nodeAt path = some (.leaf a) ↔ value.at? path = some (.leaf a) := by
  unfold Value.nodeAt
  rw [Option.map_eq_some_iff]
  constructor
  · rintro ⟨v, hv, hnode⟩
    cases v with
    | leaf b =>
        cases hnode
        exact hv
    | table entries =>
        cases hnode
  · intro h
    exact ⟨.leaf a, h, rfl⟩

/-! ### Lookups -/

theorem lookup_cons
    {β : Type*} (key k : κ) (value : β) (rest : List (κ × β)) :
    List.lookup k ((key, value) :: rest) = if k = key then some value else rest.lookup k := by
  rw [List.lookup_cons]
  by_cases hk : k = key
  · simp [hk]
  · rw [if_neg hk, beq_false_of_ne hk]

theorem lookup_insert
    (key k : κ) (value : Value κ α) (entries : Entries κ α) :
    (insert key value entries).lookup k = if k = key then some value else entries.lookup k := by
  induction entries with
  | nil =>
      exact lookup_cons key k value []
  | cons entry rest ih =>
      obtain ⟨k', v'⟩ := entry
      unfold insert
      by_cases hlt : key < k'
      · rw [if_pos hlt, lookup_cons]
      · rw [if_neg hlt]
        by_cases heq : key = k'
        · subst heq
          rw [if_pos rfl, lookup_cons, lookup_cons]
          split_ifs <;> rfl
        · rw [if_neg heq, lookup_cons, lookup_cons, ih]
          by_cases hk : k = k'
          · subst hk
            rw [if_pos rfl, if_neg (Ne.symm heq), if_pos rfl]
          · rw [if_neg hk, if_neg hk]

theorem lookup_retain
    (keep : κ → Bool) (k : κ) (entries : Entries κ α) :
    (retain keep entries).lookup k = if keep k then entries.lookup k else none := by
  induction entries with
  | nil =>
      simp [retain]
  | cons entry rest ih =>
      obtain ⟨key, v⟩ := entry
      unfold retain at ih ⊢
      rw [lookup_cons]
      rw [List.filter_cons]
      by_cases hkeep : keep key = true
      · rw [if_pos hkeep, lookup_cons, ih]
        by_cases hk : k = key
        · subst hk
          rw [if_pos rfl, if_pos rfl, if_pos hkeep]
        · rw [if_neg hk, if_neg hk]
      · rw [if_neg hkeep, ih]
        by_cases hk : k = key
        · subst hk
          rw [if_neg hkeep, if_neg hkeep]
        · rw [if_neg hk]

theorem lookup_remove
    (key k : κ) (entries : Entries κ α) :
    (remove key entries).lookup k = if k = key then none else entries.lookup k := by
  unfold remove
  rw [lookup_retain]
  by_cases hk : k = key
  · simp [hk]
  · simp [hk]

/-- A lookup among pairs whose second parts are mapped. -/
theorem lookup_map_snd
    {β : Type*} {γ : Type*} (pairs : List (κ × β)) (f : β → γ) (key : κ) :
    (pairs.map fun pair => (pair.1, f pair.2)).lookup key = (pairs.lookup key).map f := by
  induction pairs with
  | nil =>
      rfl
  | cons pair rest ih =>
      obtain ⟨k, b⟩ := pair
      rw [List.map_cons, List.lookup_cons, List.lookup_cons, ih]
      cases key == k <;> rfl

theorem mem_of_lookup
    {β : Type*} {key : κ} {value : β} {entries : List (κ × β)}
    (h : entries.lookup key = some value) :
    (key, value) ∈ entries := by
  induction entries with
  | nil =>
      simp at h
  | cons entry rest ih =>
      obtain ⟨k, v⟩ := entry
      rw [lookup_cons] at h
      split_ifs at h with hk
      · cases h
        exact hk ▸ List.mem_cons_self
      · exact List.mem_cons_of_mem _ (ih h)

theorem mem_keys_iff
    {β : Type*} {key : κ} {entries : List (κ × β)} :
    key ∈ entries.map Prod.fst ↔ ∃ value, entries.lookup key = some value := by
  induction entries with
  | nil =>
      simp
  | cons entry rest ih =>
      obtain ⟨k, v⟩ := entry
      rw [List.map_cons, List.mem_cons, lookup_cons, ih]
      by_cases hk : key = k
      · simp [hk]
      · simp [hk]

theorem lookup_of_forall_lt
    {key : κ} {entries : Entries κ α} (h : ∀ entry ∈ entries, key < entry.1) :
    entries.lookup key = none := by
  cases hlookup : entries.lookup key with
  | none =>
      rfl
  | some value =>
      exact absurd (h _ (mem_of_lookup hlookup)) (lt_irrefl key)

theorem lookup_sorted
    {entries : Entries κ α} (h : Sorted entries) {key : κ} {value : Value κ α}
    (hlookup : entries.lookup key = some value) :
    value.Sorted := by
  induction entries with
  | nil =>
      simp at hlookup
  | cons entry rest ih =>
      obtain ⟨k, v⟩ := entry
      obtain ⟨hvalue, -, hrest⟩ := h
      rw [lookup_cons] at hlookup
      split_ifs at hlookup with hk
      · cases hlookup
        exact hvalue
      · exact ih hrest hlookup

/-! ### The order of the keys is kept -/

theorem mem_insert
    {key : κ} {value : Value κ α} {entries : Entries κ α} {entry : κ × Value κ α}
    (h : entry ∈ insert key value entries) :
    entry = (key, value) ∨ entry ∈ entries := by
  induction entries with
  | nil =>
      simpa [insert] using h
  | cons head rest ih =>
      unfold insert at h
      split_ifs at h with hlt heq
      · exact List.mem_cons.mp h
      · rcases List.mem_cons.mp h with h | h
        · exact Or.inl h
        · exact Or.inr (List.mem_cons_of_mem _ h)
      · rcases List.mem_cons.mp h with h | h
        · exact Or.inr (h ▸ List.mem_cons_self)
        · exact (ih h).imp_right (List.mem_cons_of_mem _)

theorem sorted_insert
    {key : κ} {value : Value κ α} {entries : Entries κ α}
    (hvalue : value.Sorted) (h : Sorted entries) :
    Sorted (insert key value entries) := by
  induction entries with
  | nil =>
      exact ⟨hvalue, fun _ hmem => absurd hmem List.not_mem_nil, trivial⟩
  | cons head rest ih =>
      obtain ⟨k, v⟩ := head
      obtain ⟨hv, hk, hrest⟩ := h
      unfold insert
      split_ifs with hlt heq
      · refine ⟨hvalue, ?_, hv, hk, hrest⟩
        intro entry hmem
        rcases List.mem_cons.mp hmem with rfl | hmem
        · exact hlt
        · exact lt_trans hlt (hk entry hmem)
      · subst heq
        exact ⟨hvalue, hk, hrest⟩
      · refine ⟨hv, ?_, ih hrest⟩
        intro entry hmem
        rcases mem_insert hmem with rfl | hmem
        · exact lt_of_le_of_ne (not_lt.mp hlt) (Ne.symm heq)
        · exact hk entry hmem

theorem sorted_retain
    {entries : Entries κ α} (keep : κ → Bool) (h : Sorted entries) :
    Sorted (retain keep entries) := by
  induction entries with
  | nil =>
      trivial
  | cons head rest ih =>
      obtain ⟨hv, hk, hrest⟩ := h
      unfold retain at ih ⊢
      rw [List.filter_cons]
      split_ifs
      · exact ⟨hv, fun entry hmem => hk entry (List.mem_filter.mp hmem).1, ih hrest⟩
      · exact ih hrest

mutual

theorem sorted_overlay :
    ∀ (top : Entries κ α) {base : Entries κ α}, Sorted base → Sorted top →
      Sorted (overlay base top)
  | [], _, hbase, _ => hbase
  | (_, value) :: rest, _, hbase, htop =>
      sorted_overlay rest (sorted_overlayEntry value hbase htop.1) htop.2.2

theorem sorted_overlayEntry :
    ∀ (value : Value κ α) {base : Entries κ α} {key : κ}, Sorted base → value.Sorted →
      Sorted (overlayEntry base key value)
  | .leaf _, _, _, hbase, hvalue => sorted_insert hvalue hbase
  | .table incoming, base, key, hbase, hvalue => by
      unfold overlayEntry
      split
      · next existing hlookup =>
          have hexisting : Sorted existing := lookup_sorted hbase hlookup
          exact sorted_insert (sorted_overlay incoming hexisting hvalue) hbase
      · exact sorted_insert hvalue hbase

end

/-! ### One table over another -/

/-- What an entry leaves at its key. -/
def overlayValue : Option (Value κ α) → Value κ α → Value κ α
  | some (.table existing), .table incoming => .table (overlay existing incoming)
  | _, value => value

theorem overlayEntry_eq
    (base : Entries κ α) (key : κ) (value : Value κ α) :
    overlayEntry base key value = insert key (overlayValue (base.lookup key) value) base := by
  cases value with
  | leaf a =>
      rcases base.lookup key with - | (- | -) <;> rfl
  | table incoming =>
      unfold overlayEntry
      rcases base.lookup key with - | (- | -) <;> rfl

theorem lookup_overlay
    {top : Entries κ α} (htop : Sorted top) (base : Entries κ α) (k : κ) :
    (overlay base top).lookup k =
      match top.lookup k with
      | none => base.lookup k
      | some value => some (overlayValue (base.lookup k) value) := by
  induction top generalizing base with
  | nil =>
      rfl
  | cons head rest ih =>
      obtain ⟨key, value⟩ := head
      obtain ⟨-, hkey, hrest⟩ := htop
      unfold overlay
      rw [ih hrest, overlayEntry_eq, lookup_insert]
      rw [lookup_cons]
      by_cases hk : k = key
      · subst hk
        rw [lookup_of_forall_lt hkey, if_pos rfl, if_pos rfl]
      · rw [if_neg hk, if_neg hk]

theorem at?_of_not_decides
    {value : Value κ α} {path : List κ} (h : value.decides path = false) :
    value.at? path = none := by
  induction path generalizing value with
  | nil =>
      cases h
  | cons key path ih =>
      cases value with
      | leaf a =>
          rfl
      | table entries =>
          unfold Value.decides at h
          unfold Value.at?
          cases hkey : entries.lookup key with
          | none =>
              rfl
          | some value =>
              rw [hkey] at h
              exact ih h

/-- Where the table on top does not decide, everything is as it was. -/
theorem at?_overlay_of_not_decides
    {base top : Entries κ α} (htop : Sorted top) {path : List κ}
    (h : (Value.table top).decides path = false) :
    (Value.table (overlay base top)).at? path = (Value.table base).at? path := by
  induction path generalizing base top with
  | nil =>
      cases h
  | cons key path ih =>
      have hlookup := lookup_overlay htop base key
      unfold Value.decides at h
      cases hkey : top.lookup key with
      | none =>
          rw [hkey] at hlookup
          simp only [Value.at?, hlookup]
      | some value =>
          rw [hkey] at hlookup h
          simp only [Value.at?, hlookup, Option.bind_some]
          cases hbase : base.lookup key with
          | none =>
              exact at?_of_not_decides h
          | some below =>
              cases below with
              | leaf a =>
                  -- below a leaf there was nothing
                  cases path with
                  | nil =>
                      cases h
                  | cons key path =>
                      exact at?_of_not_decides h
              | table existing =>
                  cases value with
                  | leaf a =>
                      cases path with
                      | nil =>
                          cases h
                      | cons key path =>
                          cases h
                  | table incoming =>
                      exact ih (lookup_sorted htop hkey) h

theorem nodeAt_overlay_of_decides
    {base top : Entries κ α} (htop : Sorted top) {path : List κ}
    (h : (Value.table top).decides path = true) :
    (Value.table (overlay base top)).nodeAt path = (Value.table top).nodeAt path := by
  induction path generalizing base top with
  | nil =>
      rfl
  | cons key path ih =>
      have hlookup := lookup_overlay htop base key
      unfold Value.decides at h
      cases hkey : top.lookup key with
      | none =>
          rw [hkey] at h
          cases h
      | some value =>
          rw [hkey] at hlookup h
          simp only [Value.nodeAt, Value.at?, hlookup, hkey, Option.bind_some]
          cases value with
          | leaf a =>
              rcases base.lookup key with - | (- | -) <;> rfl
          | table incoming =>
              rcases base.lookup key with - | (- | existing)
              · rfl
              · rfl
              · exact ih (lookup_sorted htop hkey) h

/-- The table on top where it decides, and the one below elsewhere. -/
theorem nodeAt_overlay
    {base top : Entries κ α} (htop : Sorted top) (path : List κ) :
    (Value.table (overlay base top)).nodeAt path =
      if (Value.table top).decides path then (Value.table top).nodeAt path
      else (Value.table base).nodeAt path := by
  split_ifs with h
  · exact nodeAt_overlay_of_decides htop h
  · unfold Value.nodeAt
    rw [at?_overlay_of_not_decides htop ((Bool.not_eq_true _).mp h)]

/-- A value decides at the paths where it has something, and below its leaves. -/
theorem decides_iff
    {value : Value κ α} {path : List κ} :
    value.decides path = true ↔
      (∃ v, value.at? path = some v) ∨
        ∃ leading a, leading <+: path ∧ leading ≠ path ∧ value.at? leading = some (.leaf a) := by
  induction path generalizing value with
  | nil =>
      exact iff_of_true rfl (Or.inl ⟨value, rfl⟩)
  | cons key path ih =>
      cases value with
      | leaf a =>
          exact iff_of_true rfl (Or.inr ⟨[], a, List.nil_prefix, (List.cons_ne_nil _ _).symm, rfl⟩)
      | table entries =>
          unfold Value.decides Value.at?
          cases hkey : entries.lookup key with
          | none =>
              refine iff_of_false Bool.false_ne_true ?_
              rintro (⟨v, hv⟩ | ⟨leading, a, hleading, -, hleaf⟩)
              · cases hv
              · rcases leading with - | ⟨k, leading⟩
                · cases hleaf
                · obtain ⟨rfl, -⟩ := List.cons_prefix_cons.mp hleading
                  simp [hkey] at hleaf
          | some value =>
              refine (@ih value).trans (or_congr Iff.rfl ?_)
              constructor
              · rintro ⟨leading, a, hleading, hne, hleaf⟩
                refine ⟨key :: leading, a, List.cons_prefix_cons.mpr ⟨rfl, hleading⟩, ?_, ?_⟩
                · exact fun h => hne (List.cons.inj h).2
                · simpa [hkey] using hleaf
              · rintro ⟨leading, a, hleading, hne, hleaf⟩
                rcases leading with - | ⟨k, leading⟩
                · cases hleaf
                · obtain ⟨rfl, hrest⟩ := List.cons_prefix_cons.mp hleading
                  refine ⟨leading, a, hrest, fun h => hne (h ▸ rfl), ?_⟩
                  simpa [hkey] using hleaf

/-! ### Tables that have the same everywhere -/

theorem eq_of_lookup
    {a b : Entries κ α} (ha : Sorted a) (hb : Sorted b)
    (h : ∀ key, a.lookup key = b.lookup key) :
    a = b := by
  induction a generalizing b with
  | nil =>
      rcases b with - | ⟨⟨k, v⟩, b⟩
      · rfl
      · have hk := h k
        rw [lookup_cons, if_pos rfl] at hk
        cases hk
  | cons entry a ih =>
      obtain ⟨k, v⟩ := entry
      obtain ⟨-, hlt, ha⟩ := ha
      rcases b with - | ⟨⟨k', v'⟩, b⟩
      · have hk := h k
        rw [lookup_cons, if_pos rfl] at hk
        cases hk
      · obtain ⟨-, hlt', hb⟩ := hb
        have hfirst : k = k' := by
          rcases lt_trichotomy k k' with hless | heq | hless
          · have hk := h k
            rw [lookup_cons, lookup_cons, if_pos rfl, if_neg (ne_of_lt hless),
              lookup_of_forall_lt fun entry hmem => lt_trans hless (hlt' entry hmem)] at hk
            cases hk
          · exact heq
          · have hk := h k'
            rw [lookup_cons, lookup_cons, if_pos rfl, if_neg (ne_of_lt hless),
              lookup_of_forall_lt fun entry hmem => lt_trans hless (hlt entry hmem)] at hk
            cases hk
        subst hfirst
        have hvalue := h k
        rw [lookup_cons, lookup_cons, if_pos rfl, if_pos rfl] at hvalue
        cases hvalue
        rw [ih ha hb]
        intro key
        have hk := h key
        rw [lookup_cons, lookup_cons] at hk
        split_ifs at hk with hkey
        · subst hkey
          rw [lookup_of_forall_lt hlt, lookup_of_forall_lt hlt']
        · exact hk

mutual

theorem eq_of_nodeAt :
    ∀ (v : Value κ α) {w : Value κ α}, v.Sorted → w.Sorted →
      (∀ path, v.nodeAt path = w.nodeAt path) → v = w
  | .leaf a, w, _, _, h => by
      cases w with
      | leaf b =>
          have hroot := h []
          cases hroot
          rfl
      | table entries =>
          cases h []
  | .table entries, w, hv, hw, h => by
      cases w with
      | leaf b =>
          cases h []
      | table other =>
          refine congrArg Value.table (eq_of_lookup hv hw ?_)
          intro key
          have hbelow : ∀ path, ((entries.lookup key).bind (·.at? path)).map Value.node =
              ((other.lookup key).bind (·.at? path)).map Value.node :=
            fun path => h (key :: path)
          cases hkey : entries.lookup key with
          | none =>
              rw [hkey] at hbelow
              cases hother : other.lookup key with
              | none =>
                  rfl
              | some w =>
                  rw [hother] at hbelow
                  cases hbelow []
          | some v =>
              rw [hkey] at hbelow
              cases hother : other.lookup key with
              | none =>
                  rw [hother] at hbelow
                  cases hbelow []
              | some w =>
                  rw [hother] at hbelow
                  exact congrArg some (eq_of_nodeAt_lookup entries hv hkey
                    (lookup_sorted hw hother) hbelow)

theorem eq_of_nodeAt_lookup :
    ∀ (entries : Entries κ α) {key : κ} {v w : Value κ α}, Sorted entries →
      entries.lookup key = some v → w.Sorted → (∀ path, v.nodeAt path = w.nodeAt path) → v = w
  | [], _, _, _, _, hlookup, _, _ => by cases hlookup
  | (k, value) :: rest, key, v, w, hsorted, hlookup, hw, h => by
      rw [lookup_cons] at hlookup
      split_ifs at hlookup with hk
      · cases hlookup
        exact eq_of_nodeAt value hsorted.1 hw h
      · exact eq_of_nodeAt_lookup rest hsorted.2.2 hlookup hw h

end

/-! ### Tables, and layers of them -/

/-- Entries in the order of their keys, all the way down. -/
structure Table (κ : Type u) (α : Type v) [LinearOrder κ] where
  entries : Entries κ α
  sorted : Sorted entries

namespace Table

def empty : Table κ α :=
  ⟨[], trivial⟩

def value (table : Table κ α) : Value κ α :=
  .table table.entries

def lookup (table : Table κ α) (key : κ) : Option (Value κ α) :=
  table.entries.lookup key

def overlay (base top : Table κ α) : Table κ α :=
  ⟨NestedTable.overlay base.entries top.entries,
    sorted_overlay top.entries base.sorted top.sorted⟩

def retain (keep : κ → Bool) (table : Table κ α) : Table κ α :=
  ⟨NestedTable.retain keep table.entries, sorted_retain keep table.sorted⟩

/-- The table with these leaves; of two with one key, the first. -/
def ofLeaves : List (κ × α) → Table κ α
  | [] => empty
  | (key, a) :: rest =>
      ⟨insert key (.leaf a) (ofLeaves rest).entries, sorted_insert trivial (ofLeaves rest).sorted⟩

/-- The table with these tables inside; of two with one key, the first. -/
def ofTables : List (κ × Table κ α) → Table κ α
  | [] => empty
  | (key, table) :: rest =>
      ⟨insert key table.value (ofTables rest).entries,
        sorted_insert table.sorted (ofTables rest).sorted⟩

/-- The table has something at the path, or a leaf on the way. -/
def Decides (table : Table κ α) (path : List κ) : Prop :=
  (∃ v, table.value.at? path = some v) ∨
    ∃ leading a, leading <+: path ∧ leading ≠ path ∧ table.value.at? leading = some (.leaf a)

@[ext] theorem ext
    {a b : Table κ α} (h : a.entries = b.entries) :
    a = b := by
  cases a
  cases b
  cases h
  rfl

theorem lookup_overlay
    (base top : Table κ α) (key : κ) :
    (base.overlay top).lookup key =
      match top.lookup key with
      | none => base.lookup key
      | some value => some (overlayValue (base.lookup key) value) :=
  NestedTable.lookup_overlay top.sorted base.entries key

theorem lookup_ofLeaves
    (leaves : List (κ × α)) (key : κ) :
    (ofLeaves leaves).lookup key = (leaves.lookup key).map Value.leaf := by
  induction leaves with
  | nil =>
      rfl
  | cons entry rest ih =>
      obtain ⟨k, a⟩ := entry
      unfold lookup at ih ⊢
      unfold ofLeaves
      rw [lookup_insert, ih, List.lookup_cons]
      by_cases hk : key = k
      · simp [hk]
      · rw [if_neg hk, beq_false_of_ne hk]

theorem lookup_ofTables
    (tables : List (κ × Table κ α)) (key : κ) :
    (ofTables tables).lookup key = (tables.lookup key).map Table.value := by
  induction tables with
  | nil =>
      rfl
  | cons entry rest ih =>
      obtain ⟨k, table⟩ := entry
      unfold lookup at ih ⊢
      unfold ofTables
      rw [lookup_insert, ih, List.lookup_cons]
      by_cases hk : key = k
      · simp [hk]
      · rw [if_neg hk, beq_false_of_ne hk]

theorem ext_nodeAt
    {a b : Table κ α} (h : ∀ path, a.value.nodeAt path = b.value.nodeAt path) :
    a = b :=
  Table.ext (Value.table.inj (eq_of_nodeAt a.value a.sorted b.sorted h))

/-- What is at a path, after one layer after the other, is what the last layer that
decides there has. -/
theorem nodeAt_foldl_overlay
    (layers : List (Table κ α)) (base : Table κ α) (path : List κ) (node : Node α) :
    (layers.foldl overlay base).value.nodeAt path = some node ↔
      (base.value.nodeAt path = some node ∧ ∀ layer ∈ layers, ¬ layer.Decides path) ∨
        ∃ earlier layer later, layers = earlier ++ layer :: later ∧
          layer.value.nodeAt path = some node ∧ ∀ l ∈ later, ¬ l.Decides path := by
  induction layers generalizing base with
  | nil =>
      simp
  | cons first rest ih =>
      have hstep : (base.overlay first).value.nodeAt path =
          if first.value.decides path then first.value.nodeAt path
          else base.value.nodeAt path :=
        nodeAt_overlay first.sorted path
      rw [List.foldl_cons, ih, hstep]
      constructor
      · rintro (⟨hnode, hrest⟩ | ⟨earlier, layer, later, rfl, hnode, hlater⟩)
        · split_ifs at hnode with hdecides
          · exact Or.inr ⟨[], first, rest, rfl, hnode, hrest⟩
          · refine Or.inl ⟨hnode, ?_⟩
            intro layer hmem
            rcases List.mem_cons.mp hmem with rfl | hmem
            · exact fun h => hdecides (decides_iff.mpr h)
            · exact hrest layer hmem
        · exact Or.inr ⟨first :: earlier, layer, later, rfl, hnode, hlater⟩
      · rintro (⟨hnode, hall⟩ | ⟨earlier, layer, later, heq, hnode, hlater⟩)
        · refine Or.inl ⟨?_, fun layer hmem => hall layer (List.mem_cons_of_mem _ hmem)⟩
          rw [if_neg fun h => hall first List.mem_cons_self (decides_iff.mp h)]
          exact hnode
        · rcases earlier with - | ⟨first', earlier⟩
          · obtain ⟨rfl, rfl⟩ := List.cons.inj heq
            refine Or.inl ⟨?_, hlater⟩
            have hdecides : first.value.decides path = true := by
              refine decides_iff.mpr (Or.inl ?_)
              obtain ⟨v, hv, -⟩ := Option.map_eq_some_iff.mp hnode
              exact ⟨v, hv⟩
            rw [if_pos hdecides]
            exact hnode
          · obtain ⟨rfl, rfl⟩ := List.cons.inj heq
            exact Or.inr ⟨earlier, layer, later, rfl, hnode, hlater⟩

end Table

end NestedTable
end FocusVision
