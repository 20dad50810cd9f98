import FocusVision.Companion.LocalConfig
import Mathlib.Data.List.TakeWhile

/-!
# What a save and a reset change in local.toml

A save changes the managed keys of the sections it is given, a reset takes the managed
keys out; everything else stays, and a failed operation leaves the file as it was.
Both read a table, change it and write it, so what happens to the file is proved once
for any change of the table, and the two changes are compared path by path.
-/

namespace FocusVision
namespace Companion

open NestedTable

variable {Ω Text : Type}

/-! ### The backup and the temporary file are other files -/

theorem withExtension_ne
    (path : FilePath) {extension : List Char} (hdot : '.' ∈ extension) :
    path.withExtension extension ≠ path := by
  intro h
  have hname : fileStem path.fileName ++ '.' :: extension = path.fileName :=
    congrArg FilePath.fileName h
  have hlength := congrArg List.length hname
  rw [List.length_append, List.length_cons] at hlength
  have hsplit := @List.takeWhile_append_dropWhile _ (· != '.') path.fileName.reverse
  unfold fileStem at hname hlength
  rcases hrest : path.fileName.reverse.dropWhile (· != '.') with - | ⟨dot, before⟩
  · rw [hrest] at hlength
    simp only at hlength
    omega
  · rw [hrest] at hname hlength hsplit
    simp only at hname hlength
    split_ifs at hname hlength with hbefore
    · omega
    · -- what follows the last dot has no dot
      have hwhole : path.fileName =
          before.reverse ++ dot :: (path.fileName.reverse.takeWhile (· != '.')).reverse := by
        have hreverse := congrArg List.reverse hsplit
        rw [List.reverse_append, List.reverse_cons, List.reverse_reverse, List.append_assoc]
          at hreverse
        exact hreverse.symm
      have htail := List.append_cancel_left (hname.trans hwhole)
      obtain ⟨-, hextension⟩ := List.cons.inj htail
      rw [hextension, List.mem_reverse] at hdot
      have hnot := List.mem_takeWhile_imp hdot
      simp at hnot

theorem Disk.set_other
    {disk : Disk Text} {path other : FilePath} (text : Option Text) (h : other ≠ path) :
    disk.set other text path = disk path :=
  if_neg (Ne.symm h)

theorem Disk.set_self
    (disk : Disk Text) (path : FilePath) (text : Option Text) :
    disk.set path text path = text :=
  if_pos rfl

/-! ### Reading, changing and writing the table -/

section Files

variable (toml : Toml Ω Text) (failures : Failures Text)

/-- The table the file stands for; a missing file stands for the empty one. -/
def Holds (disk : Disk Text) (path : FilePath) (table : TomlTable Ω) : Prop :=
  match disk path with
  | none => table = Table.empty
  | some content => toml.parse content = .ok table

/-- The table that `read_table` starts from. -/
def Start (disk : Disk Text) (path : FilePath) (table : TomlTable Ω) : Prop :=
  Holds toml disk path table ∨
    ∃ content error, disk path = some content ∧ toml.parse content = .error error ∧
      failures.copy = none ∧ table = Table.empty

theorem readTable_spec
    (path : FilePath) (disk : Disk Text) :
    match (readTable toml failures path).run disk with
    | .ok table disk' =>
        disk' path = disk path ∧ failures.read = none ∧ Start toml failures disk path table
    | .error _ disk' => disk' path = disk path := by
  have hbackup : path.withExtension TOML_BAK ≠ path := withExtension_ne path (by decide)
  unfold readTable
  cases hread : failures.read with
  | some error =>
      rfl
  | none =>
      simp only [EStateM.run_bind, EStateM.run_get]
      cases hdisk : disk path with
      | none =>
          refine ⟨hdisk, trivial, Or.inl ?_⟩
          unfold Holds
          rw [hdisk]
      | some existing =>
          simp only
          cases hparse : toml.parse existing with
          | ok table =>
              refine ⟨hdisk, trivial, Or.inl ?_⟩
              unfold Holds
              rw [hdisk]
              exact hparse
          | error error =>
              simp only
              cases hcopy : failures.copy with
              | some failed =>
                  exact (Disk.set_other failed.2 hbackup).trans hdisk
              | none =>
                  exact ⟨(Disk.set_other (some existing) hbackup).trans hdisk, trivial,
                    Or.inr ⟨existing, error, hdisk, hparse, hcopy, rfl⟩⟩

theorem writeTable_spec
    (path : FilePath) (table : TomlTable Ω) (disk : Disk Text) :
    match (writeTable toml failures path table).run disk with
    | .ok () disk' =>
        (∃ content, toml.toStringPretty table = .ok content ∧ disk' path = some content) ∧
          failures.createDirAll = none ∧ failures.write = none ∧ failures.rename = none
    | .error _ disk' => disk' path = disk path := by
  have htmp : path.withExtension TOML_TMP ≠ path := withExtension_ne path (by decide)
  unfold writeTable
  cases hdir : failures.createDirAll with
  | some error =>
      rfl
  | none =>
      simp only
      cases hprint : toml.toStringPretty table with
      | error error =>
          rfl
      | ok content =>
          unfold writeAtomic
          simp only
          cases hwrite : failures.write with
          | some failed =>
              exact Disk.set_other failed.2 htmp
          | none =>
              simp only [EStateM.run_bind, EStateM.run_modify]
              cases hrename : failures.rename with
              | none =>
                  refine ⟨⟨content, rfl, ?_⟩, trivial, trivial, rfl⟩
                  dsimp only
                  rw [Disk.set_other none htmp, Disk.set_self, Disk.set_self]
              | some error =>
                  have hleft : ∀ text, ((disk.set (path.withExtension TOML_TMP) (some content)).set
                      (path.withExtension TOML_TMP) text) path = disk path := by
                    intro text
                    rw [Disk.set_other text htmp, Disk.set_other (some content) htmp]
                  cases failures.removeFile with
                  | true =>
                      exact Disk.set_other (some content) htmp
                  | false =>
                      exact hleft none

/-- Reading the table, changing it and writing it. -/
def changeTable (path : FilePath) (change : TomlTable Ω → TomlTable Ω) : FileOp Text Unit := do
  let table ← readTable toml failures path
  writeTable toml failures path (change table)

/-- When the change is written, every call it needs has succeeded; when it fails, the
file is as it was. -/
theorem changeTable_spec
    (path : FilePath) (change : TomlTable Ω → TomlTable Ω) (disk : Disk Text) :
    match (changeTable toml failures path change).run disk with
    | .ok () disk' =>
        ∃ table content, Start toml failures disk path table ∧
          toml.toStringPretty (change table) = .ok content ∧ disk' path = some content ∧
          failures.read = none ∧ failures.createDirAll = none ∧ failures.write = none ∧
          failures.rename = none
    | .error _ disk' => disk' path = disk path := by
  have hread := readTable_spec toml failures path disk
  unfold changeTable
  rw [EStateM.run_bind]
  cases hrun : (readTable toml failures path).run disk with
  | error error between =>
      rw [hrun] at hread
      exact hread
  | ok table between =>
      rw [hrun] at hread
      obtain ⟨hkept, hnone, hstart⟩ := hread
      have hwrite := writeTable_spec toml failures path (change table) between
      simp only
      cases hresult : (writeTable toml failures path (change table)).run between with
      | error error after =>
          rw [hresult] at hwrite
          exact hwrite.trans hkept
      | ok _ after =>
          rw [hresult] at hwrite
          obtain ⟨⟨content, hprint, hcontent⟩, hdir, hleft, hrename⟩ := hwrite
          exact ⟨table, content, hstart, hprint, hcontent, hnone, hdir, hleft, hrename⟩

end Files
/-! ### The managed keys -/

/-- The type of a TOML value. -/
inductive Kind where
  | string
  | integer
  | float
  | boolean
  | other
deriving DecidableEq

def Leaf.kind : Leaf Ω → Kind
  | .string _ => .string
  | .integer _ => .integer
  | .float _ => .float
  | .boolean _ => .boolean
  | .other _ => .other

/-- The managed keys of each section, with the types they are written with. -/
def MANAGED : List (String × List (String × Kind)) :=
  [("video", [("codec", .string)]),
    ("sleep_mode", [("enabled", .boolean), ("timeout_seconds", .integer)]),
    ("face_tracking", [("enabled", .boolean), ("smoothing", .float)]),
    ("recording", [("enabled", .boolean), ("output_dir", .string)]),
    ("audio", [("enabled", .boolean), ("bitrate_kbps", .integer)]),
    ("deploy", [("apk_path", .string)])]

def kind? (name key : String) : Option Kind :=
  (MANAGED.lookup name).bind (·.lookup key)

def Managed (name key : String) : Prop :=
  (kind? name key).isSome

instance (name key : String) : Decidable (Managed name key) :=
  inferInstanceAs (Decidable (_ = true))

/-- No managed key of these sections is at the path, above or below it. -/
def Unmanaged (names path : List String) : Prop :=
  ∀ name ∈ names, ∀ key, Managed name key → ¬[name, key] <+: path ∧ ¬path <+: [name, key]

/-- The value of a managed key. -/
def LocalConfig.value? (config : LocalConfig) (name key : String) : Option (Leaf Ω) :=
  (config.sections.lookup name).bind (·.lookup key)

theorem sections_kinds
    (config : LocalConfig) (name : String) :
    ((config.sections : List (String × List (String × Leaf Ω))).lookup name).map
      (fun fields => fields.map fun field => (field.1, field.2.kind)) = MANAGED.lookup name := by
  rw [← lookup_map_snd]
  rfl

theorem value?_kind
    (config : LocalConfig) (name key : String) :
    (config.value? name key : Option (Leaf Ω)).map Leaf.kind = kind? name key := by
  have hkinds := @sections_kinds Ω config name
  unfold LocalConfig.value? kind?
  rw [← hkinds]
  cases (config.sections : List (String × List (String × Leaf Ω))).lookup name with
  | none =>
      rfl
  | some fields =>
      exact (lookup_map_snd fields Leaf.kind key).symm

theorem managed_iff
    (config : LocalConfig) {name key : String} :
    Managed name key ↔ ∃ a : Leaf Ω, config.value? name key = some a := by
  unfold Managed
  rw [← @value?_kind Ω config, Option.isSome_map, Option.isSome_iff_exists]

/-- Every section has a managed key. -/
theorem exists_managed
    {config : LocalConfig} {name : String} {fields : List (String × Leaf Ω)}
    (h : config.sections.lookup name = some fields) :
    ∃ key, Managed name key := by
  have hkinds := @sections_kinds Ω config name
  rw [h, Option.map_some] at hkinds
  have hall : ∀ entry ∈ MANAGED, entry.2 ≠ [] := by decide
  have hne := hall _ (mem_of_lookup hkinds.symm)
  rcases fields with - | ⟨⟨key, a⟩, fields⟩
  · exact absurd rfl hne
  · refine ⟨key, (managed_iff config).mpr ⟨a, ?_⟩⟩
    unfold LocalConfig.value?
    rw [h, Option.bind_some, List.lookup_cons_self]

/-! ### What a save changes -/

section Save

variable (config : LocalConfig) (names : List String)

/-- What `save_to` lays over the table. -/
def ours : TomlTable Ω :=
  config.toTable.retain fun name => names.contains name

theorem lookup_toTable
    (name : String) :
    (config.toTable : TomlTable Ω).lookup name =
      (config.sections.lookup name).map fun fields => (Table.ofLeaves fields).value := by
  unfold LocalConfig.toTable
  rw [Table.lookup_ofTables, lookup_map_snd config.sections Table.ofLeaves, Option.map_map]
  rfl

theorem lookup_ours
    (name : String) :
    (ours config names : TomlTable Ω).lookup name =
      if name ∈ names then
        (config.sections.lookup name).map fun fields => (Table.ofLeaves fields).value
      else none := by
  have hretain : (ours config names : TomlTable Ω).lookup name =
      if names.contains name then (config.toTable : TomlTable Ω).lookup name else none :=
    lookup_retain _ name config.toTable.entries
  rw [hretain, lookup_toTable]
  by_cases hname : name ∈ names
  · rw [if_pos hname, if_pos (List.contains_iff_mem.mpr hname)]
  · rw [if_neg hname, if_neg fun h => hname (List.contains_iff_mem.mp h)]

theorem ours_at?
    {name key : String} {a : Leaf Ω} (hname : name ∈ names) (ha : config.value? name key = some a) :
    (ours config names).value.at? [name, key] = some (.leaf a) := by
  obtain ⟨fields, hfields, hkey⟩ := Option.bind_eq_some_iff.mp ha
  have hlookup := @lookup_ours Ω config names name
  rw [if_pos hname, hfields, Option.map_some] at hlookup
  have hleaf := Table.lookup_ofLeaves fields key
  rw [hkey, Option.map_some] at hleaf
  unfold Table.lookup at hlookup hleaf
  simp only [Table.value, Value.at?, hlookup, hleaf, Option.bind_some]

/-- Away from the managed keys, what is laid over the table has nothing. -/
theorem ours_not_decides
    {path : List String} (hpath : path ≠ []) (h : Unmanaged names path) :
    (ours config names : TomlTable Ω).value.decides path = false := by
  rcases path with - | ⟨name, rest⟩
  · exact absurd rfl hpath
  · have hlookup := @lookup_ours Ω config names name
    unfold Table.lookup at hlookup
    simp only [Table.value, Value.decides, hlookup]
    split_ifs with hname
    · cases hfields : (config.sections : List (String × List (String × Leaf Ω))).lookup name with
      | none =>
          rfl
      | some fields =>
          rcases rest with - | ⟨key, rest⟩
          · obtain ⟨key, hmanaged⟩ := exists_managed hfields
            exact absurd ⟨[key], rfl⟩ (h name hname key hmanaged).2
          · have hleaf := Table.lookup_ofLeaves fields key
            unfold Table.lookup at hleaf
            simp only [Option.map_some, Value.decides, hleaf]
            cases hkey : fields.lookup key with
            | none =>
                rfl
            | some a =>
                have hmanaged : Managed name key :=
                  (managed_iff config).mpr ⟨a, by
                    unfold LocalConfig.value?
                    rw [hfields, Option.bind_some, hkey]⟩
                exact absurd ⟨rest, rfl⟩ (h name hname key hmanaged).1
    · rfl

variable (start : TomlTable Ω)

theorem saved_unmanaged
    {path : List String} (hpath : path ≠ []) (h : Unmanaged names path) :
    (mergeTables start (ours config names)).value.at? path = start.value.at? path :=
  at?_overlay_of_not_decides (ours config names).sorted (ours_not_decides config names hpath h)

theorem saved_managed
    {name key : String} {a : Leaf Ω} (hname : name ∈ names) (ha : config.value? name key = some a) :
    (mergeTables start (ours config names)).value.at? [name, key] = some (.leaf a) := by
  have hours := ours_at? config names hname ha
  have hdecides : (ours config names).value.decides [name, key] = true :=
    decides_iff.mpr (Or.inl ⟨.leaf a, hours⟩)
  rw [← Value.nodeAt_leaf_iff] at hours ⊢
  exact (nodeAt_overlay_of_decides (ours config names).sorted hdecides).trans hours

end Save

/-! ### What a reset changes -/

section Clear

theorem lookup_removeAll
    (keys : List String) (entries : Entries String (Leaf Ω)) (key : String) :
    (removeAll entries keys).lookup key = if key ∈ keys then none else entries.lookup key := by
  induction keys generalizing entries with
  | nil =>
      rfl
  | cons k keys ih =>
      have hstep : removeAll entries (k :: keys) = removeAll (remove k entries) keys := rfl
      rw [hstep, ih, lookup_remove]
      by_cases hkey : key = k
      · simp [hkey]
      · simp [hkey]

/-- What `clear_from` leaves of a section. -/
def clearedValue (ours : Entries String (Leaf Ω)) :
    Value String (Leaf Ω) → Option (Value String (Leaf Ω))
  | .leaf a => some (.leaf a)
  | .table existing =>
      let left := removeAll existing (ours.map Prod.fst)
      if left.isEmpty then none else some (.table left)

theorem lookup_clearSection
    (table : Entries String (Leaf Ω)) (name : String) (ours : Entries String (Leaf Ω))
    (k : String) :
    (clearSection table (name, .table ours)).lookup k =
      if k = name then (table.lookup k).bind (clearedValue ours) else table.lookup k := by
  unfold clearSection
  simp only
  by_cases hk : k = name
  · subst hk
    rw [if_pos rfl]
    cases hlookup : table.lookup k with
    | none =>
        exact hlookup
    | some value =>
        cases value with
        | leaf a =>
            exact hlookup
        | table existing =>
            simp only [Option.bind_some, clearedValue]
            split_ifs
            · rw [lookup_remove, if_pos rfl]
            · rw [lookup_insert, if_pos rfl]
  · rw [if_neg hk]
    split
    · split_ifs
      · rw [lookup_remove, if_neg hk]
      · rw [lookup_insert, if_neg hk]
    · rfl

theorem lookup_clearSections
    {managed : Entries String (Leaf Ω)} (hsorted : Sorted managed)
    (table : Entries String (Leaf Ω)) (k : String) :
    (managed.foldl clearSection table).lookup k =
      match managed.lookup k with
      | some (.table ours) => (table.lookup k).bind (clearedValue ours)
      | _ => table.lookup k := by
  induction managed generalizing table with
  | nil =>
      rfl
  | cons entry rest ih =>
      obtain ⟨name, value⟩ := entry
      obtain ⟨-, hlt, hrest⟩ := hsorted
      rw [List.foldl_cons, ih hrest, lookup_cons]
      cases value with
      | leaf a =>
          have hsame : clearSection table (name, .leaf a) = table := rfl
          rw [hsame]
          by_cases hk : k = name
          · subst hk
            rw [lookup_of_forall_lt hlt, if_pos rfl]
          · rw [if_neg hk]
      | table ours =>
          rw [lookup_clearSection]
          by_cases hk : k = name
          · subst hk
            rw [lookup_of_forall_lt hlt, if_pos rfl, if_pos rfl]
          · rw [if_neg hk, if_neg hk]

/-- The keys that are taken out of a section are the managed ones. -/
theorem mem_ofLeaves_keys
    {config : LocalConfig} {name : String} {fields : List (String × Leaf Ω)}
    (h : config.sections.lookup name = some fields) (key : String) :
    key ∈ (Table.ofLeaves fields).entries.map Prod.fst ↔ Managed name key := by
  have hleaf := Table.lookup_ofLeaves fields key
  unfold Table.lookup at hleaf
  rw [mem_keys_iff, hleaf, @managed_iff Ω config]
  unfold LocalConfig.value?
  rw [h, Option.bind_some]
  constructor
  · rintro ⟨v, hv⟩
    obtain ⟨a, ha, -⟩ := Option.map_eq_some_iff.mp hv
    exact ⟨a, ha⟩
  · rintro ⟨a, ha⟩
    exact ⟨.leaf a, by rw [ha, Option.map_some]⟩

/-- The table that `clear_from` writes. -/
def cleared (start : TomlTable Ω) : TomlTable Ω :=
  clearManaged start (LocalConfig.toTable {})

theorem lookup_cleared
    (start : TomlTable Ω) (name : String) :
    (cleared start).lookup name =
      match (LocalConfig.sections {}).lookup name with
      | none => start.lookup name
      | some fields =>
          (start.lookup name).bind (clearedValue (Table.ofLeaves fields).entries) := by
  have hlookup := @lookup_toTable Ω {} name
  have hclear := lookup_clearSections (LocalConfig.toTable {}).sorted start.entries name
  unfold Table.lookup at hlookup
  rw [hlookup] at hclear
  refine hclear.trans ?_
  cases (LocalConfig.sections {} : List (String × List (String × Leaf Ω))).lookup name with
  | none =>
      rfl
  | some fields =>
      rfl

theorem lookup_left
    {name : String} {fields : List (String × Leaf Ω)}
    (h : (LocalConfig.sections {}).lookup name = some fields)
    (existing : Entries String (Leaf Ω)) (key : String) :
    (removeAll existing ((Table.ofLeaves fields).entries.map Prod.fst)).lookup key =
      if Managed name key then none else existing.lookup key := by
  rw [lookup_removeAll]
  exact if_congr (mem_ofLeaves_keys h key) rfl rfl

/-- What is below a cleared section is what was there, apart from the managed keys. -/
theorem clearedValue_at?
    {name : String} {fields : List (String × Leaf Ω)}
    (h : (LocalConfig.sections {}).lookup name = some fields) (value : Value String (Leaf Ω))
    (key : String) (rest : List String) :
    (clearedValue (Table.ofLeaves fields).entries value).bind (·.at? (key :: rest)) =
      if Managed name key then none else value.at? (key :: rest) := by
  cases value with
  | leaf a =>
      simp [clearedValue, Value.at?]
  | table existing =>
      have hleft := lookup_left h existing key
      simp only [clearedValue]
      generalize removeAll existing ((Table.ofLeaves fields).entries.map Prod.fst) = left
        at hleft ⊢
      have hat : ((left.lookup key).bind (·.at? rest)) =
          if Managed name key then none else (existing.lookup key).bind (·.at? rest) := by
        rw [hleft]
        split_ifs <;> rfl
      rcases left with - | ⟨entry, left⟩
      · exact hat
      · exact hat

theorem cleared_at?
    (start : TomlTable Ω) (name key : String) (rest : List String) :
    (cleared start).value.at? (name :: key :: rest) =
      if Managed name key then none else start.value.at? (name :: key :: rest) := by
  have hlookup := lookup_cleared start name
  have hcleared : (cleared start).value.at? (name :: key :: rest) =
      ((cleared start).lookup name).bind (·.at? (key :: rest)) := rfl
  have hstart : start.value.at? (name :: key :: rest) =
      (start.lookup name).bind (·.at? (key :: rest)) := rfl
  rw [hcleared, hlookup, hstart]
  cases hfields :
      (LocalConfig.sections {} : List (String × List (String × Leaf Ω))).lookup name with
  | none =>
      have hnone : ¬Managed name key := by
        rw [@managed_iff Ω {}]
        unfold LocalConfig.value?
        rw [hfields]
        rintro ⟨a, ha⟩
        cases ha
      rw [if_neg hnone]
  | some fields =>
      cases start.lookup name with
      | none =>
          simp
      | some value =>
          exact clearedValue_at? hfields value key rest

theorem cleared_unmanaged
    (start : TomlTable Ω) {path : List String} (hpath : path ≠ []) (h : Unmanaged SECTIONS path) :
    (cleared start).value.at? path = start.value.at? path := by
  have hsection : ∀ name key, Managed name key → name ∈ SECTIONS := by
    intro name key hmanaged
    obtain ⟨keys, hkeys, -⟩ := Option.bind_eq_some_iff.mp (Option.eq_some_of_isSome hmanaged)
    have hmem := List.mem_map_of_mem (f := Prod.fst) (mem_of_lookup hkeys)
    exact hmem
  rcases path with - | ⟨name, - | ⟨key, rest⟩⟩
  · exact absurd rfl hpath
  · have hlookup := lookup_cleared start name
    have hnone : (LocalConfig.sections {} : List (String × List (String × Leaf Ω))).lookup name =
        none := by
      cases hfields : (LocalConfig.sections {} :
          List (String × List (String × Leaf Ω))).lookup name with
      | none =>
          rfl
      | some fields =>
          obtain ⟨key, hmanaged⟩ := exists_managed hfields
          exact absurd ⟨[key], rfl⟩ (h name (hsection name key hmanaged) key hmanaged).2
    rw [hnone] at hlookup
    exact congrArg (·.bind (·.at? [])) hlookup
  · have hnot : ¬Managed name key := fun hmanaged =>
      (h name (hsection name key hmanaged) key hmanaged).1 ⟨rest, rfl⟩
    rw [cleared_at?, if_neg hnot]

theorem eq_nil_iff_lookup
    {entries : Entries String (Leaf Ω)} :
    entries = [] ↔ ∀ key, entries.lookup key = none := by
  constructor
  · rintro rfl key
    rfl
  · intro h
    rcases entries with - | ⟨⟨key, value⟩, rest⟩
    · rfl
    · have hkey := h key
      rw [lookup_cons, if_pos rfl] at hkey
      cases hkey

theorem exists_section
    {name : String} (h : name ∈ SECTIONS) :
    ∃ fields : List (String × Leaf Ω), (LocalConfig.sections {}).lookup name = some fields := by
  have hkeys : name ∈ (LocalConfig.sections {} : List (String × List (String × Leaf Ω))).map
      Prod.fst := h
  exact mem_keys_iff.mp hkeys

/-- A section goes when nothing but managed keys was in it. -/
theorem cleared_section_iff
    (start : TomlTable Ω) {name : String} (hname : name ∈ SECTIONS)
    (htable : ∀ a, start.lookup name ≠ some (.leaf a)) :
    (cleared start).lookup name = none ↔
      ∀ key v, start.value.at? [name, key] = some v → Managed name key := by
  obtain ⟨fields, hfields⟩ := @exists_section Ω name hname
  have hstart : ∀ key, start.value.at? [name, key] =
      (start.lookup name).bind (·.at? [key]) := fun _ => rfl
  rw [lookup_cleared, hfields]
  simp only [hstart]
  cases hvalue : start.lookup name with
  | none =>
      refine iff_of_true rfl ?_
      intro key v hv
      cases hv
  | some value =>
      cases value with
      | leaf a =>
          exact absurd hvalue (htable a)
      | table existing =>
          have hleft := lookup_left hfields existing
          have hat : ∀ key, (Value.table existing).at? [key] = existing.lookup key := by
            intro key
            unfold Value.at?
            cases existing.lookup key <;> rfl
          simp only [Option.bind_some, hat, clearedValue]
          generalize removeAll existing ((Table.ofLeaves fields).entries.map Prod.fst) = left
            at hleft ⊢
          have hempty : (if left.isEmpty then none else some (Value.table left)) = none ↔
              left = [] := by
            cases left with
            | nil =>
                simp
            | cons entry left =>
                simp
          rw [hempty, eq_nil_iff_lookup]
          constructor
          · intro h key v hv
            by_contra hmanaged
            have hkey := h key
            rw [hleft, if_neg hmanaged, hv] at hkey
            cases hkey
          · intro h key
            rw [hleft]
            split_ifs with hmanaged
            · rfl
            · cases hv : existing.lookup key with
              | none =>
                  rfl
              | some v =>
                  exact absurd (h key v hv) hmanaged

/-- Without its managed keys, a section is the same before and after they are laid over. -/
theorem removeAll_overlay
    {config : LocalConfig} {name : String} {fields fields' : List (String × Leaf Ω)}
    (hfields : (LocalConfig.sections {}).lookup name = some fields)
    (hfields' : config.sections.lookup name = some fields')
    {existing : Entries String (Leaf Ω)} (hsorted : Sorted existing) :
    removeAll (overlay existing (Table.ofLeaves fields').entries)
        ((Table.ofLeaves fields).entries.map Prod.fst) =
      removeAll existing ((Table.ofLeaves fields).entries.map Prod.fst) := by
  have hoverlay := sorted_overlay (Table.ofLeaves fields').entries hsorted
    (Table.ofLeaves fields').sorted
  refine eq_of_lookup (sorted_removeAll _ hoverlay) (sorted_removeAll _ hsorted) ?_
  intro key
  rw [lookup_left hfields, lookup_left hfields]
  split_ifs with hmanaged
  · rfl
  · have hkeys := mem_ofLeaves_keys hfields' key
    rw [mem_keys_iff] at hkeys
    have hnone : (Table.ofLeaves fields').entries.lookup key = none := by
      cases hlookup : (Table.ofLeaves fields').entries.lookup key with
      | none =>
          rfl
      | some v =>
          exact absurd (hkeys.mp ⟨v, hlookup⟩) hmanaged
    rw [lookup_overlay (Table.ofLeaves fields').sorted, hnone]

theorem removeAll_ofLeaves
    {config : LocalConfig} {name : String} {fields fields' : List (String × Leaf Ω)}
    (hfields : (LocalConfig.sections {}).lookup name = some fields)
    (hfields' : config.sections.lookup name = some fields') :
    removeAll (Table.ofLeaves fields').entries ((Table.ofLeaves fields).entries.map Prod.fst) =
      [] := by
  rw [eq_nil_iff_lookup]
  intro key
  rw [lookup_left hfields]
  split_ifs with hmanaged
  · rfl
  · cases hlookup : (Table.ofLeaves fields').entries.lookup key with
    | none =>
        rfl
    | some v =>
        exact absurd ((mem_ofLeaves_keys hfields' key).mp (mem_keys_iff.mpr ⟨v, hlookup⟩))
          hmanaged

/-- A save of any sections makes no difference to what a reset leaves. -/
theorem cleared_saved
    (config : LocalConfig) (names : List String) (start : TomlTable Ω)
    (htables : ∀ name ∈ SECTIONS, ∀ a, start.lookup name ≠ some (.leaf a)) :
    cleared (mergeTables start (ours config names)) = cleared start := by
  suffices h : ∀ name, (cleared (mergeTables start (ours config names))).lookup name =
      (cleared start).lookup name from
    Table.ext (eq_of_lookup (cleared _).sorted (cleared _).sorted h)
  intro name
  have hours := @lookup_ours Ω config names name
  have hmerged := Table.lookup_overlay start (ours config names) name
  have hkinds := @sections_kinds Ω config name
  rw [← @sections_kinds Ω {} name] at hkinds
  rw [lookup_cleared, lookup_cleared, mergeTables]
  cases hfields :
      (LocalConfig.sections {} : List (String × List (String × Leaf Ω))).lookup name with
  | none =>
      rw [hfields] at hkinds
      rw [Option.map_eq_none_iff.mp hkinds] at hours
      have hno : (ours config names : TomlTable Ω).lookup name = none := by
        rw [hours]
        split_ifs <;> rfl
      rw [hno] at hmerged
      exact hmerged
  | some fields =>
      simp only
      by_cases hname : name ∈ names
      · rw [hfields] at hkinds
        obtain ⟨fields', hfields', -⟩ := Option.map_eq_some_iff.mp hkinds
        have hmanaged : name ∈ SECTIONS := mem_keys_iff.mpr ⟨fields, hfields⟩
        rw [if_pos hname, hfields', Option.map_some] at hours
        rw [hours] at hmerged
        rw [hmerged]
        cases hvalue : start.lookup name with
        | none =>
            simp only [Table.value, overlayValue, Option.bind_some, Option.bind_none, clearedValue,
              removeAll_ofLeaves hfields hfields', List.isEmpty_nil, if_true]
        | some value =>
            cases value with
            | leaf a =>
                exact absurd hvalue (htables name hmanaged a)
            | table existing =>
                have hsorted : Sorted existing := lookup_sorted start.sorted hvalue
                simp only [Table.value, overlayValue, Option.bind_some, clearedValue,
                  removeAll_overlay hfields hfields' hsorted]
      · rw [if_neg hname] at hours
        rw [hours] at hmerged
        rw [hmerged]

end Clear

/-! ### What is read back -/

section Load

/-- The value can be read where a value of this type was written; whole numbers are
`u32`s. -/
def Kind.admits : Kind → Value String (Leaf Ω) → Bool
  | .string, .leaf (.string _) => true
  | .integer, .leaf (.integer n) => decide (0 ≤ n ∧ n < 2 ^ 32)
  | .float, .leaf (.float _) => true
  | .float, .leaf (.integer _) => true
  | .boolean, .leaf (.boolean _) => true
  | _, _ => false

/-- The managed keys of the section have values of their types. -/
def WellTyped (table : TomlTable Ω) (name : String) : Prop :=
  ∀ key kind v, kind? name key = some kind → table.value.at? [name, key] = some v →
    kind.admits v = true

/-- Every value of the type can be read. -/
def Reads {A : Type} (kind : Kind) (read : Value String (Leaf Ω) → Option A) : Prop :=
  ∀ v, kind.admits v = true → (read v).isSome = true

theorem reads_string :
    Reads .string (@readString Ω) := by
  intro v h
  rcases v with (s | n | x | b | o) | entries
  all_goals first | rfl | cases h

theorem reads_boolean :
    Reads .boolean (@readBool Ω) := by
  intro v h
  rcases v with (s | n | x | b | o) | entries
  all_goals first | rfl | cases h

theorem reads_float :
    Reads .float (@readF32 Ω) := by
  intro v h
  rcases v with (s | n | x | b | o) | entries
  all_goals first | rfl | cases h

theorem reads_integer :
    Reads .integer (@readU32 Ω) := by
  intro v h
  rcases v with (s | n | x | b | o) | entries
  case leaf.integer =>
    have hn : 0 ≤ n ∧ n < 2 ^ 32 := of_decide_eq_true h
    unfold readU32
    simp only [if_pos hn, Option.isSome_some]
  all_goals cases h

theorem readU32_written
    (n : UInt32) :
    readU32 (.leaf (.integer n.toNat) : Value String (Leaf Ω)) = some n := by
  have hn : (0 : Int) ≤ n.toNat ∧ (n.toNat : Int) < 2 ^ 32 := by
    have hlt := n.toNat_lt
    omega
  unfold readU32
  simp only [if_pos hn, Int.toNat_natCast, UInt32.ofNat_toNat]

theorem readF32_written
    {x : F32} (h : x.isFinite = true) :
    readF32 (.leaf (.float (x.convert ⟨52, 11⟩)) : Value String (Leaf Ω)) = some x :=
  congrArg some (Flt.f32_convert_convert h)

theorem readField_written
    {A : Type} {entries : Entries String (Leaf Ω)} {key : String} {default x : A}
    {read : Value String (Leaf Ω) → Option A} {a : Leaf Ω}
    (h : entries.lookup key = some (.leaf a)) (hread : read (.leaf a) = some x) :
    readField entries key default read = some x := by
  unfold readField
  rw [h]
  exact hread

theorem exists_readField
    {A : Type} {entries : Entries String (Leaf Ω)} {key : String} {default : A}
    {read : Value String (Leaf Ω) → Option A}
    (h : ∀ v, entries.lookup key = some v → (read v).isSome = true) :
    ∃ x, readField entries key default read = some x := by
  unfold readField
  cases hlookup : entries.lookup key with
  | none =>
      exact ⟨default, rfl⟩
  | some v =>
      exact Option.isSome_iff_exists.mp (h v hlookup)

/-- A struct with these keys reads back as it was written, and can be read from any values
of the types it is written with. -/
def Recovers {T : Type} (config : LocalConfig) (name : String) (value : T)
    (read : Entries String (Leaf Ω) → Option T) : Prop :=
  (∀ entries : Entries String (Leaf Ω),
    (∀ key a, config.value? name key = some a → entries.lookup key = some (.leaf a)) →
    read entries = some value) ∧
  ∀ entries : Entries String (Leaf Ω),
    (∀ key kind v, kind? name key = some kind → entries.lookup key = some v →
      kind.admits v = true) →
    ∃ x, read entries = some x

theorem recovers_readOne
    {A T : Type} {config : LocalConfig} {name key : String} {default x : A}
    {read : Value String (Leaf Ω) → Option A} {make : A → T} {a : Leaf Ω} {kind : Kind}
    (hvalue : config.value? name key = some a) (hread : read (.leaf a) = some x)
    (hkind : kind? name key = some kind) (hreads : Reads kind read) :
    Recovers config name (make x) (readOne key default read make) := by
  refine ⟨?_, ?_⟩
  · intro entries h
    unfold readOne
    rw [readField_written (h key a hvalue) hread, Option.map_some]
  · intro entries h
    obtain ⟨y, hy⟩ := @exists_readField Ω A entries key default read fun v hv =>
      hreads v (h key kind v hkind hv)
    unfold readOne
    rw [hy]
    exact ⟨make y, rfl⟩

theorem recovers_readTwo
    {A B T : Type} {config : LocalConfig} {name key₁ key₂ : String} {default₁ x : A}
    {default₂ y : B} {read₁ : Value String (Leaf Ω) → Option A}
    {read₂ : Value String (Leaf Ω) → Option B} {make : A → B → T} {a b : Leaf Ω}
    {kind₁ kind₂ : Kind}
    (hvalue₁ : config.value? name key₁ = some a) (hread₁ : read₁ (.leaf a) = some x)
    (hkind₁ : kind? name key₁ = some kind₁) (hreads₁ : Reads kind₁ read₁)
    (hvalue₂ : config.value? name key₂ = some b) (hread₂ : read₂ (.leaf b) = some y)
    (hkind₂ : kind? name key₂ = some kind₂) (hreads₂ : Reads kind₂ read₂) :
    Recovers config name (make x y)
      (readTwo key₁ default₁ read₁ key₂ default₂ read₂ make) := by
  refine ⟨?_, ?_⟩
  · intro entries h
    unfold readTwo
    rw [readField_written (h key₁ a hvalue₁) hread₁, readField_written (h key₂ b hvalue₂) hread₂]
    rfl
  · intro entries h
    obtain ⟨v, hv⟩ := @exists_readField Ω A entries key₁ default₁ read₁ fun v hv =>
      hreads₁ v (h key₁ kind₁ v hkind₁ hv)
    obtain ⟨w, hw⟩ := @exists_readField Ω B entries key₂ default₂ read₂ fun v hv =>
      hreads₂ v (h key₂ kind₂ v hkind₂ hv)
    unfold readTwo
    rw [hv, hw]
    exact ⟨make v w, rfl⟩

/-- A section reads back as it was saved; one that was not saved can still be read. -/
theorem exists_readSection
    (toml : Toml Ω Text) {config : LocalConfig} {names : List String} {start : TomlTable Ω}
    {name : String} (hname : name ∈ SECTIONS) (htable : ∀ a, start.lookup name ≠ some (.leaf a))
    (htyped : name ∉ names → WellTyped start name)
    {T : Type} (fields : List String) (default : T) {value : T}
    {read : Entries String (Leaf Ω) → Option T} (h : Recovers config name value read) :
    ∃ x, LocalConfig.readSection toml (mergeTables start (ours config names)) name fields default
        read = some x ∧ (name ∈ names → x = value) := by
  have hat : ∀ (entries : Entries String (Leaf Ω)) (key : String),
      (Value.table entries).at? [key] = entries.lookup key := by
    intro entries key
    unfold Value.at?
    cases entries.lookup key <;> rfl
  unfold LocalConfig.readSection
  by_cases hlisted : name ∈ names
  · -- a key that was written shows that the section is a table
    obtain ⟨fields', hfields'⟩ := @exists_section Ω name hname
    obtain ⟨key, hmanaged⟩ := exists_managed hfields'
    obtain ⟨a, ha⟩ := (@managed_iff Ω config name key).mp hmanaged
    have hsaved : ∀ key a, config.value? name key = some a →
        ((mergeTables start (ours config names)).lookup name).bind (·.at? [key]) =
          some (.leaf a) :=
      fun key a ha => saved_managed config names start hlisted ha
    cases hlookup : (mergeTables start (ours config names)).lookup name with
    | none =>
        have hkey := hsaved key a ha
        rw [hlookup] at hkey
        cases hkey
    | some value' =>
        cases value' with
        | leaf b =>
            have hkey := hsaved key a ha
            rw [hlookup] at hkey
            cases hkey
        | table entries =>
            refine ⟨value, h.1 entries ?_, fun _ => rfl⟩
            intro key a ha
            have hkey := hsaved key a ha
            rw [hlookup, Option.bind_some, hat] at hkey
            exact hkey
  · have hours := @lookup_ours Ω config names name
    rw [if_neg hlisted] at hours
    have hmerged := Table.lookup_overlay start (ours config names) name
    rw [hours] at hmerged
    unfold mergeTables
    rw [hmerged]
    cases hlookup : start.lookup name with
    | none =>
        exact ⟨default, rfl, fun h => absurd h hlisted⟩
    | some value' =>
        cases value' with
        | leaf a =>
            exact absurd hlookup (htable a)
        | table entries =>
            obtain ⟨x, hx⟩ := h.2 entries fun key kind v hkind hv => by
              refine htyped hlisted key kind v hkind ?_
              have hstart : start.value.at? [name, key] =
                  (start.lookup name).bind (·.at? [key]) := rfl
              rw [hstart, hlookup, Option.bind_some, hat, hv]
            exact ⟨x, hx, fun h => absurd h hlisted⟩

end Load

/-- The two configs have the same values in these sections. -/
def LocalConfig.SameIn (names : List String) (a b : LocalConfig) : Prop :=
  ("video" ∈ names → a.video = b.video) ∧ ("sleep_mode" ∈ names → a.sleep_mode = b.sleep_mode) ∧
    ("face_tracking" ∈ names → a.face_tracking = b.face_tracking) ∧
    ("recording" ∈ names → a.recording = b.recording) ∧ ("audio" ∈ names → a.audio = b.audio) ∧
    ("deploy" ∈ names → a.deploy = b.deploy)

section Sections

variable (config : LocalConfig)

theorem recovers_video :
    Recovers config "video" config.video (@VideoOverride.deserialize Ω) :=
  recovers_readOne rfl rfl rfl reads_string

theorem recovers_sleep_mode :
    Recovers config "sleep_mode" config.sleep_mode (@SleepModeOverride.deserialize Ω) :=
  recovers_readTwo rfl rfl rfl reads_boolean rfl (readU32_written _) rfl reads_integer

theorem recovers_face_tracking
    (hfinite : config.face_tracking.smoothing.isFinite = true) :
    Recovers config "face_tracking" config.face_tracking (@FaceTrackingOverride.deserialize Ω) :=
  recovers_readTwo rfl rfl rfl reads_boolean rfl (readF32_written hfinite) rfl reads_float

theorem recovers_recording :
    Recovers config "recording" config.recording (@RecordingOverride.deserialize Ω) :=
  recovers_readTwo rfl rfl rfl reads_boolean rfl rfl rfl reads_string

theorem recovers_audio :
    Recovers config "audio" config.audio (@AudioOverride.deserialize Ω) :=
  recovers_readTwo rfl rfl rfl reads_boolean rfl (readU32_written _) rfl reads_integer

theorem recovers_deploy :
    Recovers config "deploy" config.deploy (@DeployOverride.deserialize Ω) :=
  recovers_readOne rfl rfl rfl reads_string

end Sections

theorem deserialize_saved
    (toml : Toml Ω Text) {config : LocalConfig}
    (hfinite : config.face_tracking.smoothing.isFinite = true) (names : List String)
    {start : TomlTable Ω} (htables : ∀ name ∈ SECTIONS, ∀ a, start.lookup name ≠ some (.leaf a))
    (htyped : ∀ name ∈ SECTIONS, name ∉ names → WellTyped start name) :
    ∃ loaded, LocalConfig.deserialize toml (mergeTables start (ours config names)) = some loaded ∧
      loaded.SameIn names config := by
  have hsection : ∀ {T : Type} {name : String} (fields : List String) (default : T) {value : T}
      {read : Entries String (Leaf Ω) → Option T}, name ∈ SECTIONS →
      Recovers config name value read →
      ∃ x, LocalConfig.readSection toml (mergeTables start (ours config names)) name fields
        default read = some x ∧ (name ∈ names → x = value) :=
    fun fields default _ _ hname h =>
      exists_readSection toml hname (htables _ hname) (htyped _ hname) fields default h
  obtain ⟨video, hvideo, hsame₁⟩ := hsection ["codec"] {} (by decide) (recovers_video config)
  obtain ⟨sleep, hsleep, hsame₂⟩ :=
    hsection ["enabled", "timeout_seconds"] {} (by decide) (recovers_sleep_mode config)
  obtain ⟨face, hface, hsame₃⟩ :=
    hsection ["enabled", "smoothing"] {} (by decide) (recovers_face_tracking config hfinite)
  obtain ⟨recording, hrecording, hsame₄⟩ :=
    hsection ["enabled", "output_dir"] {} (by decide) (recovers_recording config)
  obtain ⟨audio, haudio, hsame₅⟩ :=
    hsection ["enabled", "bitrate_kbps"] {} (by decide) (recovers_audio config)
  obtain ⟨deploy, hdeploy, hsame₆⟩ := hsection ["apk_path"] {} (by decide) (recovers_deploy config)
  refine ⟨⟨video, sleep, face, recording, audio, deploy⟩, ?_,
    hsame₁, hsame₂, hsame₃, hsame₄, hsame₅, hsame₆⟩
  unfold LocalConfig.deserialize
  rw [hvideo, hsleep, hface, hrecording, haudio, hdeploy]
  rfl

/-! ### The operations -/

theorem saveTo_eq
    (toml : Toml Ω Text) (failures : Failures Text) (config : LocalConfig) (path : FilePath)
    (names : List String) :
    config.saveTo toml failures path names =
      changeTable toml failures path fun table => mergeTables table (ours config names) :=
  rfl

theorem clearFrom_eq
    (toml : Toml Ω Text) (failures : Failures Text) (path : FilePath) :
    clearFrom toml failures path = changeTable toml failures path cleared :=
  rfl

section Files

variable (toml : Toml Ω Text) (failures : Failures Text)

theorem start_of_holds
    {disk : Disk Text} {path : FilePath} {table table' : TomlTable Ω}
    (h : Holds toml disk path table) (hstart : Start toml failures disk path table') :
    table' = table := by
  unfold Holds at h
  rcases hstart with hholds | ⟨content, error, hdisk, hparse, -, -⟩
  · unfold Holds at hholds
    cases hdisk : disk path with
    | none =>
        rw [hdisk] at h hholds
        exact hholds.trans h.symm
    | some content =>
        rw [hdisk] at h hholds
        exact Except.ok.inj (hholds.symm.trans h)
  · rw [hdisk] at h
    cases hparse.symm.trans h

theorem start_unique
    {disk : Disk Text} {path : FilePath} {table table' : TomlTable Ω}
    (h : Start toml failures disk path table) (h' : Start toml failures disk path table') :
    table' = table := by
  rcases h with h | ⟨content, error, hdisk, hparse, -, rfl⟩
  · exact start_of_holds toml failures h h'
  · rcases h' with h' | ⟨-, -, -, -, -, rfl⟩
    · unfold Holds at h'
      rw [hdisk] at h'
      cases hparse.symm.trans h'
    · rfl

/-- A call that the change of the table needs fails. -/
def CallFails (disk : Disk Text) (path : FilePath) (change : TomlTable Ω → TomlTable Ω) : Prop :=
  failures.read ≠ none ∨
    (∃ content error, disk path = some content ∧ toml.parse content = .error error ∧
      failures.copy ≠ none) ∨
    (∃ table error, Start toml failures disk path table ∧
      toml.toStringPretty (change table) = .error error) ∨
    failures.createDirAll ≠ none ∨ failures.write ≠ none ∨ failures.rename ≠ none

/-- When a call fails, the operation fails, and then the file is as it was. -/
def KeptOnFailure (disk : Disk Text) (path : FilePath) (change : TomlTable Ω → TomlTable Ω)
    (op : FileOp Text Unit) : Prop :=
  (CallFails toml failures disk path change → ∃ error disk', op.run disk = .error error disk') ∧
    ∀ error disk', op.run disk = .error error disk' → disk' path = disk path

theorem changeTable_kept
    (disk : Disk Text) (path : FilePath) (change : TomlTable Ω → TomlTable Ω) :
    KeptOnFailure toml failures disk path change (changeTable toml failures path change) := by
  have hspec := changeTable_spec toml failures path change disk
  refine ⟨?_, ?_⟩
  · intro hfails
    cases hrun : (changeTable toml failures path change).run disk with
    | error error disk' =>
        exact ⟨error, disk', rfl⟩
    | ok _ disk' =>
        exfalso
        rw [hrun] at hspec
        obtain ⟨table, content, hstart, hprint, -, hread, hdir, hwrite, hrename⟩ := hspec
        rcases hfails with h | ⟨content', error, hdisk, hparse, hcopy⟩ |
          ⟨table', error, hstart', hprint'⟩ | h | h | h
        · exact h hread
        · rcases hstart with hholds | ⟨-, -, -, -, hcopy', -⟩
          · unfold Holds at hholds
            rw [hdisk] at hholds
            cases hparse.symm.trans hholds
          · exact hcopy hcopy'
        · rw [start_unique toml failures hstart hstart'] at hprint'
          cases hprint.symm.trans hprint'
        · exact h hdir
        · exact h hwrite
        · exact h hrename
  · intro error disk' hrun
    rw [hrun] at hspec
    exact hspec

/-- What is in the file after a change is the changed table. -/
theorem changeTable_holds
    (hprints : ∀ table content, toml.toStringPretty table = .ok content →
      toml.parse content = .ok table)
    {disk disk' : Disk Text} {path : FilePath} {change : TomlTable Ω → TomlTable Ω}
    {start : TomlTable Ω} (hstart : Holds toml disk path start)
    (hrun : (changeTable toml failures path change).run disk = .ok () disk') :
    ∃ content, toml.toStringPretty (change start) = .ok content ∧ disk' path = some content ∧
      toml.parse content = .ok (change start) := by
  have hspec := changeTable_spec toml failures path change disk
  rw [hrun] at hspec
  obtain ⟨table, content, hread, hprint, hcontent, -⟩ := hspec
  rw [start_of_holds toml failures hstart hread] at hprint
  exact ⟨content, hprint, hcontent, hprints _ _ hprint⟩

end Files

/-- The managed sections that are there are tables. -/
def ManagedTables (table : TomlTable Ω) : Prop :=
  ∀ name ∈ SECTIONS, ∀ a, table.lookup name ≠ some (.leaf a)

/-- A save and a reset change the keys they manage and nothing else, a reset undoes any
save, and a failure changes nothing. -/
theorem local_toml_kept
    (toml : Toml Ω Text)
    (hprints : ∀ table content, toml.toStringPretty table = .ok content →
      toml.parse content = .ok table)
    (path : FilePath) {config : LocalConfig}
    (hfinite : config.face_tracking.smoothing.isFinite = true) (names : List String) :
    (∀ (failures : Failures Text) (disk disk' : Disk Text) (start : TomlTable Ω),
      Holds toml disk path start → ManagedTables start →
      (config.saveTo toml failures path names).run disk = .ok () disk' →
      ∃ saved, Holds toml disk' path saved ∧
        (∀ p, p ≠ [] → Unmanaged names p → saved.value.at? p = start.value.at? p) ∧
        (∀ name ∈ names, ∀ key a, config.value? name key = some a →
          saved.value.at? [name, key] = some (.leaf a)) ∧
        ((∀ name ∈ SECTIONS, name ∉ names → WellTyped start name) →
          (LocalConfig.loadFrom toml {} path disk').SameIn names config)) ∧
    (∀ (failures : Failures Text) (disk disk' : Disk Text) (start : TomlTable Ω),
      Holds toml disk path start → ManagedTables start →
      (clearFrom toml failures path).run disk = .ok () disk' →
      ∃ left, Holds toml disk' path left ∧
        (∀ name key, Managed name key → left.value.at? [name, key] = none) ∧
        (∀ name ∈ SECTIONS, left.lookup name = none ↔
          ∀ key v, start.value.at? [name, key] = some v → Managed name key) ∧
        ∀ p, p ≠ [] → Unmanaged SECTIONS p → left.value.at? p = start.value.at? p) ∧
    (∀ (first second other : Failures Text) (disk saved after alone : Disk Text)
      (start : TomlTable Ω), Holds toml disk path start → ManagedTables start →
      (config.saveTo toml first path names).run disk = .ok () saved →
      (clearFrom toml second path).run saved = .ok () after →
      (clearFrom toml other path).run disk = .ok () alone → after path = alone path) ∧
    ∀ (failures : Failures Text) (disk : Disk Text),
      KeptOnFailure toml failures disk path
        (fun table => mergeTables table (config.toTable.retain fun name => names.contains name))
        (config.saveTo toml failures path names) ∧
      KeptOnFailure toml failures disk path
        (fun table => clearManaged table (LocalConfig.toTable {}))
        (clearFrom toml failures path) := by
  have hholds : ∀ {disk : Disk Text} {table : TomlTable Ω} {content : Text},
      disk path = some content → toml.parse content = .ok table → Holds toml disk path table := by
    intro disk table content hdisk hparse
    unfold Holds
    rw [hdisk]
    exact hparse
  refine ⟨?_, ?_, ?_, ?_⟩
  · intro failures disk disk' start hstart htables hrun
    obtain ⟨content, -, hdisk, hparse⟩ :=
      changeTable_holds toml failures hprints hstart (saveTo_eq toml failures _ _ _ ▸ hrun)
    refine ⟨mergeTables start (ours config names), hholds hdisk hparse, ?_, ?_, ?_⟩
    · intro p hp hunmanaged
      exact saved_unmanaged config names start hp hunmanaged
    · intro name hname key a ha
      exact saved_managed config names start hname ha
    · intro htyped
      obtain ⟨loaded, hload, hsame⟩ := deserialize_saved toml hfinite names htables htyped
      unfold LocalConfig.loadFrom
      simp only [hdisk, hparse, Except.toOption, Option.bind_some, hload, Option.getD_some]
      exact hsame
  · intro failures disk disk' start hstart htables hrun
    obtain ⟨content, -, hdisk, hparse⟩ :=
      changeTable_holds toml failures hprints hstart (clearFrom_eq toml failures _ ▸ hrun)
    refine ⟨cleared start, hholds hdisk hparse, ?_, ?_, ?_⟩
    · intro name key hmanaged
      rw [cleared_at?, if_pos hmanaged]
    · intro name hname
      exact cleared_section_iff start hname (htables name hname)
    · intro p hp hunmanaged
      exact cleared_unmanaged start hp hunmanaged
  · intro first second other disk saved after alone start hstart htables hsave hclear halone
    obtain ⟨content, -, hdisk, hparse⟩ :=
      changeTable_holds toml first hprints hstart (saveTo_eq toml first _ _ _ ▸ hsave)
    obtain ⟨content₁, hprint₁, hdisk₁, -⟩ :=
      changeTable_holds toml second hprints (hholds hdisk hparse)
        (clearFrom_eq toml second _ ▸ hclear)
    obtain ⟨content₂, hprint₂, hdisk₂, -⟩ :=
      changeTable_holds toml other hprints hstart (clearFrom_eq toml other _ ▸ halone)
    rw [cleared_saved config names start htables] at hprint₁
    rw [hdisk₁, hdisk₂, Except.ok.inj (hprint₁.symm.trans hprint₂)]
  · intro failures disk
    exact ⟨changeTable_kept toml failures disk path _, changeTable_kept toml failures disk path _⟩

/-! ### A save of the codec next to a key that is not managed -/

def bitrateText : String := "[video]\nbitrate_mbps = 150\n"
def bitrateCodecText : String := "[video]\nbitrate_mbps = 150\ncodec = \"h265\"\n"

def bitrateTable : TomlTable Unit :=
  Table.ofTables [("video", Table.ofLeaves [("bitrate_mbps", .integer 150)])]

def bitrateCodecTable : TomlTable Unit :=
  Table.ofTables
    [("video", Table.ofLeaves [("bitrate_mbps", .integer 150), ("codec", .string "h265")])]

/-- The parser and the printer at two texts. -/
def bitrateToml : Toml Unit String where
  parse content :=
    if content = bitrateText then .ok bitrateTable
    else if content = bitrateCodecText then .ok bitrateCodecTable
    else .error "not one of the two"
  toStringPretty table :=
    match table.entries with
    | [("video", .table [("bitrate_mbps", .leaf (.integer 150)),
        ("codec", .leaf (.string "h265"))])] => .ok bitrateCodecText
    | _ => .error "not the second"
  byPosition _ _ := none

theorem bitrateToml_prints
    {table : TomlTable Unit} {content : String}
    (h : bitrateToml.toStringPretty table = .ok content) :
    bitrateToml.parse content = .ok table := by
  have hprint : (match table.entries with
    | [("video", .table [("bitrate_mbps", .leaf (.integer 150)),
        ("codec", .leaf (.string "h265"))])] => .ok bitrateCodecText
    | _ => .error "not the second" : Except String String) = .ok content := h
  split at hprint
  · next hentries =>
      cases hprint
      have htable : table = bitrateCodecTable := Table.ext hentries
      rw [htable]
      rfl
  · cases hprint

def localToml : FilePath :=
  ⟨"config", ['l', 'o', 'c', 'a', 'l', '.', 't', 'o', 'm', 'l']⟩

def bitrateDisk : Disk String :=
  fun path => if path = localToml then some bitrateText else none

theorem local_toml_kept_bitrate :
    ∃ disk' saved,
      (LocalConfig.saveTo bitrateToml {} {} localToml ["video"]).run bitrateDisk = .ok () disk' ∧
        Holds bitrateToml disk' localToml saved ∧
        saved.value.at? ["video", "bitrate_mbps"] = some (.leaf (.integer 150)) := by
  have htables : ManagedTables bitrateTable := by
    intro name hname a hleaf
    simp only [SECTIONS, List.mem_cons, List.not_mem_nil, or_false] at hname
    rcases hname with rfl | rfl | rfl | rfl | rfl | rfl
    all_goals cases hleaf
  have hunmanaged : Unmanaged ["video"] ["video", "bitrate_mbps"] := by
    intro name hname key hmanaged
    obtain rfl := List.mem_singleton.mp hname
    have hcodec : (List.lookup key [("codec", Kind.string)]).isSome = true := hmanaged
    rw [lookup_cons] at hcodec
    split_ifs at hcodec with hkey
    · subst hkey
      exact ⟨by decide, by decide⟩
    · cases hcodec
  obtain ⟨saved, hholds, hkept, -, -⟩ :=
    (@local_toml_kept Unit String bitrateToml (fun _ _ => bitrateToml_prints) localToml {}
      (by decide) ["video"]).1 {} bitrateDisk _ bitrateTable rfl htables rfl
  exact ⟨_, saved, rfl, hholds, (hkept _ (List.cons_ne_nil _ _) hunmanaged).trans rfl⟩

end Companion
end FocusVision
