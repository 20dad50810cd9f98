import FocusVision.Lib.NestedTable
import Mathlib.Data.String.Basic

/-!
# Config layers

`AppConfig::load_layered` of the engine's `config.rs`: a base file and overlays are read
and laid one over the other, and the table is deserialised.  A file that is missing or
cannot be used is skipped; a table that does not deserialise gives way to the base
alone, and then to the defaults.

Reading a file, the TOML parser and the derived deserialiser are parameters, and
so is what a value that is not a table may be.  Log messages are left out.
-/

namespace FocusVision
namespace Engine

open NestedTable

/-- `std::io::Error`: whether it is `NotFound`. -/
inductive FileError where
  | notFound
  | other (message : String)

/-- The files, and the two outer halves of deserialising them. -/
structure ConfigFiles (Path Text α Config : Type) where
  readToString : Path → Except FileError Text
  parse : Text → Except String (Table String α)
  deserialize : Table String α → Except String Config
  default : Config

variable {Path Text α Config : Type}

/-- `merge_toml_tables`. -/
def mergeTomlTables (base overlay : Table String α) : Table String α :=
  base.overlay overlay

/-- The table merged so far, and the files it was merged from. -/
structure MergedLayers (Path α : Type) where
  merged : Table String α := Table.empty
  applied : List Path := []

namespace ConfigFiles

variable (files : ConfigFiles Path Text α Config)

/-- `read_toml_layer`: nothing when the file does not exist. -/
def readTomlLayer (path : Path) : Except String (Option (Table String α)) :=
  match files.readToString path with
  | .ok content => (files.parse content).map some
  | .error .notFound => .ok none
  | .error (.other message) => .error message

/-- An overlay in the loop of `load_layered`. -/
def applyOverlay (layers : MergedLayers Path α) (path : Path) : MergedLayers Path α :=
  match files.readTomlLayer path with
  | .ok (some table) =>
      { merged := mergeTomlTables layers.merged table, applied := layers.applied ++ [path] }
  | .ok none => layers
  | .error _ => layers

/-- The base in `load_layered`, and its table alone. -/
def applyBase (base : Option Path) : MergedLayers Path α × Option (Table String α) :=
  match base with
  | none => ({}, none)
  | some path =>
      match files.readTomlLayer path with
      | .ok (some table) =>
          ({ merged := mergeTomlTables Table.empty table, applied := [path] }, some table)
      | .ok none => ({}, none)
      | .error _ => ({}, none)

/-- The layers that `load_layered` has merged when it deserialises them. -/
def mergeLayers (base : Option Path) (overlays : List Path) : MergedLayers Path α :=
  overlays.foldl files.applyOverlay (files.applyBase base).1

/-- `load_layered`. -/
def loadLayered (base : Option Path) (overlays : List Path) : Config × List Path :=
  let layers := files.mergeLayers base overlays
  match files.deserialize layers.merged with
  | .ok config => (config, layers.applied)
  | .error _ =>
      let fallback := (files.applyBase base).2.bind fun table => (files.deserialize table).toOption
      match fallback, base with
      | some config, some path => (config, [path])
      | _, _ => (files.default, [])

/-- The file can be read, and is parsed to the table. -/
def Holds (path : Path) (table : Table String α) : Prop :=
  ∃ text, files.readToString path = .ok text ∧ files.parse text = .ok table

/-- The layer of a file that can be read and parsed. -/
def layer? (path : Path) : Option (Path × Table String α) :=
  (files.readToString path).toOption.bind fun text =>
    (files.parse text).toOption.map fun table => (path, table)

/-- The readable layers, in order. -/
def layers (base : Option Path) (overlays : List Path) : List (Path × Table String α) :=
  (base.toList ++ overlays).filterMap files.layer?

/-- The last of the layers that has something at the path, or a leaf on the way, has
`node` there. -/
def LastDeciding (layers : List (Path × Table String α)) (path : List String) (node : Node α) :
    Prop :=
  ∃ earlier layer later, layers = earlier ++ layer :: later ∧
    layer.2.value.nodeAt path = some node ∧ ∀ l ∈ later, ¬ l.2.Decides path

/-! ### The layers that are used -/

/-- `read_toml_layer` gives a layer exactly when there is one. -/
theorem layer?_eq
    (path : Path) :
    files.layer? path =
      match files.readTomlLayer path with
      | .ok (some table) => some (path, table)
      | _ => none := by
  unfold layer? readTomlLayer
  cases files.readToString path with
  | ok text =>
      simp only [Except.toOption, Option.bind_some]
      cases files.parse text <;> rfl
  | error e => cases e <;> rfl

theorem layer?_eq_some_iff
    (path : Path) (table : Table String α) :
    files.layer? path = some (path, table) ↔ files.Holds path table := by
  unfold layer? Holds
  cases files.readToString path with
  | ok text =>
      cases hparse : files.parse text <;> simp [Except.toOption, hparse]
  | error e => simp [Except.toOption]

theorem layer?_fst
    {path : Path} {layer : Path × Table String α} (h : files.layer? path = some layer) :
    layer.1 = path := by
  rw [layer?_eq] at h
  split at h
  · cases h
    rfl
  · cases h

theorem applyOverlay_eq
    (layers : MergedLayers Path α) (path : Path) :
    files.applyOverlay layers path =
      match files.layer? path with
      | none => layers
      | some (path, table) =>
          { merged := layers.merged.overlay table, applied := layers.applied ++ [path] } := by
  rw [layer?_eq]
  unfold applyOverlay
  rcases files.readTomlLayer path with - | (- | table) <;> rfl

theorem foldl_applyOverlay
    (overlays : List Path) (start : MergedLayers Path α) :
    overlays.foldl files.applyOverlay start =
      { merged := ((overlays.filterMap files.layer?).map Prod.snd).foldl Table.overlay start.merged
        applied := start.applied ++ (overlays.filterMap files.layer?).map Prod.fst } := by
  induction overlays generalizing start with
  | nil =>
      simp
  | cons path rest ih =>
      rw [List.foldl_cons, ih, applyOverlay_eq]
      cases hlayer : files.layer? path with
      | none =>
          rw [List.filterMap_cons_none hlayer]
      | some layer =>
          rw [List.filterMap_cons_some hlayer]
          simp [List.append_assoc]

theorem applyBase_eq
    (base : Option Path) :
    files.applyBase base =
      (files.mergeLayers none base.toList, (base.bind files.layer?).map Prod.snd) := by
  cases base with
  | none =>
      rfl
  | some path =>
      unfold applyBase mergeLayers
      simp only [Option.toList_some, List.foldl_cons, List.foldl_nil, applyOverlay_eq,
        Option.bind_some]
      rw [layer?_eq]
      rcases files.readTomlLayer path with - | (- | table) <;> rfl

theorem mergeLayers_eq
    (base : Option Path) (overlays : List Path) :
    files.mergeLayers base overlays =
      { merged := ((files.layers base overlays).map Prod.snd).foldl Table.overlay Table.empty
        applied := (files.layers base overlays).map Prod.fst } := by
  have hall : files.mergeLayers base overlays =
      (base.toList ++ overlays).foldl files.applyOverlay {} := by
    rw [List.foldl_append, mergeLayers, applyBase_eq]
    rfl
  rw [hall, foldl_applyOverlay]
  rfl

/-- Below the root, the merged table has what the last deciding layer has. -/
theorem merged_nodeAt
    (base : Option Path) (overlays : List Path) {path : List String} (hpath : path ≠ [])
    (node : Node α) :
    (files.mergeLayers base overlays).merged.value.nodeAt path = some node ↔
      LastDeciding (files.layers base overlays) path node := by
  rw [mergeLayers_eq, Table.nodeAt_foldl_overlay]
  have hempty : (Table.empty : Table String α).value.nodeAt path = none := by
    cases path with
    | nil =>
        exact absurd rfl hpath
    | cons key path =>
        rfl
  constructor
  · rintro (⟨hnode, -⟩ | ⟨earlier, layer, later, heq, hnode, hlater⟩)
    · rw [hempty] at hnode
      cases hnode
    · obtain ⟨before, rest, hlayers, rfl, hrest⟩ := List.map_eq_append_iff.mp heq
      obtain ⟨found, after, rfl, rfl, rfl⟩ := List.map_eq_cons_iff.mp hrest
      exact ⟨before, found, after, hlayers, hnode,
        fun l hl => hlater l.2 (List.mem_map_of_mem hl)⟩
  · rintro ⟨earlier, layer, later, heq, hnode, hlater⟩
    refine Or.inr ⟨earlier.map Prod.snd, layer.2, later.map Prod.snd, ?_, hnode, ?_⟩
    · rw [heq, List.map_append, List.map_cons]
    · intro l hl
      obtain ⟨entry, hentry, rfl⟩ := List.mem_map.mp hl
      exact hlater entry hentry

theorem merged_leaf
    (base : Option Path) (overlays : List Path) (path : List String) (a : α) :
    (files.mergeLayers base overlays).merged.value.nodeAt path = some (.leaf a) ↔
      LastDeciding (files.layers base overlays) path (.leaf a) := by
  cases path with
  | nil =>
      refine iff_of_false ?_ ?_
      · intro h
        cases h
      · rintro ⟨_, _, _, _, hnode, _⟩
        cases hnode
  | cons key path =>
      exact files.merged_nodeAt base overlays (List.cons_ne_nil _ _) (.leaf a)

/-- The base alone, if it can be read and deserialised. -/
def baseAlone (base : Option Path) : Option (Config × List Path) :=
  (base.bind files.layer?).bind fun layer =>
    (files.deserialize layer.2).toOption.map fun config => (config, [layer.1])

theorem loadLayered_eq
    (base : Option Path) (overlays : List Path) :
    files.loadLayered base overlays =
      match files.deserialize (files.mergeLayers base overlays).merged with
      | .ok config => (config, (files.layers base overlays).map Prod.fst)
      | .error _ => (files.baseAlone base).getD (files.default, []) := by
  unfold loadLayered baseAlone
  rw [applyBase_eq]
  have happlied : (files.mergeLayers base overlays).applied =
      (files.layers base overlays).map Prod.fst := by
    rw [mergeLayers_eq]
  simp only [happlied]
  split
  · rfl
  · cases base with
    | none =>
        rfl
    | some path =>
        simp only [Option.bind_some]
        cases hlayer : files.layer? path with
        | none =>
            rfl
        | some layer =>
            simp only [Option.map_some, Option.bind_some, files.layer?_fst hlayer]
            cases files.deserialize layer.2 <;> rfl

/-- The result depends on the readable layers, and on the base alone. -/
theorem loadLayered_congr
    {base base' : Option Path} {overlays overlays' : List Path}
    (hlayers : files.layers base overlays = files.layers base' overlays')
    (halone : files.baseAlone base = files.baseAlone base') :
    files.loadLayered base overlays = files.loadLayered base' overlays' := by
  rw [loadLayered_eq, loadLayered_eq, mergeLayers_eq, mergeLayers_eq, hlayers, halone]

theorem layer?_eq_none
    {path : Path} (h : ∀ table, ¬files.Holds path table) :
    files.layer? path = none := by
  cases hlayer : files.layer? path with
  | none => rfl
  | some layer =>
      obtain ⟨found, table⟩ := layer
      obtain rfl : found = path := files.layer?_fst hlayer
      exact absurd ((files.layer?_eq_some_iff found table).mp hlayer) (h table)

/-- The merged table is the only one that has what the last deciding layers have. -/
theorem eq_merged_iff
    (base : Option Path) (overlays : List Path) (other : Table String α) :
    other = (files.mergeLayers base overlays).merged ↔
      ∀ path node, path ≠ [] → (other.value.nodeAt path = some node ↔
        LastDeciding (files.layers base overlays) path node) := by
  constructor
  · rintro rfl path node hpath
    exact files.merged_nodeAt base overlays hpath node
  · intro h
    refine Table.ext_nodeAt fun path => ?_
    by_cases hpath : path = []
    · subst hpath
      rfl
    · refine Option.ext fun node => ?_
      exact (h path node hpath).trans (files.merged_nodeAt base overlays hpath node).symm

/-- What the deserialised table has at every path; the layers that do not count; and what
`load_layered` returns with which files. -/
theorem load_layered_precedence
    (base : Option Path) (overlays : List Path) :
    (∀ path a, (files.mergeLayers base overlays).merged.value.nodeAt path = some (.leaf a) ↔
      LastDeciding (files.layers base overlays) path (.leaf a)) ∧
    (∀ other : Table String α, other = (files.mergeLayers base overlays).merged ↔
      ∀ path node, path ≠ [] → (other.value.nodeAt path = some node ↔
        LastDeciding (files.layers base overlays) path node)) ∧
    (∀ earlier path later, overlays = earlier ++ path :: later →
      (∀ table, ¬files.Holds path table) →
      files.loadLayered base overlays = files.loadLayered base (earlier ++ later)) ∧
    (∀ path, base = some path → (∀ table, ¬files.Holds path table) →
      files.loadLayered base overlays = files.loadLayered none overlays) ∧
    (∀ earlier last table path a, overlays = earlier ++ [last] →
      files.Holds last table →
      table.value.nodeAt path = some (.leaf a) →
      (files.mergeLayers base overlays).merged.value.nodeAt path = some (.leaf a)) ∧
    files.loadLayered base overlays =
      match files.deserialize (files.mergeLayers base overlays).merged with
      | .ok config => (config, (files.layers base overlays).map Prod.fst)
      | .error _ => (files.baseAlone base).getD (files.default, []) := by
  refine ⟨files.merged_leaf base overlays, files.eq_merged_iff base overlays, ?_, ?_, ?_,
    files.loadLayered_eq base overlays⟩
  · rintro earlier path later rfl hbroken
    refine files.loadLayered_congr ?_ rfl
    unfold layers
    simp only [List.filterMap_append, List.filterMap_cons_none (files.layer?_eq_none hbroken)]
  · rintro path rfl hbroken
    have hlayer := files.layer?_eq_none hbroken
    refine files.loadLayered_congr ?_ ?_
    · unfold layers
      exact List.filterMap_cons_none hlayer
    · unfold baseAlone
      rw [Option.bind_some, hlayer]
      rfl
  · rintro earlier last table path a rfl hread hleaf
    refine (files.merged_leaf base _ path a).mpr
      ⟨(base.toList ++ earlier).filterMap files.layer?, (last, table), [], ?_, hleaf, ?_⟩
    · unfold layers
      rw [← List.append_assoc, List.filterMap_append,
        List.filterMap_cons_some ((files.layer?_eq_some_iff last table).mpr hread),
        List.filterMap_nil]
    · intro l hl
      cases hl

/-- A table with the bitrate. -/
def bitrateTable (mbps : Nat) : Table String Nat :=
  Table.ofTables [("video", Table.ofLeaves [("bitrate_mbps", mbps)])]

/-- The base file, an override with a syntax error, and what the companion saved. -/
def installedFiles : ConfigFiles String String Nat Nat where
  readToString path :=
    if path = "default.toml" then .ok "[video]\nbitrate_mbps = 70\n"
    else if path = "dev-local.toml" then .ok "[video\nbitrate_mbps = 150\n"
    else if path = "user-local.toml" then .ok "[video]\nbitrate_mbps = 50\n"
    else .error .notFound
  parse text :=
    if text = "[video]\nbitrate_mbps = 70\n" then .ok (bitrateTable 70)
    else if text = "[video]\nbitrate_mbps = 50\n" then .ok (bitrateTable 50)
    else .error "TOML parse error"
  deserialize table :=
    match table.value.at? ["video", "bitrate_mbps"] with
    | some (.leaf mbps) => .ok mbps
    | _ => .error "invalid type"
  default := 80

/-- What the companion saved counts, and the broken override does not. -/
theorem load_layered_precedence_saved :
    let overlays := ["dev-local.toml", "user-local.toml"]
    (installedFiles.mergeLayers (some "default.toml") overlays).merged.value.nodeAt
        ["video", "bitrate_mbps"] = some (.leaf 50) ∧
      installedFiles.loadLayered (some "default.toml") overlays =
        (50, ["default.toml", "user-local.toml"]) := by
  intro overlays
  obtain ⟨-, -, hbroken, -, hlast, -⟩ :=
    installedFiles.load_layered_precedence (some "default.toml") overlays
  have hsaved : installedFiles.Holds "user-local.toml" (bitrateTable 50) :=
    ⟨"[video]\nbitrate_mbps = 50\n", rfl, rfl⟩
  refine ⟨hlast ["dev-local.toml"] _ _ _ _ rfl hsaved (by decide), ?_⟩
  rw [hbroken [] "dev-local.toml" ["user-local.toml"] rfl]
  · decide
  · rintro table ⟨text, hread, hparse⟩
    obtain rfl : "[video\nbitrate_mbps = 150\n" = text := Except.ok.inj hread
    exact absurd hparse (by simp [installedFiles])

end ConfigFiles
end Engine
end FocusVision
