import FocusVision.Lib.FloatConvert
import FocusVision.Lib.NestedTable
import Mathlib.Data.String.Basic

/-!
# The companion's local.toml

`LocalConfig` of the companion's `config.rs`: the sections it manages, how they are
written as a table and read from one, and the operations on a file, where each call can
fail.  A call that fails to write leaves anything in the file it writes to; renaming is
atomic.

The TOML crate's parser and printer are parameters, and so is how an array is read as a
struct.  The log, the search for the file's path and the legacy file are left out.
-/

namespace FocusVision
namespace Companion

open NestedTable

/-! ### TOML -/

/-- A value that is not a table.  `Ω` is the type of the arrays and dates. -/
inductive Leaf (Ω : Type) where
  | string (s : String)
  | integer (n : Int)
  | float (x : F64)
  | boolean (b : Bool)
  | other (o : Ω)
deriving DecidableEq

variable {Ω Text : Type}

abbrev TomlTable (Ω : Type) : Type :=
  Table String (Leaf Ω)

/-- The TOML crate: `str::parse`, `to_string_pretty`, and the table that an array stands
for where a struct with the given fields is read. -/
structure Toml (Ω Text : Type) where
  parse : Text → Except String (TomlTable Ω)
  toStringPretty : TomlTable Ω → Except String Text
  byPosition : List String → Leaf Ω → Option (TomlTable Ω)

def readString : Value String (Leaf Ω) → Option String
  | .leaf (.string s) => some s
  | _ => none

def readBool : Value String (Leaf Ω) → Option Bool
  | .leaf (.boolean b) => some b
  | _ => none

/-- A `u32`. -/
def readU32 : Value String (Leaf Ω) → Option UInt32
  | .leaf (.integer n) =>
      if 0 ≤ n ∧ n < 2 ^ 32 then some (UInt32.ofNat n.toNat) else none
  | _ => none

/-- An `f32`, which may be written as an integer. -/
def readF32 : Value String (Leaf Ω) → Option F32
  | .leaf (.float x) => some (x.convert ⟨23, 8⟩)
  | .leaf (.integer n) => some (Flt.ofInt n)
  | _ => none

/-- A field with `#[serde(default)]`. -/
def readField {T : Type} (entries : Entries String (Leaf Ω)) (key : String) (default : T)
    (read : Value String (Leaf Ω) → Option T) : Option T :=
  match entries.lookup key with
  | none => some default
  | some value => read value

/-- A struct with one field. -/
def readOne {A T : Type} (key : String) (default : A) (read : Value String (Leaf Ω) → Option A)
    (make : A → T) (entries : Entries String (Leaf Ω)) : Option T :=
  (readField entries key default read).map make

/-- A struct with two fields. -/
def readTwo {A B T : Type} (key₁ : String) (default₁ : A)
    (read₁ : Value String (Leaf Ω) → Option A) (key₂ : String) (default₂ : B)
    (read₂ : Value String (Leaf Ω) → Option B) (make : A → B → T)
    (entries : Entries String (Leaf Ω)) : Option T := do
  let a ← readField entries key₁ default₁ read₁
  let b ← readField entries key₂ default₂ read₂
  pure (make a b)

/-! ### The sections -/

structure VideoOverride where
  codec : String := "h265"
deriving DecidableEq

structure SleepModeOverride where
  enabled : Bool := true
  timeout_seconds : UInt32 := 300
deriving DecidableEq

structure FaceTrackingOverride where
  enabled : Bool := true
  smoothing : F32 := f32 6 10
deriving DecidableEq

structure RecordingOverride where
  enabled : Bool := false
  output_dir : String := ""
deriving DecidableEq

structure AudioOverride where
  enabled : Bool := true
  bitrate_kbps : UInt32 := 128
deriving DecidableEq

structure DeployOverride where
  apk_path : String := ""
deriving DecidableEq

structure LocalConfig where
  video : VideoOverride := {}
  sleep_mode : SleepModeOverride := {}
  face_tracking : FaceTrackingOverride := {}
  recording : RecordingOverride := {}
  audio : AudioOverride := {}
  deploy : DeployOverride := {}
deriving DecidableEq

section Deserialize

variable (entries : Entries String (Leaf Ω))

def VideoOverride.deserialize : Option VideoOverride :=
  readOne "codec" "h265" readString VideoOverride.mk entries

def SleepModeOverride.deserialize : Option SleepModeOverride :=
  readTwo "enabled" true readBool "timeout_seconds" 300 readU32 SleepModeOverride.mk entries

def FaceTrackingOverride.deserialize : Option FaceTrackingOverride :=
  readTwo "enabled" true readBool "smoothing" (f32 6 10) readF32 FaceTrackingOverride.mk entries

def RecordingOverride.deserialize : Option RecordingOverride :=
  readTwo "enabled" false readBool "output_dir" "" readString RecordingOverride.mk entries

def AudioOverride.deserialize : Option AudioOverride :=
  readTwo "enabled" true readBool "bitrate_kbps" 128 readU32 AudioOverride.mk entries

def DeployOverride.deserialize : Option DeployOverride :=
  readOne "apk_path" "" readString DeployOverride.mk entries

end Deserialize

/-- The sections of local.toml the companion manages. -/
def SECTIONS : List String :=
  ["video", "sleep_mode", "face_tracking", "recording", "audio", "deploy"]

namespace LocalConfig

/-- The fields as `Serialize` visits them; an `f32` becomes an `f64`. -/
def sections (config : LocalConfig) : List (String × List (String × Leaf Ω)) :=
  [("video", [("codec", .string config.video.codec)]),
    ("sleep_mode",
      [("enabled", .boolean config.sleep_mode.enabled),
        ("timeout_seconds", .integer config.sleep_mode.timeout_seconds.toNat)]),
    ("face_tracking",
      [("enabled", .boolean config.face_tracking.enabled),
        ("smoothing", .float (config.face_tracking.smoothing.convert ⟨52, 11⟩))]),
    ("recording",
      [("enabled", .boolean config.recording.enabled),
        ("output_dir", .string config.recording.output_dir)]),
    ("audio",
      [("enabled", .boolean config.audio.enabled),
        ("bitrate_kbps", .integer config.audio.bitrate_kbps.toNat)]),
    ("deploy", [("apk_path", .string config.deploy.apk_path)])]

/-- `toml::Table::try_from`, which no field of a `LocalConfig` fails. -/
def toTable (config : LocalConfig) : TomlTable Ω :=
  Table.ofTables (config.sections.map fun (name, fields) => (name, Table.ofLeaves fields))

/-- A section with `#[serde(default)]`, whose struct has these fields. -/
def readSection {T : Type} (toml : Toml Ω Text) (table : TomlTable Ω) (key : String)
    (fields : List String) (default : T) (read : Entries String (Leaf Ω) → Option T) : Option T :=
  match table.lookup key with
  | none => some default
  | some (.table entries) => read entries
  | some (.leaf a) => (toml.byPosition fields a).bind fun table => read table.entries

/-- `Deserialize`; keys that are not known are ignored. -/
def deserialize (toml : Toml Ω Text) (table : TomlTable Ω) : Option LocalConfig := do
  let video ← readSection toml table "video" ["codec"] {} VideoOverride.deserialize
  let sleep_mode ← readSection toml table "sleep_mode" ["enabled", "timeout_seconds"] {}
    SleepModeOverride.deserialize
  let face_tracking ← readSection toml table "face_tracking" ["enabled", "smoothing"] {}
    FaceTrackingOverride.deserialize
  let recording ← readSection toml table "recording" ["enabled", "output_dir"] {}
    RecordingOverride.deserialize
  let audio ← readSection toml table "audio" ["enabled", "bitrate_kbps"] {}
    AudioOverride.deserialize
  let deploy ← readSection toml table "deploy" ["apk_path"] {} DeployOverride.deserialize
  pure { video, sleep_mode, face_tracking, recording, audio, deploy }

end LocalConfig

/-! ### Files -/

/-- A path: its parent and its file name. -/
structure FilePath where
  parent : String
  fileName : List Char
deriving DecidableEq

/-- `file_stem`: the name up to its last dot, unless the name starts with that dot. -/
def fileStem (name : List Char) : List Char :=
  match name.reverse.dropWhile (· != '.') with
  | [] => name
  | _ :: before => if before = [] then name else before.reverse

/-- `with_extension`. -/
def FilePath.withExtension (path : FilePath) (extension : List Char) : FilePath :=
  { path with fileName := fileStem path.fileName ++ '.' :: extension }

def TOML_BAK : List Char := ['t', 'o', 'm', 'l', '.', 'b', 'a', 'k']
def TOML_TMP : List Char := ['t', 'o', 'm', 'l', '.', 't', 'm', 'p']

/-- The texts of the files. -/
abbrev Disk (Text : Type) : Type :=
  FilePath → Option Text

def Disk.set (disk : Disk Text) (path : FilePath) (text : Option Text) : Disk Text :=
  fun p => if p = path then text else disk p

/-- The calls of one operation that fail, with their errors and, for a call that writes,
with what it leaves in the file.  A missing file is not among them. -/
structure Failures (Text : Type) where
  read : Option String := none
  copy : Option (String × Option Text) := none
  createDirAll : Option String := none
  write : Option (String × Option Text) := none
  rename : Option String := none
  removeFile : Bool := false

/-- The error texts: the path is printed before or inside the first two. -/
inductive SaveError where
  /-- `cannot read existing {path}: {error}` -/
  | cannotRead (path : FilePath) (error : String)
  /-- `{path} is not valid TOML ({error}) and could not be backed up: {copyError}` -/
  | notBackedUp (path : FilePath) (error copyError : String)
  | call (error : String)
deriving DecidableEq

/-- An operation on the files, which keeps what it has done when it fails. -/
abbrev FileOp (Text α : Type) : Type :=
  EStateM SaveError (Disk Text) α

section Operations

variable (toml : Toml Ω Text) (failures : Failures Text)

/-- `read_table`. -/
def readTable (path : FilePath) : FileOp Text (TomlTable Ω) := do
  match failures.read with
  | some error => throw (.cannotRead path error)
  | none =>
      match (← get) path with
      | none => pure Table.empty
      | some existing =>
          match toml.parse existing with
          | .ok table => pure table
          | .error error => do
              let backup := path.withExtension TOML_BAK
              match failures.copy with
              | some (copyError, left) => do
                  modify (·.set backup left)
                  throw (.notBackedUp path error copyError)
              | none => do
                  modify (·.set backup (some existing))
                  pure Table.empty

/-- `write_atomic`. -/
def writeAtomic (path : FilePath) (content : Text) : FileOp Text Unit := do
  let tmp := path.withExtension TOML_TMP
  match failures.write with
  | some (error, left) => do
      modify (·.set tmp left)
      throw (.call error)
  | none => do
      modify (·.set tmp (some content))
      match failures.rename with
      | none => modify fun disk => (disk.set path (disk tmp)).set tmp none
      | some error => do
          if failures.removeFile then pure () else modify (·.set tmp none)
          throw (.call error)

/-- `write_table`. -/
def writeTable (path : FilePath) (table : TomlTable Ω) : FileOp Text Unit := do
  match failures.createDirAll with
  | some error => throw (.call error)
  | none =>
      match toml.toStringPretty table with
      | .error error => throw (.call error)
      | .ok content => writeAtomic failures path content

/-- `merge_tables`. -/
def mergeTables (base overlay : TomlTable Ω) : TomlTable Ω :=
  base.overlay overlay

/-- `LocalConfig::save_to`. -/
def LocalConfig.saveTo (config : LocalConfig) (path : FilePath) (sections : List String) :
    FileOp Text Unit := do
  let merged ← readTable toml failures path
  let ours := config.toTable.retain fun name => sections.contains name
  writeTable toml failures path (mergeTables merged ours)

end Operations

/-- `remove` for each of the keys. -/
def removeAll (existing : Entries String (Leaf Ω)) (keys : List String) :
    Entries String (Leaf Ω) :=
  keys.foldl (fun entries key => remove key entries) existing

/-- A section in the loop of `clear_from`: its keys go, and the section if it is then
empty. -/
def clearSection (table : Entries String (Leaf Ω)) (managed : String × Value String (Leaf Ω)) :
    Entries String (Leaf Ω) :=
  match managed.2 with
  | .leaf _ => table
  | .table ours =>
      match table.lookup managed.1 with
      | some (.table existing) =>
          let left := removeAll existing (ours.map Prod.fst)
          if left.isEmpty then remove managed.1 table
          else insert managed.1 (.table left) table
      | _ => table

theorem sorted_removeAll
    {entries : Entries String (Leaf Ω)} (keys : List String) (h : Sorted entries) :
    Sorted (removeAll entries keys) := by
  induction keys generalizing entries with
  | nil =>
      exact h
  | cons key keys ih =>
      exact ih (sorted_retain _ h)

theorem sorted_clearSection
    {table : Entries String (Leaf Ω)} (managed : String × Value String (Leaf Ω))
    (h : Sorted table) :
    Sorted (clearSection table managed) := by
  unfold clearSection
  split
  · exact h
  · split
    · next existing hlookup =>
        have hexisting : Sorted existing := lookup_sorted h hlookup
        dsimp only
        split_ifs
        · exact sorted_retain _ h
        · exact sorted_insert (sorted_removeAll _ hexisting) h
    · exact h

theorem sorted_clearSections
    {table : Entries String (Leaf Ω)} (managed : Entries String (Leaf Ω)) (h : Sorted table) :
    Sorted (managed.foldl clearSection table) := by
  induction managed generalizing table with
  | nil =>
      exact h
  | cons entry managed ih =>
      exact ih (sorted_clearSection entry h)

/-- The loop of `clear_from`. -/
def clearManaged (table managed : TomlTable Ω) : TomlTable Ω :=
  ⟨managed.entries.foldl clearSection table.entries,
    sorted_clearSections managed.entries table.sorted⟩

section Operations

variable (toml : Toml Ω Text) (failures : Failures Text)

/-- `clear_from`. -/
def clearFrom (path : FilePath) : FileOp Text Unit := do
  let table ← readTable toml failures path
  let managed := LocalConfig.toTable {}
  writeTable toml failures path (clearManaged table managed)

/-- `LocalConfig::load_from`. -/
def LocalConfig.loadFrom (path : FilePath) (disk : Disk Text) : LocalConfig :=
  match failures.read with
  | some _ => {}
  | none =>
      match disk path with
      | none => {}
      | some content => ((toml.parse content).toOption.bind (deserialize toml)).getD {}

end Operations
end Companion
end FocusVision
