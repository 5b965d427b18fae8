import Parlance.Folder
import Parlance.Settings.Basic
import Parlance.Settings.Path
import Parlance.Settings.Toml.Document
import Parlance.Decimal.Form
import Parlance.Text.Json
import Parlance.Text.Quoted

/-! Layers of settings. Sources are merged over the defaults in order, overrides over all sources,
and the result is read as settings. -/

namespace Parlance.Settings

inductive Source where
  | text (content : String)
  | file (path : String)
  | optionalFile (path : String)

structure Loader where
  sources : List Source
  overrides : List (Path × Value)

namespace Loader

def empty : Loader := ⟨[], []⟩

def addSource (loader : Loader) (source : Source) : Loader :=
  { loader with sources := loader.sources ++ [source] }

def override (loader : Loader) (key : String) (value : Value) : Except SettingsFault Loader :=
  match Path.parse? key with
  | none => .error .malformedKey
  | some path =>
      .ok { loader with
        overrides := loader.overrides.filter (fun entry => entry.1 != path) ++ [(path, value)] }

def groupOf (field : String) (value : Value) : Value := .table none [(field, value)]

def base : Value :=
  .table none [
    ("dialects", groupOf "type_precedence" (.text Settings.defaults.precedence.name)),
    ("writer", groupOf "indent_unit" (.text Settings.defaults.indentUnit))]

/-- A file is looked for under its name, then under its name with the usual extension. It comes with
its plain path, and without a byte order mark. -/
def findFile? (folder : Folder) (path : String) : Option (String × String) :=
  let find? (path : String) : Option (String × String) :=
    (folder.read? path).map fun content =>
      (plainPath path, String.ofList (Toml.dropMark content.toList))
  (find? path).or ((extendedPath? "toml" path).bind find?)

def parseSource (origin : Option String) (content : String) :
    Except SettingsFault (List (String × Value)) :=
  match Toml.parse? origin content with
  | some entries => .ok entries
  | none => .error .malformedSource

def Source.entries (folder : Folder) : Source → Except SettingsFault (List (String × Value))
  | .text content => parseSource none content
  | .file path =>
      match findFile? folder path with
      | some (origin, content) => parseSource (some origin) content
      | none => .error (.missingFile path)
  | .optionalFile path =>
      match findFile? folder path with
      | some (origin, content) => parseSource (some origin) content
      | none => .ok []

/-- Keys of a source may be paths; a key that is none is a name. -/
def mergeEntries (merged : Value) (entries : List (String × Value)) : Value :=
  entries.foldl (fun merged entry =>
    let path := (Path.parse? entry.1).getD [.name (Text.lowerCase entry.1)]
    Value.setAt entry.2 path (some merged)) merged

def merge (folder : Folder) (loader : Loader) : Except SettingsFault Value := do
  let sourced ← loader.sources.foldlM (fun merged source => do
    pure (mergeEntries merged (← Source.entries folder source))) base
  pure (loader.overrides.foldl (fun merged entry =>
    Value.setAt entry.2 entry.1 (some merged)) sourced)

/-- Floating-point numbers inside texts are always positional. -/
def scalarNumbers : Decimal.Form := ⟨-1000, 1000, "", "", "NaN", "inf"⟩

def describedNumbers : Decimal.Form := ⟨-1000, 1000, ".0", "", "NaN", "inf"⟩

def describe : Value → String
  | .nil => "unit value"
  | .bool value => "boolean `" ++ Text.jsonBool value ++ "`"
  | .integer value => "integer `" ++ toString value ++ "`"
  | .float value => "floating point `" ++ describedNumbers.write value ++ "`"
  | .text value => "string " ++ Text.quoted value
  | .list .. => "sequence"
  | .table .. => "map"

def readText (key : String) (value : Value) : Except SettingsFault String :=
  match value with
  | .text value => .ok value
  | .bool value => .ok (Text.jsonBool value)
  | .integer value => .ok (toString value)
  | .float value => .ok (scalarNumbers.write value)
  | .list origin _ | .table origin _ => .error (.notText (describe value) key origin)
  | .nil => .error (.notText (describe value) key none)

def precedenceOf (name : String) : Except SettingsFault Precedence :=
  let wanted := Text.lowerCase name
  if wanted = Precedence.parentWins.name then .ok .parentWins
  else if wanted = Precedence.childWins.name then .ok .childWins
  else .error (.unknownPrecedence name)

def readPrecedence : Value → Except SettingsFault Precedence
  | .text name => precedenceOf name
  | .table _ [(name, _)] => precedenceOf name
  | _ => .error .notPrecedence

/-- The only field of a group, with its key. A list stands for the fields in order. -/
def readGroup (name group field : String) (whole : Value) : Except SettingsFault (String × Value) :=
  match Index.get? name whole.entries with
  | none => .error (.missingField name)
  | some (.table _ entries) =>
      match Index.get? field entries with
      | none => .error (.missingField field)
      | some value => .ok (name ++ "." ++ field, value)
  | some (.list _ []) => .error (.emptyGroup group)
  | some (.list _ (first :: _)) => .ok (name ++ "[0]", first)
  | some other => .error (.notGroup (describe other) group)

def read (whole : Value) : Except SettingsFault Settings := do
  let (key, unit) ← readGroup "writer" "WriterConfig" "indent_unit" whole
  let indentUnit ← readText key unit
  let (_, precedence) ← readGroup "dialects" "DialectConfig" "type_precedence" whole
  pure ⟨indentUnit, ← readPrecedence precedence⟩

def build (folder : Folder) (loader : Loader) : Except SettingsFault Settings := do
  read (← loader.merge folder)

end Loader

end Parlance.Settings
