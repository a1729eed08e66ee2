import ComponentDoc.Dialect
import ComponentDoc.Documentation.Item
import ComponentDoc.Json.Display
import ComponentDoc.Number.Reading

namespace ComponentDoc

inductive FileName
  | absent
  | given (name : String)
  | unusable
  deriving DecidableEq, Repr

structure Options where
  includeLocations : Bool
  dialect : Dialect
  version : Version
  hidePrivate : Bool
  hiddenKeywords : List CodeText
  fileName : FileName

namespace Options

def standard : Options := ⟨false, .v3, .whole 3, false, [], .absent⟩

end Options

inductive SettingsError
  | unsupportedDialect (version : JsonValue)
  | notInteger (error : LiteralError)
  | notANumber
  | infiniteNumber
  /-- A value of another kind than the setting takes, or a setting that does not exist. -/
  | wrongKind
  | noSection

namespace SettingsError

def message : SettingsError → String
  | unsupportedDialect version =>
    "Unsupported dialect version " ++ version.display ++ "; expected one of (2, 3)"
  | notInteger e => e.message
  | notANumber => "cannot convert float NaN to integer"
  | infiniteNumber => "cannot convert float infinity to integer"
  | wrongKind | noSection => ""

end SettingsError

/-- Settings as they were given; `keywords` are the members of the list of ignored keywords. -/
structure Settings where
  includeLocations : JsonValue
  dialectVersion : JsonValue
  ignorePrivate : JsonValue
  keywords : List JsonValue
  fileName : JsonValue

namespace Settings

/-- The members of a value that is a list, the keys of one that is a mapping, and the characters of
one that is a text. -/
def membersOf : JsonValue → Except SettingsError (List JsonValue)
  | .array items => .ok items
  | .object members => .ok (members.map fun m => .string m.1)
  | .scalar (.text t) => .ok (t.points.map fun p => .text ⟨[p]⟩)
  | .scalar _ => .error .wrongKind

def dialect? : JsonValue → Option (Dialect × Version)
  | .scalar (.int n) =>
    if n = 2 then some (.v2, .whole 2) else if n = 3 then some (.v3, .whole 3) else none
  | .scalar (.double x) =>
    if x.isInt 2 then some (.v2, .decimal x)
    else if x.isInt 3 then some (.v3, .decimal x) else none
  | _ => none

def toInteger : JsonValue → Except SettingsError Int
  | .scalar (.int n) => .ok n
  | .scalar (.bool b) => .ok (if b then 1 else 0)
  | .scalar (.double x) =>
    match x.truncate? with
    | some n => .ok n
    | none => .error (if x = .nan then .notANumber else .infiniteNumber)
  | .scalar (.text t) => (readInteger 10 t.chars).mapError .notInteger
  | _ => .error .wrongKind

def names : List String :=
  ["include_source_locations", "dialect_version", "ignore_private", "ignore_keywords", "file_name"]

def ofValues (values : Keyed String JsonValue) : Except SettingsError Settings := do
  let value (name : String) (standard : JsonValue) : JsonValue := (values.get? name).getD standard
  if values.any fun v => v.1 ∉ names then throw .wrongKind
  let version := value "dialect_version" (.int 3)
  if (dialect? version).isNone then throw (.unsupportedDialect version)
  return {
    includeLocations := value "include_source_locations" (.bool false)
    dialectVersion := version
    ignorePrivate := value "ignore_private" (.bool false)
    keywords := ← membersOf (value "ignore_keywords" (.array []))
    fileName := value "file_name" .null }

def orNothing (value : Option JsonValue) : Option JsonValue := value.filter JsonValue.isTrue

def configured (config : Keyed String JsonValue) :
    Except SettingsError (Keyed String JsonValue) := do
  let options ← match orNothing (config.get? "options") with
    | none => pure []
    | some (.object members) => pure members
    | some _ => throw .noSection
  let flag (name : String) : JsonValue := .bool (orNothing (Keyed.get? name options)).isSome
  let version ← toInteger ((Keyed.get? "dialect_version" options).getD (.int 3))
  let keywords ← match orNothing (config.get? "ignore_keywords") with
    | none => pure []
    | some v => membersOf v
  return [("include_source_locations", flag "include_source_locations"),
    ("dialect_version", .int version), ("ignore_private", flag "ignore_private"),
    ("ignore_keywords", .array keywords)]

def ofConfiguration (config overrides : Keyed String JsonValue) :
    Except SettingsError Settings := do
  let given := overrides.filter fun o =>
    match o.2 with
    | .scalar .null => false
    | _ => true
  ofValues (given.foldl (fun values o => Keyed.set o.1 o.2 values) (← configured config))

def toOptions (s : Settings) : Options :=
  let (dialect, version) := (dialect? s.dialectVersion).getD (.v3, .whole 3)
  { includeLocations := s.includeLocations.isTrue
    dialect := dialect
    version := version
    hidePrivate := s.ignorePrivate.isTrue
    hiddenKeywords := s.keywords.filterMap fun
      | .scalar (.text t) => some t
      | _ => none
    fileName :=
      match s.fileName with
      | .scalar (.text t) => if t.isEmpty then .absent else .given (String.ofList t.chars)
      | v => if v.isTrue then .unusable else .absent }

end Settings

end ComponentDoc
