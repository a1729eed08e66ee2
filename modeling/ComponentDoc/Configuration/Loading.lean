import ComponentDoc.Configuration.Merging
import ComponentDoc.Notice
import ComponentDoc.Path

namespace ComponentDoc

/-- The format of configuration files. Not every text is written in it. A date, or a key that is no text, is
given by a text of its own. -/
class Configuration.Format where
  read (text : List Char) : Option JsonValue

inductive ConfigurationError
  | malformed
  | notMapping (path : String)
  deriving DecidableEq, Repr

namespace ConfigurationError

def message : ConfigurationError → String
  | malformed => ""
  | notMapping path => "Configuration file " ++ path ++ " must contain a mapping"

end ConfigurationError

namespace Configuration

def standard : Keyed String JsonValue :=
  [("options", .object
      [("include_source_locations", .bool false), ("dialect_version", .int 3),
        ("ignore_private", .bool false)]),
    ("output", .object [("indent", .int 2)]),
    ("ignore_keywords", .array [])]

def normalizeBreaks : List Char → List Char
  | [] => []
  | '\r' :: '\n' :: rest => '\n' :: normalizeBreaks rest
  | c :: rest => (if c = '\r' then '\n' else c) :: normalizeBreaks rest

def ofText [Format] (path : String) (text : String) : Except ConfigurationError (Keyed String JsonValue) :=
  match Format.read (normalizeBreaks text.toList) with
  | none => .error .malformed
  | some v =>
    if v.isTrue then
      match v with
      | .object update => .ok (merge standard update)
      | _ => .error (.notMapping (plainPath path))
    else .ok standard

def load [Format] (read : String → Option String) (path : Option String) :
    Except ConfigurationError (Keyed String JsonValue) × List Notice :=
  match path.filter (· ≠ "") with
  | none => (.ok standard, [])
  | some path =>
    match read path with
    | some text => (ofText path text, [])
    | none => (.ok standard, [.configurationMissing (plainPath path)])

end Configuration

end ComponentDoc
