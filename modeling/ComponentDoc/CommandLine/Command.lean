import ComponentDoc.CommandLine.Arguments
import ComponentDoc.Configuration.Loading
import ComponentDoc.Documentation.Rendering
import ComponentDoc.Extraction
import ComponentDoc.Json.Writing

namespace ComponentDoc

inductive CommandError
  | configuration (error : ConfigurationError)
  | settings (error : SettingsError)
  | extraction (failure : Failure)
  /-- The layout of the output is no mapping or gives no indentation. -/
  | wrongLayout
  /-- A whole number in the documentation has too many digits to be written. -/
  | longNumber

namespace CommandError

def message : CommandError → String
  | configuration e => e.message
  | settings e => e.message
  | longNumber =>
    "Exceeds the limit (4300 digits) for integer string conversion; " ++
      "use sys.set_int_max_str_digits() to increase the limit"
  | extraction _ | wrongLayout => ""

end CommandError

inductive Ending
  | code (n : Nat)
  | exit (text : String)
  | broken (error : CommandError)

structure Outcome where
  ending : Ending
  output : CodeText
  errors : CodeText
  /-- The file that is written, with its text. -/
  written : Option (String × CodeText)

namespace Command

open JsonValue

def line (n : Notice) : CodeText :=
  (n.level.name ++ " sveltedoc." ++ n.origin ++ ": " : CodeText) ++ n.message ++ "\n"

def report (a : Arguments) (notices : List Notice) : CodeText :=
  .concat ((notices.filter fun n => a.verbose || NoticeLevel.warning.rank ≤ n.level.rank).map line)

def layout? : JsonValue → Option Layout
  | .scalar .null => some .line
  | .scalar (.int n) => some (.indented (.ofChars (List.replicate n.toNat ' ')))
  | .scalar (.bool b) => some (.indented (if b then " " else ""))
  | .scalar (.text t) => some (.indented t)
  | _ => none

def layoutOf (config : Keyed String JsonValue) : Option Layout := do
  let output ← config.get? "output"
  layout? (← Keyed.get? "indent" (← output.members?))

def overrides (a : Arguments) : Keyed String JsonValue :=
  let flag (b : Bool) : JsonValue := if b then .bool true else .null
  [("dialect_version", a.dialect.elim .null .int),
    ("include_source_locations", flag a.includeLocations),
    ("ignore_private", flag a.ignorePrivate),
    ("file_name", .string (String.ofList (fileName a.file.toList)))]

def renderSpans (spans : List Span) : JsonValue := .array (spans.map Span.render)

/-- A failure that is reported as data, with its message; other failures break the command off. -/
def report? : Failure → Option (CodeText × JsonValue)
  | .malformed e =>
    some (e.cause.message, .object
      [("kind", .string "ParseError"), ("message", .string e.cause.message),
        ("locations", renderSpans [e.span])])
  | .duplicate d =>
    some (d.message, .object
      [("kind", .string "DuplicateNameError"), ("message", .text d.message),
        ("locations", renderSpans d.locs), ("category", .string d.category),
        ("name", .text d.name)])
  | _ => none

def writtenLine (layout : Layout) (v : JsonValue) : CodeText := v.write layout 0 ++ "\n"

def finish (a : Arguments) (config : Keyed String JsonValue) (notices : List Notice)
    (e : Extraction) (doc : Documentation) : Outcome :=
  let notices := notices ++ e.notices ++
    e.unresolved.map fun u => .typeUnresolvedIn u.message
  match layoutOf config with
  | none => ⟨.broken .wrongLayout, "", report a notices, none⟩
  | some layout =>
    if doc.render.isWritable then
      let text := writtenLine layout doc.render
      match a.out.map plainPath with
      | some out =>
        ⟨.code 0, "", report a (notices ++ [.written (plainPath a.file) out]), some (out, text)⟩
      | none => ⟨.code 0, text, report a notices, none⟩
    else ⟨.broken .longNumber, "", report a notices, none⟩

def giveUp (a : Arguments) (notices : List Notice) (e : Extraction) (f : Failure) : Outcome :=
  let notices := notices ++ e.notices
  match report? f with
  | some (message, v) =>
    let shown := report a (notices ++ [.extractionFailed (plainPath a.file) message])
    ⟨.code 1, "", shown ++ writtenLine (.indented "  ") v, none⟩
  | none => ⟨.broken (.extraction f), "", report a notices, none⟩

/-- Documents the component in a file, where `read` gives the texts of files. -/
def run [Script.Reader] [Configuration.Format] (read : String → Option String) (a : Arguments) : Outcome :=
  let (config, notices) := Configuration.load read a.config
  let shown := report a notices
  match config with
  | .error (.notMapping path) =>
    ⟨.exit (ConfigurationError.message (.notMapping path)), "", shown, none⟩
  | .error e => ⟨.broken (.configuration e), "", shown, none⟩
  | .ok config =>
    match read a.file with
    | none => ⟨.exit ("No such file: " ++ plainPath a.file), "", shown, none⟩
    | some text =>
      match Settings.ofConfiguration config (overrides a) with
      | .error e => ⟨.broken (.settings e), "", shown, none⟩
      | .ok settings =>
        let e := extract settings.toOptions (Configuration.normalizeBreaks text.toList)
        match e.result with
        | .ok doc => finish a config notices e doc
        | .error f => giveUp a notices e f

end Command

end ComponentDoc
