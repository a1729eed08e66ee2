import ComponentDoc.Number.Reading
import ComponentDoc.Text.Search

/-!
The arguments of the command: one file, and options. The name of an option may be cut short as long
as it fits only one, and its value may follow an equals sign. After two dashes all words are plain.
-/

namespace ComponentDoc

structure Arguments where
  file : String
  config : Option String
  dialect : Option Int
  includeLocations : Bool
  ignorePrivate : Bool
  out : Option String
  verbose : Bool
  deriving DecidableEq, Repr

namespace Arguments

open Text

inductive Switch
  | help
  | config
  | dialect
  | includeLocations
  | ignorePrivate
  | out
  | verbose
  deriving DecidableEq, Repr

namespace Switch

def all : List Switch :=
  [help, config, dialect, includeLocations, ignorePrivate, out, verbose]

def name : Switch → String
  | help => "--help"
  | config => "--config"
  | dialect => "--dialect"
  | includeLocations => "--include-locations"
  | ignorePrivate => "--ignore-private"
  | out => "--out"
  | verbose => "--verbose"

def takesValue : Switch → Bool
  | config | dialect | out => true
  | _ => false

end Switch

inductive Stop
  | help
  | misuse
  deriving DecidableEq, Repr

inductive Word
  | plain (text : String)
  | dashes
  | switch (s : Switch) (value : Option String)
  /-- It looks like a switch, and there is none of that name. -/
  | unknown
  deriving DecidableEq, Repr

def splitValue (word : List Char) : List Char × Option String :=
  match cutAt '=' word with
  | (name, some value) => (name, some (String.ofList value))
  | (_, none) => (word, none)

def shortHelp? (word : List Char) : Option Word :=
  match word with
  | '-' :: 'h' :: rest =>
    if rest.all (· == 'h') then some (.switch .help none) else some (.switch .help (some ""))
  | _ => none

def completions (name : List Char) : List Switch :=
  Switch.all.filter fun s => name.isPrefixOf s.name.toList

def isNegativeNumber (word : List Char) : Bool :=
  match word with
  | '-' :: rest =>
    match rest.dropWhile isDigit with
    | [] => !rest.isEmpty
    | '.' :: fraction => !fraction.isEmpty && fraction.all isDigit
    | _ => false
  | _ => false

def classify (text : String) : Except Stop Word :=
  let word := text.toList
  let plainOrUnknown : Word :=
    if isNegativeNumber word || word.contains ' ' then .plain text else .unknown
  match word with
  | '-' :: '-' :: _ =>
    let (name, value) := splitValue word
    match Switch.all.find? fun s => s.name.toList = name with
    | some s => .ok (.switch s value)
    | none =>
      match completions name with
      | [] => .ok plainOrUnknown
      | [s] => .ok (.switch s value)
      | _ => .error .misuse
  | '-' :: _ :: _ => .ok ((shortHelp? word).getD plainOrUnknown)
  | _ => .ok (.plain text)

def classifyAll : List String → Except Stop (List Word)
  | [] => .ok []
  | "--" :: rest => .ok (.dashes :: rest.map .plain)
  | text :: rest => do
    let word ← classify text
    return word :: (← classifyAll rest)

/-- The arguments read so far; `extra` tells that a word had no use. -/
structure Draft where
  file : Option String
  extra : Bool
  arguments : Arguments

namespace Draft

def start : Draft := ⟨none, false, ⟨"", none, none, false, false, none, false⟩⟩

def setFlag (d : Draft) (s : Switch) : Except Stop Draft :=
  let a := d.arguments
  match s with
  | .help => .error .help
  | .includeLocations => .ok { d with arguments := { a with includeLocations := true } }
  | .ignorePrivate => .ok { d with arguments := { a with ignorePrivate := true } }
  | .verbose => .ok { d with arguments := { a with verbose := true } }
  | .config | .dialect | .out => .ok d

def setValue (d : Draft) (s : Switch) (value : String) : Except Stop Draft :=
  let a := d.arguments
  match s with
  | .config => .ok { d with arguments := { a with config := some value } }
  | .out => .ok { d with arguments := { a with out := some value } }
  | .dialect =>
    match readInteger 10 value.toList with
    | .ok n =>
      if n = 2 ∨ n = 3 then .ok { d with arguments := { a with dialect := some n } }
      else .error .misuse
    | .error _ => .error .misuse
  | _ => .error .misuse

def finish (d : Draft) : Except Stop Arguments :=
  match d.file with
  | some file => if d.extra then .error .misuse else .ok { d.arguments with file := file }
  | none => .error .misuse

end Draft

def collect (d : Draft) : List Word → Except Stop Draft
  | [] => .ok d
  | .switch s (some value) :: rest => do collect (← d.setValue s value) rest
  | .switch s none :: rest =>
    if s.takesValue then
      match rest with
      | .plain value :: rest => do collect (← d.setValue s value) rest
      | _ => .error .misuse
    else do collect (← d.setFlag s) rest
  | .unknown :: rest => collect { d with extra := true } rest
  | .plain text :: .dashes :: rest =>
    match d.file with
    | none => collect { d with file := some text } rest
    | some _ => collect { d with extra := true } rest
  | .plain text :: rest =>
    match d.file with
    | none => collect { d with file := some text } rest
    | some _ => collect { d with extra := true } rest
  | .dashes :: rest =>
    match d.file, rest with
    | none, .plain _ :: _ => collect d rest
    | _, _ => collect { d with extra := true } rest

def parse (words : List String) : Except Stop Arguments := do
  (← collect .start (← classifyAll words)).finish

end Arguments

end ComponentDoc
