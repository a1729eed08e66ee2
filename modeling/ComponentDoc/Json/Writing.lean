import ComponentDoc.Json.Basic
import ComponentDoc.Number.Reading
import ComponentDoc.Number.Shortest
import ComponentDoc.Text.Quoted

/-!
Plain data written as JSON, on one line or indented. Strings are written in ASCII: other characters
are escaped by their UTF-16 units. A whole number is not written if it has too many digits.
-/

namespace ComponentDoc

namespace JsonValue

open Text

def units (p : Nat) : List Nat :=
  if p < 0x10000 then [p]
  else [0xD800 + (p - 0x10000) / 0x400, 0xDC00 + (p - 0x10000) % 0x400]

def escapedPoint (p : Nat) : List Char :=
  if p = 0x22 then ['\\', '"']
  else if p = 0x5C then ['\\', '\\']
  else if p = 0x0A then ['\\', 'n']
  else if p = 0x0D then ['\\', 'r']
  else if p = 0x09 then ['\\', 't']
  else if p = 0x08 then ['\\', 'b']
  else if p = 0x0C then ['\\', 'f']
  else if 0x20 ≤ p ∧ p < 0x7F then [Char.ofNat p]
  else (units p).flatMap fun u => '\\' :: 'u' :: hexDigits 4 u

def quotedText (t : CodeText) : String :=
  String.ofList ('"' :: t.points.flatMap escapedPoint ++ ['"'])

def doubleText : Double → String
  | .infinite negative => if negative then "-Infinity" else "Infinity"
  | .nan => "NaN"
  | x => x.text

def scalarText : Literal → String
  | .null => "null"
  | .bool b => if b then "true" else "false"
  | .int n => toString n
  | .double x => doubleText x
  | .text t => quotedText t

/-- How members are laid out: on one line, or each on a line of its own that is indented by a text
for every level. -/
inductive Layout
  | line
  | indented (unit : CodeText)
  deriving DecidableEq, Repr

namespace Layout

def lineBreak (level : Nat) : Layout → CodeText
  | line => ""
  | indented unit => ("\n" : CodeText) ++ .concat (List.replicate level unit)

def separator (level : Nat) (layout : Layout) : CodeText :=
  match layout with
  | line => ", "
  | indented _ => ("," : CodeText) ++ layout.lineBreak level

def enclose (layout : Layout) (level : Nat) (opening closing : String) (written : List CodeText) :
    CodeText :=
  if written.isEmpty then opening ++ closing
  else
    (opening : CodeText) ++ layout.lineBreak (level + 1) ++
      .concat (written.intersperse (layout.separator (level + 1))) ++
      layout.lineBreak level ++ (closing : CodeText)

end Layout

mutual

def write (layout : Layout) (level : Nat) : JsonValue → CodeText
  | scalar v => scalarText v
  | array items => layout.enclose level "[" "]" (writeItems layout (level + 1) items)
  | object members =>
    layout.enclose level "\x7b" "\x7d" (writeMembers layout (level + 1) members)

def writeItems (layout : Layout) (level : Nat) : List JsonValue → List CodeText
  | [] => []
  | v :: rest => write layout level v :: writeItems layout level rest

def writeMembers (layout : Layout) (level : Nat) : List (String × JsonValue) → List CodeText
  | [] => []
  | (name, v) :: rest =>
    ((quotedText name ++ ": " : CodeText) ++ write layout level v) ::
      writeMembers layout level rest

end

def scalarIsWritable : Literal → Bool
  | .int n => (Nat.toDigits 10 n.natAbs).length ≤ maxDigits
  | _ => true

mutual

/-- No whole number in the value has too many digits. -/
def isWritable : JsonValue → Bool
  | scalar v => scalarIsWritable v
  | array items => allWritable items
  | object members => membersWritable members

def allWritable : List JsonValue → Bool
  | [] => true
  | v :: rest => isWritable v && allWritable rest

def membersWritable : List (String × JsonValue) → Bool
  | [] => true
  | (_, v) :: rest => isWritable v && membersWritable rest

end

end JsonValue

end ComponentDoc
