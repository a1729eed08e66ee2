import ComponentDoc.Keyed
import ComponentDoc.Text.Blank
import ComponentDoc.Text.Lowercase
import ComponentDoc.Text.Search

/-!
The attribute list of a script or style tag: names with an optional value, quoted or not. A later
entry for a name replaces the value of an earlier one.
-/

namespace ComponentDoc.Document

open Text

abbrev TagAttributes := Keyed String String

def isNameChar (c : Char) : Bool := !(isBlank c || c ∈ ['=', '/', '>'])

def isBareValueChar (c : Char) : Bool := !(isBlank c || c == '>')

/-- The text up to the closing quote, with both quotes, if `text` starts with a closed quotation. -/
def quotation? (quote : Char) (text : List Char) : Option (List Char) :=
  match text with
  | [] => none
  | c :: rest =>
    if c = quote then
      match cutAt quote rest with
      | (inside, some _) => some (quote :: inside ++ [quote])
      | (_, none) => none
    else none

def writtenValue? (text : List Char) : Option (List Char) :=
  match quotation? '"' text with
  | some v => some v
  | none =>
    match quotation? '\'' text with
    | some v => some v
    | none =>
      match text.takeWhile isBareValueChar with
      | [] => none
      | v => some v

/-- The equals sign and the written value that may follow a name: the value, and the number of
characters up to its end. -/
def assignment? (text : List Char) : Option (List Char × Nat) :=
  match trimStart text with
  | '=' :: after =>
    match writtenValue? (trimStart after) with
    | some v =>
      some (v, (text.takeWhile isBlank).length + 1 + (after.takeWhile isBlank).length + v.length)
    | none => none
  | _ => none

/-- A written value without its quotes; a value that only starts with a quote loses its ends too. -/
def unquote : List Char → List Char
  | [] => []
  | c :: rest => if c = '"' ∨ c = '\'' then rest.dropLast else c :: rest

/-- Collects the entries. The number counts the characters of an entry that are still to be stepped
over. -/
def collect (found : TagAttributes) : Nat → List Char → TagAttributes
  | _, [] => found
  | k + 1, _ :: rest => collect found k rest
  | 0, c :: rest =>
    if isNameChar c then
      let name := c :: rest.takeWhile isNameChar
      let label := String.ofList (lower name)
      match assignment? (rest.drop (name.length - 1)) with
      | some (v, length) =>
        collect (found.set label (String.ofList (unquote v))) (name.length - 1 + length) rest
      | none => collect (found.set label "") (name.length - 1) rest
    else collect found 0 rest

def parseTagAttributes (text : List Char) : TagAttributes := collect [] 0 text

end ComponentDoc.Document
