import ComponentDoc.Markup.Expression
import ComponentDoc.Text.Blank
import ComponentDoc.Text.Search
import ComponentDoc.Text.Word

/-!
Attributes and directives of start tags. The attributes of a tag are read one after another; every
text in an attribute is the slice of the document at its offset.
-/

namespace ComponentDoc.Markup

open Text

inductive AttributeContent
  | bare
  /-- A value of plain text, quoted or not, and where it starts. -/
  | text (value : String) (start : Nat)
  | expression (code : String) (start : Nat)
  /-- A quoted value that is one expression in braces; `quoted` is the offset after the quote. -/
  | quotedExpression (code : String) (start quoted : Nat)
  /-- An expression alone, whose name is its own text. -/
  | shorthand (code : String) (start : Nat)
  /-- An expression after three dots. -/
  | spread (code : String) (start : Nat)
  deriving DecidableEq, Repr

structure Attribute where
  name : String
  span : Span
  content : AttributeContent
  deriving DecidableEq, Repr

namespace Attribute

def value? (a : Attribute) : Option (String × Nat) :=
  match a.content with
  | .text value start => some (value, start)
  | _ => none

def expression? (a : Attribute) : Option (String × Nat) :=
  match a.content with
  | .expression code start | .quotedExpression code start _ | .shorthand code start
  | .spread code start => some (code, start)
  | _ => none

def valueStart (a : Attribute) : Nat :=
  match a.content with
  | .text _ start => start
  | .quotedExpression _ _ quoted => quoted
  | _ => 0

def isSpread (a : Attribute) : Bool :=
  match a.content with
  | .spread .. => true
  | _ => false

def isShorthand (a : Attribute) : Bool :=
  match a.content with
  | .shorthand .. => true
  | _ => false

def isBare (a : Attribute) : Bool := a.content = .bare

def directive? (a : Attribute) : Option String :=
  match cutAt ':' a.name.toList with
  | (_, none) => none
  | (before, some _) => some (String.ofList before)

def target (a : Attribute) : String :=
  let (before, after) := cutAt ':' a.name.toList
  String.ofList (cutAt '|' (after.getD before)).1

end Attribute

def isAttributeNameChar (c : Char) : Bool :=
  !(isBlank c || c ∈ ['=', '/', '>', '"', '\'', '{', '}'])

def isUnquotedChar (c : Char) : Bool :=
  !(isBlank c || c ∈ ['>', '"', '\'', '`', '=', '<'])

def quotedEnd (quote : Char) : Nat → Nat → List Char → Except ParseError Nat
  | _, pos, [] => .error (.at .openValue pos pos)
  | k + 1, pos, _ :: rest => quotedEnd quote k (pos + 1) rest
  | 0, pos, c :: rest =>
    if c = '{' then
      match skipExpression pos (c :: rest) with
      | .error e => .error e
      | .ok stop => quotedEnd quote (stop - pos - 1) (pos + 1) rest
    else if c = quote then .ok (pos + 1)
    else quotedEnd quote 0 (pos + 1) rest

/-- The expression of a quoted value that holds nothing else but blanks around it: its place in the
value and its text. -/
def soleExpression? (value : List Char) : Except ParseError (Option (Nat × List Char)) :=
  match cutAt '{' value with
  | (_, none) => .ok none
  | (lead, some _) =>
    if allBlank lead then
      match skipExpression lead.length (value.drop lead.length) with
      | .error e => .error e
      | .ok stop =>
        if allBlank (value.drop stop) then
          .ok (some (lead.length + 1, slice (lead.length + 1) (stop - 1) value))
        else .ok none
    else .ok none

def attributeValue (name : String) (start pos : Nat) (text : List Char) :
    Except ParseError (AttributeContent × Nat) :=
  let pos := pos + (text.takeWhile isBlank).length
  match trimStart text with
  | [] => .error (.at (.missingValue name) start pos)
  | c :: rest =>
    if c = '"' ∨ c = '\'' then do
      let stop ← quotedEnd c 0 (pos + 1) rest
      let value := rest.take (stop - pos - 2)
      match ← soleExpression? value with
      | some (lead, code) =>
        return (.quotedExpression (String.ofList code) (pos + 1 + lead) (pos + 1), stop)
      | none => return (.text (String.ofList value) (pos + 1), stop)
    else if c = '{' then do
      let stop ← skipExpression pos (c :: rest)
      return (.expression (String.ofList (rest.take (stop - pos - 2))) (pos + 1), stop)
    else
      match (c :: rest).takeWhile isUnquotedChar with
      | [] => .error (.at (.invalidValue name) pos (pos + 1))
      | value => .ok (.text (String.ofList value) pos, pos + value.length)

def bracedAttribute (pos stop : Nat) (inner : List Char) : Attribute :=
  let name := trim inner
  let lead := (inner.takeWhile isBlank).length
  match dropStart? ['.', '.', '.'] name with
  | some code =>
    ⟨String.ofList name, ⟨pos, stop⟩, .spread (String.ofList code) (pos + 1 + lead + 3)⟩
  | none => ⟨String.ofList name, ⟨pos, stop⟩, .shorthand (String.ofList inner) (pos + 1)⟩

def readAttribute (pos : Nat) (c : Char) (rest : List Char) : Except ParseError Attribute :=
  if c = '{' then do
    let stop ← skipExpression pos (c :: rest)
    return bracedAttribute pos stop (rest.take (stop - pos - 2))
  else
    match (c :: rest).takeWhile isAttributeNameChar with
    | [] => .error (.at (.strayCharacter c) pos (pos + 1))
    | name =>
      let nameEnd := pos + name.length
      let after := (c :: rest).drop name.length
      match trimStart after with
      | '=' :: after' => do
        let valuePos := nameEnd + (after.takeWhile isBlank).length + 1
        let (content, stop) ← attributeValue (String.ofList name) pos valuePos after'
        return ⟨String.ofList name, ⟨pos, stop⟩, content⟩
      | _ => .ok ⟨String.ofList name, ⟨pos, nameEnd⟩, .bare⟩

/-- A start tag after its name: its attributes, whether it closes itself, and where it ends. -/
structure TagRest where
  attributes : List Attribute
  selfClosing : Bool
  stop : Nat
  deriving DecidableEq, Repr

/-- Reads the rest of the start tag `name` that began at `start`. The second number counts the
characters of an attribute that are still to be stepped over. -/
def tagRest (name : String) (start : Nat) : Nat → Nat → List Char → Except ParseError TagRest
  | _, pos, [] => .error (.at (.openTag name) start pos)
  | k + 1, pos, _ :: rest => tagRest name start k (pos + 1) rest
  | 0, pos, c :: rest =>
    if isBlank c then tagRest name start 0 (pos + 1) rest
    else if c = '/' ∧ rest.head? = some '>' then .ok ⟨[], true, pos + 2⟩
    else if c = '>' then .ok ⟨[], false, pos + 1⟩
    else
      match readAttribute pos c rest with
      | .error e => .error e
      | .ok a =>
        match tagRest name start (a.span.stop - pos - 1) (pos + 1) rest with
        | .error e => .error e
        | .ok more => .ok { more with attributes := a :: more.attributes }

end ComponentDoc.Markup
