import ComponentDoc.ItemType.Basic
import ComponentDoc.Literal.Escape
import ComponentDoc.Literal.Number

/-!
Type expressions in annotations. An expression is a union of alternatives, a parenthesised
expression, a literal or a name. What is nested more deeply than the levels that are left is not
looked at.
-/

namespace ComponentDoc

namespace TypeExpression

open Text

/-- The state between two characters: the open brackets, the open quote, and the character
before. -/
structure SplitState where
  depth : Nat
  quote : Option Char
  previous : Option Char
  deriving DecidableEq, Repr

def isQuote (c : Char) : Bool := c ∈ ['\'', '"', '`']

def isOpening (c : Char) : Bool := c ∈ ['(', '[', '\x7b', '<']

def isClosing (c : Char) : Bool := c ∈ [')', ']', '\x7d', '>']

namespace SplitState

def start : SplitState := ⟨0, none, none⟩

def isArrowHead (st : SplitState) (c : Char) : Bool := c == '>' && st.previous == some '='

/-- The character `c` separates parts if `isSeparator` holds of it. -/
def cuts (st : SplitState) (isSeparator : Char → Bool) (c : Char) : Bool :=
  st.quote.isNone && !isQuote c && !isOpening c && !(isClosing c && !st.isArrowHead c) &&
    isSeparator c && st.depth == 0

def next (st : SplitState) (c : Char) : SplitState :=
  match st.quote with
  | some q =>
    { st with
      quote := if c = q ∧ st.previous ≠ some '\\' then none else some q
      previous := some c }
  | none =>
    if isQuote c then { st with quote := some c, previous := some c }
    else if isOpening c then { st with depth := st.depth + 1, previous := some c }
    else if isClosing c && !st.isArrowHead c then
      { st with depth := st.depth - 1, previous := some c }
    else { st with previous := some c }

end SplitState

def consPart (c : Char) : List (List Char) → List (List Char)
  | [] => [[c]]
  | part :: rest => (c :: part) :: rest

/-- The parts of a text between the separators that stand in the state `st`. -/
def partsFrom (isSeparator : Char → Bool) (st : SplitState) : List Char → List (List Char)
  | [] => [[]]
  | c :: rest =>
    let parts := partsFrom isSeparator (st.next c) rest
    if st.cuts isSeparator c then [] :: parts else consPart c parts

def splitTopLevel (isSeparator : Char → Bool) (text : List Char) : List (List Char) :=
  (partsFrom isSeparator .start text).map trim

/-- No bracket before the last character closes the `depth` open ones. -/
def staysOpen (opener closer : Char) : Nat → List Char → Bool
  | _, [] => true
  | depth, c :: rest =>
    if c = opener then staysOpen opener closer (depth + 1) rest
    else if c = closer then
      !(depth == 1 && !rest.isEmpty) && staysOpen opener closer (depth - 1) rest
    else staysOpen opener closer depth rest

def isWrapped (opener closer : Char) (text : List Char) : Bool :=
  text.head? == some opener && text.getLast? == some closer && staysOpen opener closer 0 text

def unwrap (text : List Char) : List Char := (text.drop 1).dropLast

def normalize (text : List Char) : List Char :=
  match trim text with
  | ':' :: rest => trim rest
  | text => if isWrapped '\x7b' '\x7d' text then trim (unwrap text) else text

/-- A text in quotes of one kind, however often the quote occurs inside. -/
def quotation? (text : List Char) : Option (List Char) :=
  match text with
  | q :: rest => if isQuote q && rest.getLast? == some q then some rest.dropLast else none
  | [] => none

def literal? (text : List Char) : Except LiteralError (Option Literal) :=
  match quotation? text with
  | some body => (unescape body).map fun v => some (.text v)
  | none =>
    if NumberLiteral.isNumeral text then (NumberLiteral.parse text).map some
    else if text = "true".toList then .ok (some (.bool true))
    else if text = "false".toList then .ok (some (.bool false))
    else if text = "null".toList then .ok (some .null)
    else .ok none

def isAny (text : List Char) : Bool := text = ['*'] || text = "any".toList || text = ['?']

def readSingle (text : List Char) : Except LiteralError ItemType := do
  match ← literal? text with
  | some v => return .const v
  | none => return if isAny text then .any else .named (String.ofList text)

def alternatives (text : List Char) : List (List Char) :=
  (splitTopLevel (· == '|') text).filter (· ≠ [])

/-- Reads an expression; an empty one says nothing. -/
def read : Nat → List Char → Except LiteralError (Option ItemType)
  | levels, text =>
    let text := normalize text
    if text = [] then .ok none
    else
      match levels with
      | 0 => .ok (some .any)
      | levels + 1 =>
        match alternatives text with
        | [] => .ok none
        | [single] =>
          if isWrapped '(' ')' single then read levels (unwrap single)
          else (readSingle single).map some
        | many => do
          let types ← many.mapM fun a => (read levels a).map fun t => t.getD .any
          return some (.union (String.ofList text) types)

def maxDepth : Nat := 4

/-- The levels that are left at a depth. -/
def levelsAt (depth : Nat) : Nat := maxDepth + 1 - depth

/-- The expressions that are not looked at for being nested too deeply, in the order in which they
are met; an unreadable alternative is the last one met. -/
def unread : Nat → List Char → List (List Char)
  | levels, text =>
    let text := normalize text
    if text = [] then []
    else
      match levels with
      | 0 => [text]
      | levels + 1 =>
        match alternatives text with
        | [] => []
        | [single] => if isWrapped '(' ')' single then unread levels (unwrap single) else []
        | many =>
          let readable := many.takeWhile fun a => (read levels a).isOk
          (many.take (readable.length + 1)).flatMap (unread levels)

end TypeExpression

end ComponentDoc
