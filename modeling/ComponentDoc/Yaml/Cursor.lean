import ComponentDoc.Json.Basic

/-!
Going through a YAML text character by character. Indentation counts, so the column is kept, and the
line too: the key of a mapping stands on one line.
-/

namespace ComponentDoc.Yaml

structure Cursor where
  rest : List Char
  line : Nat
  column : Nat

abbrev Reader := StateT Cursor Option

def isBreak (c : Char) : Bool := c ∈ ['\n', '\r', '\u0085', '\u2028', '\u2029']

def isBlankOrEnd : Option Char → Bool
  | some c => c == ' ' || c == '\t' || isBreak c
  | none => true

namespace Cursor

def start (text : List Char) : Cursor := ⟨text, 0, 0⟩

def next (c : Cursor) : Cursor :=
  match c.rest with
  | [] => c
  | a :: rest => if isBreak a then ⟨rest, c.line + 1, 0⟩ else ⟨rest, c.line, c.column + 1⟩

def peek (c : Cursor) (n : Nat) : Option Char := c.rest[n]?

def atMark (c : Cursor) : Bool :=
  c.column == 0 && isBlankOrEnd (c.peek 3) &&
    (['-', '-', '-'].isPrefixOf c.rest || ['.', '.', '.'].isPrefixOf c.rest)

def atEnd (c : Cursor) : Bool := c.rest.isEmpty || c.atMark

def atSign (c : Cursor) (sign : Char) : Bool := c.peek 0 == some sign && isBlankOrEnd (c.peek 1)

def skipWhile (p : Char → Bool) (c : Cursor) : Cursor :=
  (c.rest.takeWhile p).foldl (fun c _ => c.next) c

def skipSpaces (c : Cursor) : Cursor := c.skipWhile (· == ' ')

def skipComment (c : Cursor) : Cursor :=
  let c := c.skipSpaces
  if c.peek 0 = some '#' then c.skipWhile fun a => !isBreak a else c

def skipLines : Nat → Cursor → Cursor
  | 0, c => c
  | n + 1, c =>
    let c := c.skipComment
    if (c.peek 0).any isBreak then skipLines n c.next else c

def skipBlank (c : Cursor) : Cursor := skipLines (c.rest.length + 1) c

end Cursor

namespace Reader

def fail {α : Type} : Reader α := fun _ => none

def advance (n : Nat) : Reader Unit :=
  modify fun c => n.fold (fun _ _ c => c.next) c

def toToken : Reader Bool := do
  let before ← get
  let c := before.skipBlank
  set c
  return c.line != before.line

def peek (n : Nat) : Reader (Option Char) := return (← get).peek n

end Reader

end ComponentDoc.Yaml
