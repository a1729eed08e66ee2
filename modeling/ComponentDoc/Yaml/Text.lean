import ComponentDoc.Literal.Escape
import ComponentDoc.Yaml.Cursor

/-!
Scalars of YAML as they are written: plain, in quotes, or as blocks of lines. The lines of a scalar
are folded: one line break becomes a space, and of several the first one is dropped.
-/

namespace ComponentDoc.Yaml

open Reader

def blankLines (isBlank : Char → Bool) : Nat → Reader Nat
  | 0 => return 0
  | n + 1 => do
    modify (Cursor.skipWhile isBlank)
    if (← peek 0).any isBreak then
      advance 1
      return (← blankLines isBlank n) + 1
    else return 0

def folded (more : Nat) : List Nat := if more = 0 then [0x20] else List.replicate more 0x0A

def quotedBlanks : Reader (List Nat) := do
  let isBlank (c : Char) : Bool := c == ' ' || c == '\t'
  let blanks := (← get).rest.takeWhile isBlank
  modify (Cursor.skipWhile isBlank)
  if (← peek 0).any isBreak then
    advance 1
    let more ← blankLines isBlank (← get).rest.length
    if (← get).atMark then fail
    return folded more
  else return blanks.map Char.toNat

def escapeLetter? (c : Char) : Option Nat :=
  match c with
  | '0' => some 0
  | 'a' => some 7
  | 'b' => some 8
  | 't' | '\t' => some 9
  | 'n' => some 10
  | 'v' => some 11
  | 'f' => some 12
  | 'r' => some 13
  | 'e' => some 27
  | ' ' | '"' | '/' | '\\' => some c.toNat
  | 'N' => some 0x85
  | '_' => some 0xA0
  | 'L' => some 0x2028
  | 'P' => some 0x2029
  | _ => none

def escapeLength? (c : Char) : Option Nat :=
  match c with
  | 'x' => some 2
  | 'u' => some 4
  | 'U' => some 8
  | _ => none

def escape : Reader (List Nat) := do
  match ← peek 0 with
  | none => fail
  | some c =>
    advance 1
    match escapeLetter? c, escapeLength? c with
    | some p, _ => return [p]
    | none, some length =>
      let digits := (← get).rest.take length
      let p := Escape.hexNumber digits
      if digits.length = length ∧ digits.all Script.isHex ∧ p < 0x110000 then
        advance length
        return [p]
      else fail
    | none, none =>
      if isBreak c then
        let more ← blankLines (fun c => c == ' ' || c == '\t') (← get).rest.length
        return List.replicate more 0x0A
      else fail

def quotedText (quote : Char) : Nat → Reader (List Nat)
  | 0 => fail
  | n + 1 => do
    match ← peek 0 with
    | none => fail
    | some c =>
      if c = quote then
        advance 1
        if quote = '\'' ∧ (← peek 0) = some '\'' then
          advance 1
          return quote.toNat :: (← quotedText quote n)
        else return []
      else if c = ' ' ∨ c = '\t' ∨ isBreak c then
        return (← quotedBlanks) ++ (← quotedText quote n)
      else if c = '\\' ∧ quote = '"' then
        advance 1
        return (← escape) ++ (← quotedText quote n)
      else
        advance 1
        return c.toNat :: (← quotedText quote n)

def quoted (quote : Char) : Reader JsonValue := do
  advance 1
  return .text ⟨← quotedText quote ((← get).rest.length + 1)⟩

def isFlowSign (c : Char) : Bool := c ∈ [',', '?', '[', ']', '\x7b', '\x7d']

def isPlainChar (flow : Bool) (c : Char) (next : Option Char) : Bool :=
  !(isBlankOrEnd (some c)) && !(flow && isFlowSign c) &&
    !(c == ':' &&
      (isBlankOrEnd next || (flow && next.any fun n => n ∈ [',', '[', ']', '\x7b', '\x7d'])))

def plainChunk (flow : Bool) : List Char → List Char
  | [] => []
  | c :: rest => if isPlainChar flow c rest.head? then c :: plainChunk flow rest else []

def startsPlain (flow : Bool) (c : Char) (next : Option Char) : Bool :=
  if c ∈ ['-', '?', ':'] then !isBlankOrEnd next && (c == '-' || !flow)
  else
    !isBlankOrEnd (some c) &&
      c ∉ [',', '[', ']', '\x7b', '\x7d', '#', '&', '*', '!', '|', '>', '\'', '"', '%', '@', '\x60']

/-- The blanks after a chunk of a plain scalar: nothing if the scalar ends there. A line that goes
on with the scalar is indented more than `indent`. -/
def plainBlanks (flow : Bool) (indent : Int) : Reader (List Char) := do
  let blanks := (← get).rest.takeWhile (· == ' ')
  modify Cursor.skipSpaces
  if (← peek 0).any isBreak then
    advance 1
    if (← get).atMark then return []
    let more ← blankLines (· == ' ') (← get).rest.length
    let c ← get
    if c.atMark || (!flow && (c.column : Int) ≤ indent) then return []
    return (folded more).map Char.ofNat
  else return blanks

def plainText (flow : Bool) (indent : Int) : Nat → Reader (List Char)
  | 0 => return []
  | n + 1 => do
    let chunk := plainChunk flow (← get).rest
    advance chunk.length
    let blanks ← plainBlanks flow indent
    let c ← get
    if blanks.isEmpty || c.peek 0 = some '#' || (plainChunk flow c.rest).isEmpty then return chunk
    return chunk ++ blanks ++ (← plainText flow indent n)

inductive Chomping
  | strip
  | clip
  | keep
  deriving DecidableEq

def blockHeader : Reader (Chomping × Option Nat) := do
  let signs := (← get).rest.takeWhile fun c => c == '+' || c == '-' || c.isDigit
  advance signs.length
  let chomping (c : Char) : Chomping := if c = '+' then .keep else .strip
  match signs with
  | [] => return (.clip, none)
  | [c] =>
    if c = '0' then fail
    return if c.isDigit then (.clip, some (c.toNat - '0'.toNat)) else (chomping c, none)
  | [c, d] =>
    if c.isDigit && !d.isDigit && c != '0' then return (chomping d, some (c.toNat - '0'.toNat))
    else if d.isDigit && !c.isDigit && d != '0' then return (chomping c, some (d.toNat - '0'.toNat))
    else fail
  | _ => fail

/-- The blank lines before a line of a block scalar: their number, and the greatest column. Spaces
are stepped over up to the column `limit` if there is one. -/
def blockBreaks (limit : Option Nat) (greatest : Nat) : Nat → Reader (Nat × Nat)
  | 0 => return (0, greatest)
  | n + 1 => do
    let c ← get
    let spaces := (c.rest.takeWhile (· == ' ')).length
    advance (limit.elim spaces fun l => min spaces (l - c.column))
    let greatest := max greatest (← get).column
    if (← peek 0).any isBreak then
      advance 1
      let (breaks, greatest) ← blockBreaks limit greatest n
      return (breaks + 1, greatest)
    else return (0, greatest)

def blockLines (folding : Bool) (chomping : Chomping) (indent : Nat) : Nat → Reader (List Char)
  | 0 => return []
  | n + 1 => do
    let isSpaced (c : Option Char) : Bool := c.any fun c => c == ' ' || c == '\t'
    let spaced := isSpaced (← peek 0)
    let line := (← get).rest.takeWhile fun c => !isBreak c
    advance line.length
    let broken := (← peek 0).isSome
    advance 1
    let (breaks, _) ← blockBreaks (some indent) 0 (← get).rest.length
    let c ← get
    if c.column = indent && !c.rest.isEmpty then
      let joint :=
        if folding && !spaced && !isSpaced (c.peek 0) then if breaks = 0 then [' '] else []
        else ['\n']
      return line ++ joint ++ List.replicate breaks '\n' ++
        (← blockLines folding chomping indent n)
    else
      let last := if chomping ≠ .strip && broken then ['\n'] else []
      return line ++ last ++ if chomping = .keep then List.replicate breaks '\n' else []

def blockScalar (indent : Int) : Reader JsonValue := do
  let folding := (← peek 0) = some '>'
  advance 1
  let (chomping, increment) ← blockHeader
  modify Cursor.skipComment
  unless isBlankOrEnd (← peek 0) && (← peek 0) != some '\t' do fail
  advance 1
  let least := (max (indent + 1) 1).toNat
  let size := (← get).rest.length + 1
  let (breaks, column) ← match increment with
    | some i => do
      let (breaks, _) ← blockBreaks (some (least + i - 1)) 0 size
      pure (breaks, least + i - 1)
    | none => do
      let (breaks, greatest) ← blockBreaks none 0 size
      pure (breaks, max least greatest)
  let c ← get
  let lead := List.replicate breaks '\n'
  if c.column = column && !c.rest.isEmpty then
    return .text (.ofChars (lead ++ (← blockLines folding chomping column size)))
  else return .text (.ofChars (if chomping = .keep then lead else []))

end ComponentDoc.Yaml
