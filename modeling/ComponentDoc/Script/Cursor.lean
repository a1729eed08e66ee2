import ComponentDoc.Script.Token

/-!
A place in a script between two tokens, and the parsers that move it. A parser gives nothing when
the script does not fit, and then another can be tried at the same place.
-/

namespace ComponentDoc.Script

structure Cursor where
  /-- The script from the first character of the token to come. -/
  rest : List Char
  /-- The byte offset of the token to come. -/
  pos : Nat
  token : Token
  lineBreak : Bool
  /-- The byte offset after the last token. -/
  last : Nat
  /-- The comments so far, the last first. -/
  comments : List Node

namespace Cursor

def after (operand : Bool) (comments : List Node) (rest : List Char) (pos : Nat) : Cursor :=
  let g := gapFrom operand comments false .outside pos rest
  { rest := g.rest
    pos := g.pos
    token := if g.closed then Token.read g.rest else ⟨.invalid, ""⟩
    lineBreak := g.lineBreak
    last := pos
    comments := g.comments }

/-- The start of a script. A first line that names an interpreter belongs to no statement. -/
def start (script : List Char) : Cursor :=
  let g := gapFrom false [] true .outside 0 script
  let c : Cursor := ⟨g.rest, g.pos, Token.read g.rest, true, 0, g.comments⟩
  if g.closed then c else { c with token := ⟨.invalid, ""⟩ }

end Cursor

abbrev Parser := StateT Cursor Option

namespace Parser

def position : Parser Nat := return (← get).pos

def reservedWords : List String :=
  ["break", "case", "catch", "class", "const", "continue", "debugger", "default", "delete", "do",
   "else", "export", "extends", "false", "finally", "for", "function", "if", "import", "in",
   "instanceof", "new", "null", "return", "super", "switch", "this", "throw", "true", "try",
   "typeof", "var", "void", "while", "with"]

def isReserved (w : String) : Bool := w ∈ reservedWords

def endsOperand (t : Token) : Bool :=
  match t.kind with
  | .word => !isReserved t.text || t.text ∈ ["this", "super", "null", "true", "false"]
  | .number | .string | .privateName => true
  | .sign => t.text ∈ [")", "]", closeBrace, "`"]
  | _ => false

def advanceBy (n : Nat) (operand : Bool) : Parser Unit := do
  let c ← get
  set (Cursor.after operand c.comments (c.rest.drop n) (c.pos + byteLength (c.rest.take n)))

def advance : Parser Unit := do
  let t := (← get).token
  advanceBy t.text.length (endsOperand t)

def fail {α : Type} : Parser α := failure

def optional? {α : Type} (p : Parser α) : Parser (Option α) := (some <$> p) <|> pure none

def fits {α : Type} (p : Parser α) : Parser Bool := do
  let c ← get
  let found ← optional? p
  set c
  return found.isSome

def collect {α : Type} (p : Parser (Option α)) : Nat → Parser (List α)
  | 0 => return []
  | n + 1 => do
    match ← p with
    | none => return []
    | some a => return a :: (← collect p n)

def extend {α : Type} (p : α → Parser (Option α)) : Nat → α → Parser α
  | 0, a => return a
  | n + 1, a => do
    match ← p a with
    | none => return a
    | some b => extend p n b

def seesSign (s : String) : Parser Bool := return (← get).token = ⟨.sign, s⟩

def seesWord (w : String) : Parser Bool := return (← get).token = ⟨.word, w⟩

def sign? (s : String) : Parser Bool := do
  if ← seesSign s then advance; return true else return false

def word? (w : String) : Parser Bool := do
  if ← seesWord w then advance; return true else return false

def sign (s : String) : Parser Unit := do
  unless ← sign? s do fail

def word (w : String) : Parser Unit := do
  unless ← word? w do fail

def seesName : Parser Bool := do
  let t := (← get).token
  return t.kind = .word ∧ !isReserved t.text

def wordThen (w : String) (p : Cursor → Bool) : Parser Bool :=
  fits do
    word w
    if p (← get) then return () else fail

def leaf (kind : Kind) : Parser Node := do
  let start ← position
  advance
  return ⟨kind, none, ⟨start, (← get).last⟩, []⟩

def node (kind : Kind) (start : Nat) (children : List Node) : Parser Node := do
  return ⟨kind, none, ⟨start, (← get).last⟩, children⟩

def semicolon : Parser Unit := do
  if ← sign? ";" then return
  let c ← get
  if c.lineBreak ∨ c.token.kind = .stop ∨ c.token = ⟨.sign, closeBrace⟩ then return
  fail

def name (kind : Kind) : Parser Node := do
  if ← seesName then leaf kind else fail

def anyWord (kind : Kind) : Parser Node := do
  if (← get).token.kind = .word then leaf kind else fail

/-- Items with a comma between them and maybe after the last, up to the sign `close`. -/
def listUntil {α : Type} (limit : Nat) (close : String) (p : Parser α) : Parser (List α) := do
  let items ← collect (do
    if ← seesSign close then return none
    let a ← p
    unless ← seesSign close do sign ","
    return some a) limit
  sign close
  return items

end Parser

end ComponentDoc.Script
