import ComponentDoc.Script.Reader

/-!
Tokens of scripts and the blanks and comments between them. Every reader takes what starts at the
head of a list of characters and gives what it covers or what is left.
-/

namespace ComponentDoc.Script

def isHex (c : Char) : Bool :=
  ('0' ≤ c && c ≤ '9') || ('a' ≤ c && c ≤ 'f') || ('A' ≤ c && c ≤ 'F')

def isLineBreak (c : Char) : Bool :=
  c == '\n' || c == '\r' || c == '\u2028' || c == '\u2029'

def isSpace (c : Char) : Bool :=
  let n := c.toNat
  n == 0x20 || (9 ≤ n && n ≤ 13) || n == 0xA0 || n == 0x1680 || (0x2000 ≤ n && n ≤ 0x200B) ||
    n == 0x2028 || n == 0x2029 || n == 0x202F || n == 0x205F || n == 0x2060 || n == 0x3000 ||
    n == 0xFEFF

def isNameStart (c : Char) : Bool :=
  if c.toNat < 0x80 then c.isAlpha || c == '$' || c == '_' else !isSpace c

def isNamePart (c : Char) : Bool := isNameStart c || c.isDigit

def nameChars (braced : Bool) : List Char → List Char
  | [] => []
  | '\\' :: 'u' :: '{' :: rest => '\\' :: 'u' :: '{' :: nameChars true rest
  | '\\' :: 'u' :: rest => '\\' :: 'u' :: nameChars braced rest
  | c :: rest =>
    if braced then c :: nameChars (c != '}') rest
    else if isNamePart c then c :: nameChars false rest
    else []

def digitRun (isDigit : Char → Bool) : List Char → List Char
  | [] => []
  | '_' :: d :: rest => if isDigit d then '_' :: d :: digitRun isDigit rest else []
  | c :: rest => if isDigit c then c :: digitRun isDigit rest else []

def exponentPart (text : List Char) : List Char :=
  match text with
  | e :: rest =>
    if e = 'e' ∨ e = 'E' then
      match rest with
      | '+' :: d :: _ | '-' :: d :: _ =>
        if d.isDigit then e :: rest.take 1 ++ digitRun Char.isDigit (rest.drop 1) else []
      | d :: _ => if d.isDigit then e :: digitRun Char.isDigit rest else []
      | [] => []
    else []
  | [] => []

def fractionPart (text : List Char) : List Char :=
  let digits :=
    match text with
    | d :: _ => if d.isDigit then digitRun Char.isDigit text else []
    | [] => []
  digits ++ exponentPart (text.drop digits.length)

def withBigSuffix (digits text : List Char) : List Char :=
  match text.drop digits.length with
  | 'n' :: _ => digits ++ ['n']
  | _ => digits

def decimalNumeral (text : List Char) : List Char :=
  let whole := digitRun Char.isDigit text
  match text.drop whole.length with
  | '.' :: rest => whole ++ '.' :: fractionPart rest
  | 'n' :: _ => whole ++ ['n']
  | rest => whole ++ exponentPart rest

def markedNumeral (isDigit : Char → Bool) (mark : Char) (rest : List Char) : List Char :=
  match digitRun isDigit rest with
  | [] => ['0']
  | digits => '0' :: mark :: withBigSuffix digits rest

def numeral (text : List Char) : List Char :=
  match text with
  | '0' :: mark :: d :: rest =>
    if d = '_' then decimalNumeral text
    else if mark = 'x' ∨ mark = 'X' then markedNumeral isHex mark (d :: rest)
    else if mark = 'o' ∨ mark = 'O' then markedNumeral (fun c => '0' ≤ c && c ≤ '7') mark (d :: rest)
    else if mark = 'b' ∨ mark = 'B' then markedNumeral (fun c => c == '0' || c == '1') mark (d :: rest)
    else decimalNumeral text
  | _ => decimalNumeral text

/-- Where a reader of quoted text is: in plain text, or in an escape with braces, at its start or
after its first digit. -/
inductive QuotePlace
  | plain | braceStart | braceDigits
  deriving DecidableEq

/-- What stops a run of quoted text. -/
inductive QuoteStop
  | quote | substitution
  deriving DecidableEq

/-- Reads quoted text up to its closing quote, or up to a substitution when it is a template: what
stopped it, and the text after that. Escapes must be well formed, and only a template goes over the
end of a line. -/
def quotedRest (quote : Char) : QuotePlace → List Char → Option (QuoteStop × List Char)
  | _, [] => none
  | .braceStart, c :: rest => if isHex c then quotedRest quote .braceDigits rest else none
  | .braceDigits, c :: rest =>
    if c = '}' then quotedRest quote .plain rest
    else if isHex c then quotedRest quote .braceDigits rest
    else none
  | .plain, '\\' :: 'u' :: '{' :: rest => quotedRest quote .braceStart rest
  | .plain, '\\' :: 'u' :: a :: b :: c :: d :: rest =>
    if isHex a ∧ isHex b ∧ isHex c ∧ isHex d then quotedRest quote .plain rest else none
  | .plain, '\\' :: 'x' :: a :: b :: rest =>
    if isHex a ∧ isHex b then quotedRest quote .plain rest else none
  | .plain, '\\' :: '\r' :: '\n' :: rest => quotedRest quote .plain rest
  | .plain, '\\' :: c :: rest => if c = 'x' ∨ c = 'u' then none else quotedRest quote .plain rest
  | .plain, c :: rest =>
    if c = quote then some (.quote, rest)
    else if quote = '`' then
      match c, rest with
      | '$', '{' :: rest => some (.substitution, rest)
      | _, rest => quotedRest quote .plain rest
    else if c = '\n' ∨ c = '\r' ∨ c = '\\' then none
    else quotedRest quote .plain rest

/-- Reads a regular expression after its opening slash; in a class, which `inClass` tells, a slash
is a character like any other. -/
def regexRest (inClass : Bool) : List Char → Option (List Char)
  | [] => none
  | '\\' :: c :: rest => if isLineBreak c then none else regexRest inClass rest
  | c :: rest =>
    if isLineBreak c ∨ c = '\\' then none
    else if c = '[' then regexRest true rest
    else if c = ']' then regexRest false rest
    else if c = '/' ∧ !inClass then some (rest.dropWhile isNamePart)
    else regexRest inClass rest

def openBrace : String := "\x7b"

def closeBrace : String := "\x7d"

def signs : List String :=
  [">>>=", "...", "===", "!==", "**=", "<<=", ">>=", ">>>", "&&=", "||=", "??=", "=>", "==", "!=",
   "<=", ">=", "&&", "||", "??", "?.", "++", "--", "+=", "-=", "*=", "/=", "%=", "&=", "|=", "^=",
   "<<", ">>", "**", openBrace, closeBrace, "(", ")", "[", "]", ";", ",", "<", ">", "+", "-", "*",
   "/", "%", "&", "|", "^", "!", "~", "?", ":", "=", ".", "@", "`"]

inductive TokenKind
  | word | privateName | number | string | sign | stop | invalid
  deriving DecidableEq, Repr

structure Token where
  kind : TokenKind
  text : String
  deriving DecidableEq, Repr

namespace Token

/-- The first sign that the text starts with; a question mark before a decimal fraction stands
alone. -/
def readSign (text : List Char) : Token :=
  match signs.find? fun s => s.toList.isPrefixOf text with
  | some "?." =>
    match text.drop 2 with
    | d :: _ => if d.isDigit then ⟨.sign, "?"⟩ else ⟨.sign, "?."⟩
    | [] => ⟨.sign, "?."⟩
  | some s => ⟨.sign, s⟩
  | none => ⟨.invalid, ""⟩

/-- The token at the head of a text. A regular expression, a template and the text of an element are
not read as such: only the grammar knows where they may stand. -/
def read : List Char → Token
  | [] => ⟨.stop, ""⟩
  | c :: rest =>
    if isNameStart c ∨ (c = '\\' ∧ rest.head? = some 'u') then
      ⟨.word, String.ofList (nameChars false (c :: rest))⟩
    else if c.isDigit then ⟨.number, String.ofList (numeral (c :: rest))⟩
    else if c = '.' ∧ rest.head?.any Char.isDigit then
      ⟨.number, String.ofList ('.' :: fractionPart rest)⟩
    else if c = '"' ∨ c = '\'' then
      match quotedRest c .plain rest with
      | some (_, after) =>
        ⟨.string, String.ofList ((c :: rest).take (rest.length + 1 - after.length))⟩
      | none => ⟨.invalid, ""⟩
    else if c = '#' then
      match nameChars false rest with
      | [] => ⟨.invalid, ""⟩
      | name => ⟨.privateName, String.ofList ('#' :: name)⟩
    else readSign (c :: rest)

end Token

/-- Where a reader of what stands between tokens is; a comment knows where it started. -/
inductive GapPlace
  | outside
  | lineComment (start : Nat)
  | blockComment (start : Nat)
  | htmlComment (start : Nat)

structure Gap where
  rest : List Char
  pos : Nat
  lineBreak : Bool
  /-- The comments, the last first. -/
  comments : List Node
  /-- No comment is left open. -/
  closed : Bool

def commentNode (kind : Kind) (start stop : Nat) : Node := ⟨kind, none, ⟨start, stop⟩, []⟩

/-- Reads what stands before the next token. There are two old-style marks of comments: one that is
a row of operators after an operand, and one that counts only at the start of a line. -/
def gapFrom (operand : Bool) (comments : List Node) (lineBreak : Bool) :
    GapPlace → Nat → List Char → Gap
  | .outside, pos, [] => ⟨[], pos, lineBreak, comments, true⟩
  | .blockComment _, pos, [] => ⟨[], pos, lineBreak, comments, false⟩
  | .lineComment start, pos, [] =>
    ⟨[], pos, lineBreak, commentNode .comment start pos :: comments, true⟩
  | .htmlComment start, pos, [] =>
    ⟨[], pos, lineBreak, commentNode .htmlComment start pos :: comments, true⟩
  | .blockComment start, pos, '*' :: '/' :: rest =>
    gapFrom operand (commentNode .comment start (pos + 2) :: comments) lineBreak .outside (pos + 2)
      rest
  | .blockComment start, pos, c :: rest =>
    gapFrom operand comments (lineBreak || isLineBreak c) (.blockComment start) (pos + c.utf8Size)
      rest
  | .lineComment start, pos, c :: rest =>
    if isLineBreak c then
      gapFrom operand (commentNode .comment start pos :: comments) true .outside
        (pos + c.utf8Size) rest
    else gapFrom operand comments lineBreak (.lineComment start) (pos + c.utf8Size) rest
  | .htmlComment start, pos, c :: rest =>
    if isLineBreak c then
      gapFrom operand (commentNode .htmlComment start pos :: comments) true .outside
        (pos + c.utf8Size) rest
    else gapFrom operand comments lineBreak (.htmlComment start) (pos + c.utf8Size) rest
  | .outside, pos, '/' :: '/' :: rest =>
    gapFrom operand comments lineBreak (.lineComment pos) (pos + 2) rest
  | .outside, pos, '/' :: '*' :: rest =>
    gapFrom operand comments lineBreak (.blockComment pos) (pos + 2) rest
  | .outside, pos, c :: rest =>
    if isSpace c then
      gapFrom operand comments (lineBreak || isLineBreak c) .outside (pos + c.utf8Size) rest
    else if !operand && ['<', '!', '-', '-'].isPrefixOf (c :: rest) then
      gapFrom operand comments lineBreak (.htmlComment pos) (pos + c.utf8Size) rest
    else if lineBreak && ['-', '-', '>'].isPrefixOf (c :: rest) then
      gapFrom operand comments lineBreak (.htmlComment pos) (pos + c.utf8Size) rest
    else ⟨c :: rest, pos, lineBreak, comments, true⟩

end ComponentDoc.Script
