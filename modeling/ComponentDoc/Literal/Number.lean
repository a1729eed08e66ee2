import ComponentDoc.Literal.Basic
import ComponentDoc.Number.Reading
import ComponentDoc.Script.Token
import ComponentDoc.Text.Search

/-!
Numeric literals: decimal, with a fraction or an exponent, or in base 16, 8 or 2; with low lines
between digits, and with the letter of a big integer at the end. Whole numbers are exact.
-/

namespace ComponentDoc

namespace NumberLiteral

open Text Script

def dropBig (text : List Char) : List Char :=
  match dropStop? ['n'] text with
  | some s => s
  | none => text

def signed (negative : Bool) : Literal → Literal
  | v => if negative then v.neg else v

def isOctalDigit (c : Char) : Bool := '0' ≤ c && c ≤ '7'

def unsigned (clean : List Char) : Except LiteralError Literal :=
  let whole (base : Nat) (digits : List Char) : Except LiteralError Literal :=
    (readInteger base digits).map .int
  match clean with
  | '0' :: c :: rest =>
    if c = 'x' ∨ c = 'X' then whole 16 rest
    else if c = 'o' ∨ c = 'O' then whole 8 rest
    else if c = 'b' ∨ c = 'B' then whole 2 rest
    else if (c :: rest).all isOctalDigit then whole 8 clean
    else if clean.all isDigit then whole 10 clean
    else (readDouble clean).map .double
  | _ =>
    if clean ≠ [] ∧ clean.all isDigit then whole 10 clean
    else (readDouble clean).map .double

def parse (text : List Char) : Except LiteralError Literal :=
  let clean := dropBig (text.filter (· != '_'))
  let negative := clean.head? = some '-'
  (unsigned (clean.dropWhile fun c => c == '+' || c == '-')).map (signed negative)

def isDigitPart (c : Char) : Bool := isDigit c || c == '_'

/-- The end of a numeric literal: nothing, or the letter of a big integer. A line may end after it. -/
def isEnd (text : List Char) : Bool := text ∈ [[], ['n'], ['\n'], ['n', '\n']]

def dropSign (text : List Char) : List Char :=
  match text with
  | c :: rest => if c = '+' ∨ c = '-' then rest else text
  | [] => []

def isExponentEnd (text : List Char) : Bool :=
  isEnd text ||
    match text with
    | e :: rest =>
      let digits := dropSign rest
      (e == 'e' || e == 'E') && digits.head?.any isDigit && isEnd (digits.dropWhile isDigit)
    | [] => false

def isMarked (isDigit : Char → Bool) (digits : List Char) : Bool :=
  let part (c : Char) : Bool := isDigit c || c == '_'
  digits.head?.any part && isEnd (digits.dropWhile part)

def isDecimal (text : List Char) : Bool :=
  match text with
  | [] => false
  | c :: rest =>
    if isDigit c then
      match rest.dropWhile isDigitPart with
      | '.' :: fraction => isExponentEnd (fraction.dropWhile isDigitPart)
      | tail => isExponentEnd tail
    else
      c == '.' && rest.head?.any isDigit && isExponentEnd (rest.dropWhile isDigitPart)

/-- The text is written as a numeric literal, maybe with a sign. -/
def isNumeral (text : List Char) : Bool :=
  let body := dropSign text
  isDecimal body ||
    match body with
    | '0' :: c :: digits =>
      if c = 'x' ∨ c = 'X' then isMarked isHex digits
      else if c = 'o' ∨ c = 'O' then isMarked isOctalDigit digits
      else if c = 'b' ∨ c = 'B' then isMarked (fun c => c == '0' || c == '1') digits
      else false
    | _ => false

end NumberLiteral

end ComponentDoc
