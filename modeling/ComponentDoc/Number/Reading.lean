import ComponentDoc.Literal.Error
import ComponentDoc.Number.Double
import ComponentDoc.Text.Blank
import ComponentDoc.Text.Digit

/-!
Reading numbers from text. Digits of every script count, blanks around a number are skipped, and a
low line may stand between two digits.
-/

namespace ComponentDoc

open Text

def plainChar (c : Char) : Char :=
  match digit? c with
  | some d => Nat.digitChar d
  | none => if c.toNat < 0x80 then c else if isBlank c then ' ' else '?'

def plainNumeral (text : List Char) : List Char :=
  dropEndWhile isAsciiBlank ((text.map plainChar).dropWhile isAsciiBlank)

def cutSign : List Char → Bool × List Char
  | '-' :: rest => (true, rest)
  | '+' :: rest => (false, rest)
  | s => (false, s)

def digitIn? (base : Nat) (c : Char) : Option Nat :=
  let n :=
    if '0' ≤ c ∧ c ≤ '9' then some (c.toNat - '0'.toNat)
    else if 'a' ≤ c ∧ c ≤ 'f' then some (c.toNat - 'a'.toNat + 10)
    else if 'A' ≤ c ∧ c ≤ 'F' then some (c.toNat - 'A'.toNat + 10)
    else none
  n.filter (· < base)

/-- The digits of a number, with single low lines between them, added to `n`. -/
def naturalFrom (base n : Nat) : List Char → Option Nat
  | [] => some n
  | '_' :: c :: rest =>
    match digitIn? base c with
    | some d => naturalFrom base (base * n + d) rest
    | none => none
  | c :: rest =>
    match digitIn? base c with
    | some d => naturalFrom base (base * n + d) rest
    | none => none

def natural? (base : Nat) (text : List Char) : Option Nat :=
  match text with
  | [] => none
  | c :: rest => (digitIn? base c).bind fun d => naturalFrom base d rest

def baseMark? (base : Nat) (c : Char) : Bool :=
  match base with
  | 2 => c == 'b' || c == 'B'
  | 8 => c == 'o' || c == 'O'
  | 16 => c == 'x' || c == 'X'
  | _ => false

def markedNatural? (base : Nat) (text : List Char) : Option Nat :=
  match text with
  | '0' :: m :: rest =>
    if baseMark? base m then
      match rest with
      | '_' :: rest => natural? base rest
      | rest => natural? base rest
    else natural? base text
  | _ => natural? base text

/-- Whole numbers have at most so many digits, unless the base is a power of two. -/
def maxDigits : Nat := 4300

/-- The number of digits at the head of a text, low lines aside. They are not counted in a base that
is a power of two, and not where the low lines are misplaced. -/
def countedDigits (base : Nat) (text : List Char) : Nat :=
  let run := text.takeWhile fun c => (digitIn? base c).isSome || c == '_'
  if base ∈ [2, 8, 16] ∨ (natural? base run).isNone then 0 else (run.filter (· != '_')).length

def readInteger (base : Nat) (text : List Char) : Except LiteralError Int :=
  let (negative, digits) := cutSign (plainNumeral text)
  let count := countedDigits base digits
  if maxDigits < count then .error (.tooManyDigits count)
  else
    match markedNatural? base digits with
    | some n => .ok (if negative then -n else n)
    | none => .error (.notInteger base (String.ofList text))

def hasStrayLowLine (before : Bool) : List Char → Bool
  | [] => false
  | '_' :: rest => !before || !(rest.head?.any Char.isDigit) || hasStrayLowLine false rest
  | c :: rest => hasStrayLowLine c.isDigit rest

def exponentOf? (text : List Char) : Option Int :=
  match text with
  | [] => some 0
  | e :: rest =>
    if e = 'e' ∨ e = 'E' then
      let (negative, digits) := cutSign rest
      if digits ≠ [] ∧ digits.all Char.isDigit then
        (natural? 10 digits).map fun n : Nat => if negative then -(n : Int) else n
      else none
    else none

def cutFraction (text : List Char) : List Char × List Char :=
  match text with
  | '.' :: rest => rest.span Char.isDigit
  | _ => ([], text)

def decimal? (negative : Bool) (text : List Char) : Option Double := do
  let (whole, after) := text.span Char.isDigit
  let (fraction, tail) := cutFraction after
  let digits ← natural? 10 (whole ++ fraction)
  let e ← exponentOf? tail
  return .ofDecimal negative digits (e - fraction.length)

def readDouble (text : List Char) : Except LiteralError Double :=
  let (negative, body) := cutSign (plainNumeral text)
  let lowered := String.ofList (body.map Char.toLower)
  if lowered = "inf" ∨ lowered = "infinity" then .ok (.infinite negative)
  else if lowered = "nan" then .ok .nan
  else
    match (if hasStrayLowLine false body then none
      else decimal? negative (body.filter (· != '_'))) with
    | some x => .ok x
    | none => .error (.notFloat (String.ofList text))

end ComponentDoc
