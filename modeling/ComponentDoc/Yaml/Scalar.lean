import ComponentDoc.Json.Basic
import ComponentDoc.Number.Reading

/-!
The values of plain YAML scalars, those of version 1.1: null, booleans, whole numbers in several
bases, floating-point numbers, and all else as text.
-/

namespace ComponentDoc

namespace Yaml

def isPart (c : Char) : Bool := c.isDigit || c == '_'

def isOctal (c : Char) : Bool := ('0' ≤ c && c ≤ '7') || c == '_'

def isBinary (c : Char) : Bool := c ∈ ['0', '1', '_']

def isHexadecimal (c : Char) : Bool := (digitIn? 16 c).isSome || c == '_'

def isDecimal (text : List Char) : Bool :=
  match text with
  | c :: rest => c.isDigit && c != '0' && rest.all isPart
  | [] => false

def isSixtieth (text : List Char) : Bool :=
  match text with
  | [c] => c.isDigit
  | [c, d] => '0' ≤ c && c ≤ '5' && d.isDigit
  | _ => false

def sexagesimal? (text : List Char) : Option Int :=
  match text.splitOn ':' with
  | first :: part :: parts =>
    if isDecimal first && (part :: parts).all isSixtieth then
      (first :: part :: parts).foldl (fun n p => do
        return (← n) * 60 + ((← natural? 10 (p.filter (· != '_'))) : Int)) (some 0)
    else none
  | _ => none

def unsigned? (text : List Char) : Option Int :=
  let digits := text.filter (· != '_')
  let inBase (base : Nat) (digits : List Char) : Option Int :=
    (natural? base digits).map fun n => (n : Int)
  match text with
  | ['0'] => some 0
  | '0' :: 'b' :: c :: rest => if (c :: rest).all isBinary then inBase 2 (digits.drop 2) else none
  | '0' :: 'x' :: c :: rest =>
    if (c :: rest).all isHexadecimal then inBase 16 (digits.drop 2) else none
  | '0' :: c :: rest => if (c :: rest).all isOctal then inBase 8 digits else none
  | _ => if isDecimal text then inBase 10 digits else sexagesimal? text

def integer? (text : List Char) : Option Int :=
  match cutSign text with
  | (negative, rest) => (unsigned? rest).map fun n => if negative then -n else n

def isExponent (text : List Char) : Bool :=
  match text with
  | [] => true
  | e :: s :: d :: rest =>
    (e == 'e' || e == 'E') && (s == '+' || s == '-') && (d :: rest).all Char.isDigit
  | _ => false

def isFloat (text : List Char) : Bool :=
  match text with
  | '.' :: c :: rest => c.isDigit && isExponent (rest.dropWhile isPart)
  | c :: rest =>
    c.isDigit &&
      match rest.dropWhile isPart with
      | '.' :: fraction => isExponent (fraction.dropWhile isPart)
      | _ => false
  | [] => false

def float? (text : List Char) : Option Double :=
  let (negative, rest) := cutSign text
  let signed := text.length ≠ rest.length
  if String.ofList rest ∈ [".inf", ".Inf", ".INF"] then some (.infinite negative)
  else if String.ofList text ∈ [".nan", ".NaN", ".NAN"] then some .nan
  else if isFloat rest && !(signed && rest.head? == some '.') then
    (readDouble (text.filter (· != '_'))).toOption
  else none

def plainValue (text : List Char) : JsonValue :=
  let s := String.ofList text
  if s ∈ ["", "~", "null", "Null", "NULL"] then .null
  else if s ∈ ["yes", "Yes", "YES", "true", "True", "TRUE", "on", "On", "ON"] then .bool true
  else if s ∈ ["no", "No", "NO", "false", "False", "FALSE", "off", "Off", "OFF"] then .bool false
  else
    match integer? text with
    | some n => .int n
    | none =>
      match float? text with
      | some x => .scalar (.double x)
      | none => .string s

end Yaml

end ComponentDoc
