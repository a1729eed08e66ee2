import ComponentDoc.Literal.Error
import ComponentDoc.Text.CodeText
import ComponentDoc.Script.Token

namespace ComponentDoc

namespace Escape

open Script

def hexValue (c : Char) : Nat :=
  if c.isDigit then c.toNat - '0'.toNat
  else if 'a' ≤ c then c.toNat - 'a'.toNat + 10
  else c.toNat - 'A'.toNat + 10

def hexNumber (digits : List Char) : Nat := digits.foldl (fun n c => 16 * n + hexValue c) 0

def letter (c : Char) : List Nat :=
  match c with
  | 'n' => [10]
  | 't' => [9]
  | 'r' => [13]
  | 'b' => [8]
  | 'f' => [12]
  | 'v' => [11]
  | '0' => [0]
  | '\n' | '\r' => []
  | c => [c.toNat]

def point (n : Nat) : Except LiteralError Nat :=
  if n < 0x110000 then .ok n
  else if n < 0x80000000 then .error .pointOutOfRange
  else .error .pointTooLarge

def sequence (c : Char) (rest : List Char) : Except LiteralError (List Nat × Nat) :=
  let braced := (rest.drop 1).takeWhile isHex
  let four := rest.take 4
  let two := rest.take 2
  if c = 'u' ∧ rest.head? = some '{' ∧ braced ≠ [] ∧ rest[braced.length + 1]? = some '}' then
    (point (hexNumber braced)).map fun n => ([n], braced.length + 3)
  else if c = 'u' ∧ four.length = 4 ∧ four.all isHex then .ok ([hexNumber four], 5)
  else if c = 'x' ∧ two.length = 2 ∧ two.all isHex then .ok ([hexNumber two], 3)
  else if c = '\r' ∧ rest.head? = some '\n' then .ok ([], 2)
  else .ok (letter c, 1)

def decodeFrom : Nat → List Char → Except LiteralError (List Nat)
  | _, [] => .ok []
  | k + 1, _ :: rest => decodeFrom k rest
  | 0, c :: rest =>
    if c = '\\' then
      match rest with
      | [] => .ok [c.toNat]
      | d :: after =>
        match sequence d after with
        | .error e => .error e
        | .ok (points, length) => (decodeFrom length (d :: after)).map (points ++ ·)
    else (decodeFrom 0 rest).map (c.toNat :: ·)

end Escape

def unescape (body : List Char) : Except LiteralError CodeText :=
  (Escape.decodeFrom 0 body).map fun points => ⟨points⟩

end ComponentDoc
