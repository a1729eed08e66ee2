import ComponentDoc.Text.Printable

namespace ComponentDoc.Text

def hexDigits (width n : Nat) : List Char :=
  let digits := Nat.toDigits 16 n
  List.replicate (width - digits.length) '0' ++ digits

def quotedPoint (quote : Char) (n : Nat) : List Char :=
  if n = quote.toNat ∨ n = 0x5C then ['\\', Char.ofNat n]
  else if n = 0x0A then ['\\', 'n']
  else if n = 0x0D then ['\\', 'r']
  else if n = 0x09 then ['\\', 't']
  else if isPrintable n then [Char.ofNat n]
  else if n < 0x100 then '\\' :: 'x' :: hexDigits 2 n
  else if n < 0x10000 then '\\' :: 'u' :: hexDigits 4 n
  else '\\' :: 'U' :: hexDigits 8 n

def quoted (points : List Nat) : List Char :=
  let quote := if '\''.toNat ∈ points ∧ '"'.toNat ∉ points then '"' else '\''
  quote :: points.flatMap (quotedPoint quote) ++ [quote]

end ComponentDoc.Text
