/-!
Binary floating-point numbers of 64 bits, given exactly: a whole number of at most 53 bits and a
power of two. A decimal number is rounded to the nearest one, and of two equally near to the even
one.
-/

namespace ComponentDoc

/-- A floating-point number. A finite one is `mantissa * 2 ^ exponent`; the mantissa has 53 bits
unless the exponent is -1074, the least one. -/
inductive Double
  | nan
  | infinite (negative : Bool)
  | finite (negative : Bool) (mantissa : Nat) (exponent : Int)
  deriving DecidableEq, Repr

namespace Double

def zero (negative : Bool) : Double := .finite negative 0 (-1074)

def neg : Double → Double
  | nan => nan
  | infinite s => .infinite !s
  | finite s m e => .finite (!s) m e

def roundQuotient (num den : Nat) : Nat :=
  let q := num / den
  let r := num % den
  if 2 * r > den ∨ (2 * r = den ∧ q % 2 = 1) then q + 1 else q

def powerOfTwo (n : Int) : Nat × Nat := (Nat.pow 2 n.toNat, Nat.pow 2 (-n).toNat)

/-- The exponent at which the whole part of `num / den` has 53 bits, or -1074 if that is more. -/
def exponentFor (num den : Nat) : Int :=
  let guess : Int := (num.log2 : Int) - den.log2 - 52
  let (up, down) := powerOfTwo guess
  let tooMuch := num * down < den * up * Nat.pow 2 52
  max (-1074) (if tooMuch then guess - 1 else guess)

def ofRatio (negative : Bool) (num den : Nat) : Double :=
  if num = 0 then zero negative
  else
    let e := exponentFor num den
    let (up, down) := powerOfTwo e
    let m := roundQuotient (num * down) (den * up)
    let (m, e) := if m = Nat.pow 2 53 then (Nat.pow 2 52, e + 1) else (m, e)
    if e > 971 then .infinite negative else .finite negative m e

/-- The number nearest to `digits * 10 ^ exponent`. Beyond the first bound every number is infinite,
below the second every number is zero. -/
def ofDecimal (negative : Bool) (digits : Nat) (exponent : Int) : Double :=
  let size : Int := (Nat.toDigits 10 digits).length + exponent
  if digits = 0 ∨ size < -330 then zero negative
  else if size > 310 then .infinite negative
  else ofRatio negative (digits * Nat.pow 10 exponent.toNat) (Nat.pow 10 (-exponent).toNat)

def truncate? : Double → Option Int
  | finite s m e =>
    let (up, down) := powerOfTwo e
    let n : Int := m * up / down
    some (if s then -n else n)
  | _ => none

def isInt (x : Double) (n : Int) : Bool :=
  match x with
  | finite s m e =>
    let (up, down) := powerOfTwo e
    decide ((m : Int) * up = n.natAbs * down) && (m == 0 || s == decide (n < 0))
  | _ => false

/-- Equality of numbers: the two zeros are equal, and what is no number equals nothing. -/
def numericEq : Double → Double → Bool
  | finite s m e, finite t n f => m == n && e == f && (s == t || m == 0)
  | infinite s, infinite t => s == t
  | _, _ => false

def isZero : Double → Bool
  | finite _ 0 _ => true
  | _ => false

end Double

end ComponentDoc
