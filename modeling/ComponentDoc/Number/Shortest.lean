import ComponentDoc.Number.Double

namespace ComponentDoc.Double

structure Decimal where
  digits : Nat
  exponent : Int
  deriving DecidableEq, Repr

/-- A number between its halfway points to the neighbours, all in units of `2 ^ (exponent - 2)`. -/
structure Interval where
  low : Nat
  middle : Nat
  high : Nat
  exponent : Int
  /-- The halfway points belong to the number. -/
  closed : Bool

def interval (mantissa : Nat) (exponent : Int) : Interval :=
  let low :=
    if mantissa = Nat.pow 2 52 ∧ exponent > -1074 then 4 * mantissa - 1 else 4 * mantissa - 2
  ⟨low, 4 * mantissa, 4 * mantissa + 2, exponent, mantissa % 2 = 0⟩

namespace Interval

/-- The factors that turn units of the interval and of `10 ^ grid` into whole numbers. -/
def scales (i : Interval) (grid : Int) : Nat × Nat :=
  (Nat.pow 2 (i.exponent - 2).toNat * Nat.pow 10 (-grid).toNat,
    Nat.pow 2 (2 - i.exponent).toNat * Nat.pow 10 grid.toNat)

def holds (i : Interval) (grid : Int) (k : Nat) : Bool :=
  let (p, q) := i.scales grid
  if i.closed then i.low * p ≤ k * q && k * q ≤ i.high * p
  else i.low * p < k * q && k * q < i.high * p

/-- The multiple of `10 ^ grid` in the interval that is nearest to the middle. -/
def nearest? (i : Interval) (grid : Int) : Option Nat :=
  let (p, q) := i.scales grid
  let k := i.middle * p / q
  let r := i.middle * p % q
  let upFirst := 2 * r > q || (2 * r == q && k % 2 == 1)
  match i.holds grid k, i.holds grid (k + 1) with
  | true, true => some (if upFirst then k + 1 else k)
  | true, false => some k
  | false, true => some (k + 1)
  | false, false => none

/-- The first grid with a hit, from `grid` down by at most `n` steps. -/
def search (i : Interval) : Nat → Int → Option Decimal
  | 0, _ => none
  | n + 1, grid =>
    match i.nearest? grid with
    | some k => some ⟨k, grid⟩
    | none => search i n (grid - 1)

def magnitude (i : Interval) : Int :=
  let bits : Int := (i.middle.log2 : Int) + i.exponent - 2
  bits * 30103 / 100000 + 1

end Interval

def dropZeros : Nat → Decimal → Decimal
  | 0, d => d
  | n + 1, d => if d.digits % 10 = 0 then dropZeros n ⟨d.digits / 10, d.exponent + 1⟩ else d

def shortest (mantissa : Nat) (exponent : Int) : Decimal :=
  let i := interval mantissa exponent
  match i.search 20 (i.magnitude + 1) with
  | some d => dropZeros 20 d
  | none => ⟨mantissa, exponent⟩

/-- The text of a number: with a point and at least one digit after it, or with an exponent of at
least two digits when the first digit stands below the fourth place after the point, or above the
sixteenth before it. -/
def Decimal.text (d : Decimal) : List Char :=
  let digits := Nat.toDigits 10 d.digits
  let point : Int := digits.length + d.exponent
  if -4 < point ∧ point ≤ 16 then
    if point ≤ 0 then '0' :: '.' :: List.replicate (-point).toNat '0' ++ digits
    else if digits.length ≤ point.toNat then
      digits ++ List.replicate (point.toNat - digits.length) '0' ++ ['.', '0']
    else digits.take point.toNat ++ '.' :: digits.drop point.toNat
  else
    let e := point - 1
    let exponent := Nat.toDigits 10 e.natAbs
    let padded := if exponent.length < 2 then '0' :: exponent else exponent
    let fraction := if digits.length > 1 then '.' :: digits.drop 1 else []
    digits.take 1 ++ fraction ++ 'e' :: (if e < 0 then '-' else '+') :: padded

def text : Double → String
  | nan => "nan"
  | infinite s => if s then "-inf" else "inf"
  | finite s m e =>
    let body := if m = 0 then ['0', '.', '0'] else (shortest m e).text
    String.ofList (if s then '-' :: body else body)

end ComponentDoc.Double
