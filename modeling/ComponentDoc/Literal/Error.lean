import ComponentDoc.Text.Quoted

namespace ComponentDoc

inductive LiteralError
  | notFloat (text : String)
  | notInteger (base : Nat) (text : String)
  /-- A whole number of so many digits, more than are read. -/
  | tooManyDigits (count : Nat)
  /-- An escape beyond the last code point. -/
  | pointOutOfRange
  /-- An escape beyond what a machine integer holds. -/
  | pointTooLarge
  deriving DecidableEq, Repr

namespace LiteralError

def shown (text : String) : List Char := Text.quoted (text.toList.map Char.toNat)

def message : LiteralError → String
  | notFloat text => "could not convert string to float: " ++ String.ofList (shown text)
  | notInteger base text =>
    "invalid literal for int() with base " ++ toString base ++ ": " ++
      String.ofList ((shown text).take 200)
  | tooManyDigits count =>
    "Exceeds the limit (4300 digits) for integer string conversion: value has " ++ toString count ++
      " digits; use sys.set_int_max_str_digits() to increase the limit"
  | pointOutOfRange => "chr() arg not in range(0x110000)"
  | pointTooLarge => "Python int too large to convert to C int"

end LiteralError

end ComponentDoc
