import ComponentDoc.Number.Double
import ComponentDoc.Text.CodeText

namespace ComponentDoc

inductive Literal
  | null
  | bool (value : Bool)
  | int (value : Int)
  | double (value : Double)
  | text (value : CodeText)
  deriving DecidableEq, Repr

namespace Literal

def typeName : Literal → String
  | null => "null"
  | bool _ => "boolean"
  | int _ | double _ => "number"
  | text _ => "string"

def neg : Literal → Literal
  | int n => .int (-n)
  | double x => .double x.neg
  | v => v

end Literal

end ComponentDoc
