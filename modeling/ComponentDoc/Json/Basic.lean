import ComponentDoc.Keyed
import ComponentDoc.Literal.Basic

/-!
Plain data: the values of literals, lists, and objects with named members. Documentation is written
as plain data, and configurations are read as such.
-/

namespace ComponentDoc

inductive JsonValue
  | scalar (value : Literal)
  | array (items : List JsonValue)
  | object (members : List (String × JsonValue))
  deriving Repr, Inhabited

namespace JsonValue

def null : JsonValue := .scalar .null

def bool (b : Bool) : JsonValue := .scalar (.bool b)

def int (n : Int) : JsonValue := .scalar (.int n)

def text (t : CodeText) : JsonValue := .scalar (.text t)

def string (s : String) : JsonValue := .text s

def record (members : List (String × Option JsonValue)) : JsonValue :=
  .object (members.filterMap fun (name, value) => value.map (name, ·))

def members? : JsonValue → Option (Keyed String JsonValue)
  | object members => some members
  | _ => none

def isTrue : JsonValue → Bool
  | scalar .null => false
  | scalar (.bool b) => b
  | scalar (.int n) => n != 0
  | scalar (.double x) => !x.isZero
  | scalar (.text t) => !t.isEmpty
  | array items => !items.isEmpty
  | object members => !members.isEmpty

end JsonValue

end ComponentDoc
