import ComponentDoc.Json.Basic
import ComponentDoc.Number.Shortest
import ComponentDoc.Text.Quoted

namespace ComponentDoc

namespace JsonValue

def displayText (points : List Nat) : String := String.ofList (Text.quoted points)

def displayScalar : Literal → String
  | .null => "None"
  | .bool b => if b then "True" else "False"
  | .int n => toString n
  | .double x => x.text
  | .text t => displayText t.points

mutual

def display : JsonValue → String
  | scalar v => displayScalar v
  | array items => "[" ++ displayItems items ++ "]"
  | object members => "\x7b" ++ displayMembers members ++ "\x7d"

def displayItems : List JsonValue → String
  | [] => ""
  | [v] => display v
  | v :: rest => display v ++ ", " ++ displayItems rest

def displayMembers : List (String × JsonValue) → String
  | [] => ""
  | [(name, v)] => displayText (CodeText.ofString name).points ++ ": " ++ display v
  | (name, v) :: rest =>
    displayText (CodeText.ofString name).points ++ ": " ++ display v ++ ", " ++ displayMembers rest

end

end JsonValue

end ComponentDoc
