import ComponentDoc.Literal.Basic

namespace ComponentDoc

inductive TypeKind
  | named
  | const
  | union
  deriving DecidableEq, Repr

namespace TypeKind

def name : TypeKind → String
  | named => "type"
  | const => "const"
  | union => "union"

def ofName? (name : String) : Option TypeKind :=
  match name with
  | "type" => some named
  | "const" => some const
  | "union" => some union
  | _ => none

@[simp] theorem ofName?_name (k : TypeKind) : ofName? k.name = some k := by
  cases k <;> rfl

end TypeKind

/-- A type has a text, a name or alternatives, and maybe a value. -/
inductive ItemType
  | simple (kind : TypeKind) (text name : String) (value : Option Literal)
  | compound (kind : TypeKind) (text : String) (alternatives : List ItemType) (value : Option Literal)
  deriving Repr

namespace ItemType

def kind : ItemType → TypeKind
  | simple kind _ _ _ | compound kind _ _ _ => kind

def name? : ItemType → Option String
  | simple _ _ name _ => some name
  | compound .. => none

def value? : ItemType → Option Literal
  | simple _ _ _ value | compound _ _ _ value => value

abbrev named (name : String) : ItemType := .simple .named name name none

abbrev any : ItemType := .named "any"

abbrev const (value : Literal) : ItemType := .simple .const value.typeName value.typeName (some value)

abbrev union (text : String) (alternatives : List ItemType) : ItemType := .compound .union text alternatives none

end ItemType

end ComponentDoc
