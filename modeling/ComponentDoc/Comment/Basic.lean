import ComponentDoc.Span

namespace ComponentDoc

inductive Visibility
  | everyone
  | family
  | owner
  deriving DecidableEq, Repr

namespace Visibility

def name : Visibility → String
  | everyone => "public"
  | family => "protected"
  | owner => "private"

def ofName? (name : String) : Option Visibility :=
  match name with
  | "public" => some everyone
  | "protected" => some family
  | "private" => some owner
  | _ => none

theorem ofName?_name (v : Visibility) : ofName? v.name = some v := by
  cases v <;> rfl

end Visibility

structure Keyword where
  name : String
  description : String
  deriving DecidableEq, Repr

structure Comment where
  description : Option String
  keywords : List Keyword
  /-- The piece of the document that the comment covers, where it is known. -/
  loc : Option Span
  deriving DecidableEq, Repr

namespace Comment

/-- The first keyword that names a visibility decides; without one, everyone may use the item. -/
def visibility (c : Comment) : Visibility :=
  (c.keywords.findSome? fun k => Visibility.ofName? k.name).getD .everyone

def has (c : Comment) (name : String) : Bool := c.keywords.any fun k => k.name = name

def named (c : Comment) (name : String) : List Keyword :=
  c.keywords.filter fun k => k.name = name

def first? (c : Comment) (name : String) : Option Keyword :=
  c.keywords.find? fun k => k.name = name

theorem first?_isSome (c : Comment) (name : String) : (c.first? name).isSome = c.has name := by
  unfold first? has
  induction c.keywords with
  | nil => rfl
  | cons k ks ih => by_cases h : k.name = name <;> simp_all

end Comment

end ComponentDoc
