import ComponentDoc.Comment.Basic
import ComponentDoc.ItemType.Basic

namespace ComponentDoc

/-- A documented item; `detail` is what its kind of item has besides. Without a comment there are no
keywords. -/
structure Item (α : Type) where
  name : CodeText
  loc : Option Span
  description : Option String
  visibility : Visibility
  keywords : Option (List Keyword)
  detail : α

namespace Item

variable {α : Type}

def ofComment (name : CodeText) (loc : Span) (comment : Option Comment) (detail : α) : Item α :=
  match comment with
  | some c =>
    { name := name, loc := some loc, description := c.description, visibility := c.visibility
      keywords := some c.keywords, detail := detail }
  | none =>
    { name := name, loc := some loc, description := none, visibility := .everyone
      keywords := none, detail := detail }

section

variable (name : CodeText) (loc : Span) (comment : Option Comment) (detail : α)

@[simp] theorem name_ofComment : (ofComment name loc comment detail).name = name := by
  cases comment <;> rfl

@[simp] theorem loc_ofComment : (ofComment name loc comment detail).loc = some loc := by
  cases comment <;> rfl

@[simp] theorem detail_ofComment : (ofComment name loc comment detail).detail = detail := by
  cases comment <;> rfl

end

end Item

structure Argument where
  name : String
  type : ItemType
  repeated : Option Bool
  optional : Option Bool
  default : Option String
  description : Option String

structure Property where
  type : Option ItemType
  value : Option Literal

structure Callable where
  arguments : Option (List Argument)

structure Computation where
  dependencies : List CodeText

structure Child where
  path : CodeText

structure Attachment where
  parent : Option String

structure SlotParameter where

structure Slot where
  parameters : Option (List (Item SlotParameter))

inductive Version
  | whole (number : Int)
  | decimal (number : Double)
  deriving DecidableEq, Repr

structure Documentation where
  name : Option String
  version : Option Version
  description : Option String
  data : List (Item Property)
  computed : List (Item Computation)
  components : List (Item Child)
  events : List (Item Attachment)
  slots : List (Item Slot)
  refs : List (Item Attachment)
  methods : List (Item Callable)
  actions : List (Item Callable)
  helpers : List (Item Callable)
  transitions : List (Item Callable)

end ComponentDoc
