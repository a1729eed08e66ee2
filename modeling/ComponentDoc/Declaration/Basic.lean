import ComponentDoc.Comment.Basic
import ComponentDoc.Documentation.Item
import ComponentDoc.ItemType.Inference
import ComponentDoc.Keyed

namespace ComponentDoc

open Script

inductive Bucket
  | methods
  | actions
  | helpers
  | transitions
  deriving DecidableEq, Repr

namespace Bucket

def all : List Bucket := [methods, actions, helpers, transitions]

def name : Bucket → String
  | methods => "methods"
  | actions => "actions"
  | helpers => "helpers"
  | transitions => "transitions"

def keyword : Bucket → String
  | methods => "method"
  | actions => "action"
  | helpers => "helper"
  | transitions => "transition"

def ofKeyword? (keyword : String) : Option Bucket := all.find? fun b => b.keyword = keyword

theorem mem_all (b : Bucket) : b ∈ all := by
  cases b <;> decide

end Bucket

/-- What the comment of a function says about its list; the first such keyword decides. -/
def Comment.bucket? (c : Comment) : Option Bucket :=
  c.keywords.findSome? fun k => Bucket.ofKeyword? k.name

structure Declared where
  name : CodeText
  loc : Span
  comment : Option Comment

structure DataDeclaration extends Declared where
  type : ItemType
  value : Option Literal

/-- What a computed property depends on: what its expression reads, or names that are listed. -/
inductive Reads
  | expression (node : Option Node)
  | names (names : List CodeText)

structure ComputedDeclaration extends Declared where
  reads : Reads

structure FunctionDeclaration extends Declared where
  bucket : Bucket
  arguments : List Argument

structure ChildDeclaration extends Declared where
  path : CodeText

structure ImportBinding where
  name : CodeText
  path : CodeText
  loc : Span
  comment : Option Comment

abbrev Imports := Keyed CodeText ImportBinding

structure Declarations where
  source : Option Source
  data : List DataDeclaration
  computed : List ComputedDeclaration
  functions : List FunctionDeclaration
  children : List ChildDeclaration
  events : List Declared
  imports : Imports
  dispatchers : List CodeText
  aliases : Keyed CodeText CodeText
  componentComment : Option Comment
  unresolved : List Unresolved

namespace Declarations

def empty : Declarations :=
  ⟨none, [], [], [], [], [], [], [], [], none, []⟩

def knownNames (d : Declarations) : List CodeText :=
  d.data.map (·.name) ++ d.computed.map (·.name)

def publicName (d : Declarations) (name : CodeText) : CodeText :=
  (d.aliases.get? name).getD name

end Declarations

end ComponentDoc
