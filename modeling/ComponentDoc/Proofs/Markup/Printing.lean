import ComponentDoc.Markup.Tree
import ComponentDoc.Proofs.Markup.Attribute
import ComponentDoc.Proofs.Markup.Token

namespace ComponentDoc.Markup

open Text

inductive WrittenAttribute
  | bare (name : List Char)
  | quoted (name value : List Char)
  | braced (name code : List Char)
  | shorthand (code : List Char)
  | spread (code : List Char)

inductive WrittenNode
  | text (content : List Char)
  | mustache (code : List Char)
  | comment (body : List Char)
  | element (name : List Char) (attributes : List WrittenAttribute) (children : List WrittenNode)
  | alone (name : List Char) (attributes : List WrittenAttribute)

namespace WrittenAttribute

def print : WrittenAttribute → List Char
  | bare name => name
  | quoted name value => name ++ '=' :: '"' :: value ++ ['"']
  | braced name code => name ++ '=' :: braces code
  | shorthand code => braces code
  | spread code => braces ('.' :: '.' :: '.' :: code)

def name : WrittenAttribute → List Char
  | bare name | quoted name _ | braced name _ => name
  | shorthand code => trim code
  | spread code => '.' :: '.' :: '.' :: trimEnd code

/-- The content of an attribute printed at `pos`. A spread expression loses the blanks at its end. -/
def content (pos : Nat) : WrittenAttribute → AttributeContent
  | bare _ => .bare
  | quoted name value => .text (String.ofList value) (pos + name.length + 2)
  | braced name code => .expression (String.ofList code) (pos + name.length + 2)
  | shorthand code => .shorthand (String.ofList code) (pos + 1)
  | spread code => .spread (String.ofList (trimEnd code)) (pos + 4)

def locate (pos : Nat) (a : WrittenAttribute) : Attribute :=
  ⟨String.ofList a.name, ⟨pos, pos + a.print.length⟩, a.content pos⟩

def WellFormed : WrittenAttribute → Prop
  | bare name => IsAttributeName name
  | quoted name value => IsAttributeName name ∧ '"' ∉ value ∧ '{' ∉ value
  | braced name code => IsAttributeName name ∧ Balanced (braces code)
  | shorthand code => Balanced (braces code) ∧ ¬ ['.', '.', '.'] <+: trim code
  | spread code => Balanced (braces code)

instance (a : WrittenAttribute) : Decidable a.WellFormed :=
  match a with
  | bare _ => inferInstanceAs (Decidable (IsAttributeName _))
  | quoted _ _ => inferInstanceAs (Decidable (_ ∧ _))
  | braced _ _ => inferInstanceAs (Decidable (_ ∧ _))
  | shorthand _ => inferInstanceAs (Decidable (_ ∧ _))
  | spread _ => inferInstanceAs (Decidable (Balanced _))

end WrittenAttribute

def printAttributes : List WrittenAttribute → List Char
  | [] => []
  | a :: rest => ' ' :: a.print ++ printAttributes rest

def locateAttributes (pos : Nat) : List WrittenAttribute → List Attribute
  | [] => []
  | a :: rest => a.locate (pos + 1) :: locateAttributes (pos + 1 + a.print.length) rest

def printTag (name : List Char) (attributes : List WrittenAttribute) (selfClosing : Bool) : List Char :=
  '<' :: name ++ printAttributes attributes ++ tagStop selfClosing

def locateTag (pos : Nat) (name : List Char) (attributes : List WrittenAttribute) (selfClosing : Bool) :
    StartTag :=
  ⟨String.ofList name, ⟨pos, pos + (printTag name attributes selfClosing).length⟩,
    locateAttributes (pos + 1 + name.length) attributes, selfClosing⟩

mutual

def WrittenNode.print : WrittenNode → List Char
  | .text content => content
  | .mustache code => braces code
  | .comment body => commentStart ++ body ++ commentStop
  | .element name attributes children =>
    printTag name attributes false ++ printAll children ++ '<' :: '/' :: name ++ ['>']
  | .alone name attributes => printTag name attributes true

def printAll : List WrittenNode → List Char
  | [] => []
  | n :: rest => n.print ++ printAll rest

end

mutual

def WrittenNode.locate (pos : Nat) : WrittenNode → Node
  | .text content => .text (String.ofList content) ⟨pos, pos + content.length⟩
  | .mustache code => .text (String.ofList (braces code)) ⟨pos, pos + (braces code).length⟩
  | .comment body =>
    .comment (String.ofList (commentStart ++ body ++ commentStop))
      ⟨pos, pos + (commentStart ++ body ++ commentStop).length⟩
  | .element name attributes children =>
    .element (locateTag pos name attributes false)
      (pos + (WrittenNode.element name attributes children).print.length)
      (locateAll (pos + (printTag name attributes false).length) children)
  | .alone name attributes =>
    .element (locateTag pos name attributes true) (pos + (printTag name attributes true).length) []

def locateAll (pos : Nat) : List WrittenNode → List Node
  | [] => []
  | n :: rest => n.locate pos :: locateAll (pos + n.print.length) rest

end

def WrittenNode.IsText : WrittenNode → Prop
  | .text _ => True
  | _ => False

mutual

def WrittenNode.WellFormed : WrittenNode → Prop
  | .text content => content ≠ [] ∧ '<' ∉ content ∧ '{' ∉ content
  | .mustache code => Balanced (braces code)
  | .comment body => ¬ commentStop <:+: body
  | .element name attributes children =>
    (IsTagName name ∧ isVoid (String.ofList name) = false ∧ String.ofList name ∉ rawNames) ∧
      (∀ a ∈ attributes, a.WellFormed) ∧ AllWellFormed children
  | .alone name attributes => IsTagName name ∧ ∀ a ∈ attributes, a.WellFormed

def AllWellFormed : List WrittenNode → Prop
  | [] => True
  | n :: rest => n.WellFormed ∧ (n.IsText → ∀ m ∈ rest.head?, ¬ m.IsText) ∧ AllWellFormed rest

end

instance (n : WrittenNode) : Decidable n.IsText :=
  match n with
  | .text _ => inferInstanceAs (Decidable True)
  | .mustache _ | .comment _ | .element .. | .alone .. => inferInstanceAs (Decidable False)

mutual

def WrittenNode.decideWellFormed (n : WrittenNode) : Decidable n.WellFormed :=
  match n with
  | .text _ => inferInstanceAs (Decidable (_ ∧ _))
  | .mustache _ => inferInstanceAs (Decidable (Balanced _))
  | .comment _ => inferInstanceAs (Decidable (¬ _))
  | .element _ _ children =>
    have := decideAllWellFormed children
    inferInstanceAs (Decidable (_ ∧ _ ∧ _))
  | .alone _ _ => inferInstanceAs (Decidable (_ ∧ _))

def decideAllWellFormed (ns : List WrittenNode) : Decidable (AllWellFormed ns) :=
  match ns with
  | [] => inferInstanceAs (Decidable True)
  | n :: rest =>
    have := n.decideWellFormed
    have := decideAllWellFormed rest
    inferInstanceAs (Decidable (_ ∧ _ ∧ _))

end

instance (ns : List WrittenNode) : Decidable (AllWellFormed ns) := decideAllWellFormed ns

end ComponentDoc.Markup
