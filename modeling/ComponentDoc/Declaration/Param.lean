import ComponentDoc.Comment.Reading
import ComponentDoc.ItemType.Expression

/-!
What keywords say about types and parameters: a type in braces, and for a parameter its name, which
brackets mark as optional, a default and a description.
-/

namespace ComponentDoc

open Text

/-- The text up to the brace that closes the `depth` open ones, and the text after that brace. -/
def closeBrace? : Nat → List Char → Option (List Char × List Char)
  | _, [] => none
  | depth, c :: rest =>
    if c = '\x7d' ∧ depth ≤ 1 then some ([], rest)
    else
      let depth := if c = '\x7b' then depth + 1 else if c = '\x7d' then depth - 1 else depth
      (closeBrace? depth rest).map fun (inside, after) => (c :: inside, after)

def leadingBraced (description : List Char) : Option (List Char) × List Char :=
  match trim description with
  | '\x7b' :: rest =>
    match closeBrace? 1 rest with
    | some (inside, after) => (some (trim inside), trim after)
    | none => (none, '\x7b' :: rest)
  | text => (none, text)

structure ParamDoc where
  name : String
  typeText : Option String
  description : Option String
  optional : Bool
  default : Option String
  repeated : Bool
  deriving DecidableEq, Repr

namespace ParamDoc

/-- The name part at the start of a text, and what follows: the text in brackets, or a word. -/
def cutName (text : List Char) : List Char × List Char :=
  let word := text.takeWhile fun c => !isBlank c
  match text with
  | '[' :: rest =>
    match cutAt ']' rest with
    | (inside, some after) => ('[' :: inside ++ [']'], after)
    | (_, none) => (word, text.drop word.length)
  | _ => (word, text.drop word.length)

def afterDash (text : List Char) : List Char :=
  match trimStart text with
  | '-' :: c :: rest => if isBlank c then trim rest else trim ('-' :: c :: rest)
  | text => trim text

def splitName (token : List Char) : List Char × Bool × Option (List Char) :=
  match token with
  | '[' :: _ =>
    let inside := trim (TypeExpression.unwrap token)
    match cutAt '=' inside with
    | (name, some default) => (trim name, true, some (trim default))
    | (_, none) => (inside, true, none)
  | _ => (token, false, none)

/-- The type, whether dots before it say that the parameter repeats, and whether an equals sign
after it says that it is optional. -/
def splitType (type : List Char) : List Char × Bool × Bool :=
  let (type, repeated) :=
    match dropStart? ['.', '.', '.'] type with
    | some rest => (trim rest, true)
    | none => (type, false)
  match dropStop? ['='] type with
  | some rest => (trim rest, repeated, true)
  | none => (type, repeated, false)

def ofDescription? (description : List Char) : Option ParamDoc :=
  let (braced, rest) := leadingBraced description
  let (token, after) := cutName rest
  let (name, bracketed, default) := splitName token
  let (type, repeated, marked) := splitType (braced.getD [])
  if name.isEmpty then none
  else
    some
      { name := String.ofList name
        typeText := Comment.nonempty? (String.ofList type)
        description := Comment.nonempty? (String.ofList (afterDash after))
        optional := bracketed || marked
        default := default.map String.ofList
        repeated := repeated }

end ParamDoc

namespace Comment

def typeText? (c : Comment) : Option String :=
  (c.first? "type").bind fun k => (leadingBraced k.description.toList).1.map String.ofList

/-- The documented parameters, the first one of each name. A name with a dot in it is a property of
a parameter and left out. -/
def params (c : Comment) : List ParamDoc :=
  (c.named "param").filterMap fun k =>
    (ParamDoc.ofDescription? k.description.toList).filter fun d => !d.name.toList.contains '.'

end Comment

end ComponentDoc
