import ComponentDoc.Script.Cursor

/-!
The recursive notions of the grammar, and the rules that several of them share: names of
properties, binding patterns, templates. A rule takes the parsers of the recursive notions as an
argument, so that no rule refers to itself.
-/

namespace ComponentDoc.Script

open Script.Parser

inductive Goal
  | statement
  | block
  | sequence (allowIn : Bool)
  | assignment (allowIn : Bool)
  | operation (level : Nat) (allowIn : Bool)
  | unary
  | binding
  | type
  | element

structure Grammar where
  typed : Bool
  /-- No list in the script has more items. -/
  limit : Nat
  parse : Goal → Parser Node

namespace Grammar

variable (g : Grammar)

def expression : Parser Node := g.parse (.sequence true)

def assignment : Parser Node := g.parse (.assignment true)

def type : Parser Node := g.parse .type

def block : Parser Node := g.parse .block

def computedName : Parser Node := do
  let start ← position
  sign "["
  let inner ← g.assignment
  sign "]"
  node .computedPropertyName start [inner]

def propertyName : Parser Node := do
  match (← get).token.kind with
  | .word => leaf .propertyIdentifier
  | .privateName => leaf .privatePropertyIdentifier
  | .string => leaf .string
  | .number => leaf .number
  | _ => g.computedName

def initializer? (allowIn : Bool) : Parser (Option Node) := do
  if ← sign? "=" then return some (← g.parse (.assignment allowIn)) else return none

def withDefault (start : Nat) (target : Node) : Parser Node := do
  match ← g.initializer? true with
  | some value => node .assignmentPattern start [target.as .left, value.as .right]
  | none => return target

def bindingElement : Parser Node := do
  let start ← position
  g.withDefault start (← g.parse .binding)

def restBinding : Parser Node := do
  let start ← position
  sign "..."
  node .restPattern start [← g.parse .binding]

def arrayPattern : Parser Node := do
  let start ← position
  sign "["
  let items ← collect (do
    if ← seesSign "]" then return none
    if ← sign? "," then return some none
    let item ← if ← seesSign "..." then g.restBinding else g.bindingElement
    unless ← seesSign "]" do sign ","
    return some (some item)) g.limit
  sign "]"
  node .arrayPattern start (items.filterMap id)

/-- An entry of an object pattern: a rest, a key with a pattern, or a name that is both. -/
def objectPatternEntry : Parser Node := do
  let start ← position
  if ← seesSign "..." then g.restBinding
  else
    let short ← fits do
      let _ ← name .identifier
      if ← seesSign ":" then fail
    if short then
      let target ← name .shorthandPropertyIdentifierPattern
      match ← g.initializer? true with
      | some value => node .objectAssignmentPattern start [target.as .left, value.as .right]
      | none => return target
    else
      let key ← g.propertyName
      sign ":"
      let value ← g.bindingElement
      node .pairPattern start [key.as .key, value.as .value]

def objectPattern : Parser Node := do
  let start ← position
  sign openBrace
  let entries ← listUntil g.limit closeBrace g.objectPatternEntry
  node .objectPattern start entries

def binding : Parser Node := do
  if ← seesSign "[" then g.arrayPattern
  else if ← seesSign openBrace then g.objectPattern
  else name .identifier

def resume (operand : Bool) (rest : List Char) (pos : Nat) : Parser Unit := do
  set (Cursor.after operand (← get).comments rest pos)

/-- The substitutions of a template of which `rest` is left, at most as many as the first number. -/
def substitutions : Nat → List Char → Nat → Parser (List Node)
  | 0, _, _ => fail
  | n + 1, rest, pos => do
    match quotedRest '`' .plain rest with
    | none => fail
    | some (.quote, after) =>
      resume true after (pos + byteLength (rest.take (rest.length - after.length)))
      return []
    | some (.substitution, after) =>
      let inside := pos + byteLength (rest.take (rest.length - after.length))
      resume false after inside
      let e ← g.expression
      unless ← seesSign closeBrace do fail
      let c ← get
      let s : Node := ⟨.templateSubstitution, none, ⟨inside - 2, c.pos + 1⟩, [e]⟩
      return s :: (← substitutions n (c.rest.drop 1) (c.pos + 1))

def template : Parser Node := do
  let start ← position
  unless ← seesSign "`" do fail
  let c ← get
  let parts ← g.substitutions g.limit (c.rest.drop 1) (c.pos + 1)
  node .templateString start parts

def closeAngle : Parser Unit := do
  match (← get).rest with
  | '>' :: _ => advanceBy 1 true
  | _ => fail

def seesCloseAngle : Parser Bool := return (← get).rest.head? = some '>'

def angleList {α : Type} (p : Parser α) : Parser (List α) := do
  sign "<"
  let items ← collect (do
    if ← seesCloseAngle then return none
    let a ← p
    unless ← seesCloseAngle do sign ","
    return some a) g.limit
  if items.isEmpty then fail
  closeAngle
  return items

def decorator : Parser Node := do
  let start ← position
  sign "@"
  node .decorator start [← g.parse .unary]

def decorators : Parser (List Node) :=
  collect (do if ← seesSign "@" then return some (← g.decorator) else return none) g.limit

end Grammar

end ComponentDoc.Script
