import ComponentDoc.ItemType.Expression
import ComponentDoc.Script.Parens
import ComponentDoc.Script.Source

/-!
The type of an item, from its annotation and from its initial value. The annotation decides, but a
literal value of the very type that it names is kept.
-/

namespace ComponentDoc

namespace ItemType

open Script

def ofUnary (s : Source) (n : Node) : Except LiteralError (Option ItemType) :=
  let operator := (n.child? .operator).elim [] s.chars
  match n.child? .argument with
  | some argument =>
    if argument.kind = .number ∧ (operator = ['+'] ∨ operator = ['-']) then
      (NumberLiteral.parse (s.chars argument)).map fun v =>
        some (.const (if operator = ['-'] then v.neg else v))
    else .ok (if operator = ['!'] then some (.named "boolean") else none)
  | none => .ok (if operator = ['!'] then some (.named "boolean") else none)

def ofConstructed (s : Source) (n : Node) : Option ItemType :=
  match n.child? .constructed with
  | some c =>
    if c.kind = .identifier ∨ c.kind = .memberExpression then some (.named (s.textOf c)) else none
  | none => none

def ofBare (s : Source) (n : Node) : Except LiteralError (Option ItemType) :=
  match n.kind with
  | .number => (NumberLiteral.parse (s.chars n)).map fun v => some (.const v)
  | .string | .templateString =>
    (stringValue? s n).map fun
      | some v => some (.const (.text v))
      | none => some (.named "string")
  | .trueLiteral => .ok (some (.const (.bool true)))
  | .falseLiteral => .ok (some (.const (.bool false)))
  | .nullLiteral => .ok (some (.const .null))
  | .undefinedLiteral => .ok (some (.named "undefined"))
  | .unaryExpression => ofUnary s n
  | .array => .ok (some (.named "array"))
  | .object => .ok (some (.named "object"))
  | .regex => .ok (some (.named "RegExp"))
  | .arrowFunction | .functionExpression | .generatorFunction | .classExpression =>
    .ok (some (.named "function"))
  | .newExpression => .ok (ofConstructed s n)
  | _ => .ok none

def ofExpression (s : Source) (n : Node) : Except LiteralError (Option ItemType) :=
  match n.withoutParens with
  | some n => ofBare s n
  | none => .ok none

def literalValue? (s : Source) (n : Node) : Except LiteralError (Option Literal) :=
  (ofExpression s n).map fun t => t.bind fun t => if t.kind = .const then t.value? else none

def combine (declared inferred : Option ItemType) : Option ItemType :=
  match declared, inferred with
  | some d, some i => if i.kind = .const ∧ d.kind = .named ∧ d.name? = i.name? then some i else some d
  | some t, none => some t
  | none, t => t

def resolve? (s : Source) (annotated : Option String) (initial : Option Node) :
    Except LiteralError (Option ItemType) := do
  let declared ← match annotated with
    | some text => TypeExpression.read (TypeExpression.levelsAt 0) text.toList
    | none => .ok none
  let inferred ← match initial with
    | some n => ofExpression s n
    | none => .ok none
  return combine declared inferred

end ItemType

structure Unresolved where
  subject : CodeText
  text : Option String
  deriving DecidableEq, Repr

namespace Unresolved

def message (u : Unresolved) : CodeText :=
  let start : CodeText := "Could not resolve type of "
  match u.text with
  | some text =>
    if text.isEmpty then start ++ u.subject
    else start ++ u.subject ++ (" from '" ++ text ++ "'" : String)
  | none => start ++ u.subject

end Unresolved

end ComponentDoc
