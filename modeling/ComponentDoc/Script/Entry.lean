import ComponentDoc.Script.Source

namespace ComponentDoc.Script

structure Entry where
  key : CodeText
  node : Node
  value : Option Node

/-- The name that the key of a property gives; a number or a computed key gives none. -/
def Source.keyName? (s : Source) (key : Option Node) : Except LiteralError (Option CodeText) :=
  match key with
  | none => .ok none
  | some k =>
    match k.kind with
    | .string => stringValue? s k
    | .propertyIdentifier | .identifier | .privatePropertyIdentifier => .ok (some (s.nameOf k))
    | _ => .ok none

def Source.entry? (s : Source) (n : Node) : Except LiteralError (Option Entry) :=
  match n.kind with
  | .pair => (s.keyName? (n.child? .key)).map fun k => k.map fun k => ⟨k, n, n.child? .value⟩
  | .methodDefinition => (s.keyName? (n.child? .name)).map fun k => k.map fun k => ⟨k, n, some n⟩
  | .shorthandPropertyIdentifier => .ok (some ⟨s.nameOf n, n, none⟩)
  | _ => .ok none

namespace Entry

def keyNode (e : Entry) : Node :=
  ((e.node.child? .key).or (e.node.child? .name)).getD e.node

def initial? (e : Entry) : Option Node :=
  if e.node.kind = .methodDefinition then none else e.value

end Entry

def Source.stringArgument? (s : Source) (call : Node) :
    Except LiteralError (Option (CodeText × Node)) :=
  match (call.child? .arguments).bind fun a => a.named.head? with
  | some n => (stringValue? s n).map fun v => v.map fun v => (v, n)
  | none => .ok none

end ComponentDoc.Script
