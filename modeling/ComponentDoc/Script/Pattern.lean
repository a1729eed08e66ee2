import ComponentDoc.Script.Syntax

namespace ComponentDoc.Script

mutual

def Node.bound : Node → List Node
  | ⟨kind, field, span, children⟩ =>
    match kind with
    | .identifier | .shorthandPropertyIdentifierPattern => [⟨kind, field, span, children⟩]
    | .assignmentPattern | .objectAssignmentPattern => boundInPart .left children
    | .pairPattern => boundInPart .value children
    | .restPattern | .objectPattern | .arrayPattern => boundInAll children
    | .requiredParameter | .optionalParameter => boundInPart .pattern children
    | _ => []

def boundInPart (f : Field) : List Node → List Node
  | [] => []
  | n :: rest => if n.field = some f then n.bound else boundInPart f rest

def boundInAll : List Node → List Node
  | [] => []
  | n :: rest => n.bound ++ boundInAll rest

end

theorem boundInAll_eq (ns : List Node) : boundInAll ns = ns.flatMap Node.bound := by
  induction ns with
  | nil => rfl
  | cons n ns ih => simp [boundInAll, ih]

theorem boundInPart_eq (f : Field) (ns : List Node) :
    boundInPart f ns = (ns.find? fun n => n.field = some f).elim [] Node.bound := by
  induction ns with
  | nil => rfl
  | cons n ns ih => by_cases h : n.field = some f <;> simp [boundInPart, h, ih]

end ComponentDoc.Script
