import ComponentDoc.Script.Syntax

namespace ComponentDoc.Script

mutual

def Node.withoutParens : Node → Option Node
  | ⟨kind, field, span, children⟩ =>
    if kind = .parenthesizedExpression then firstWithoutParens children
    else some ⟨kind, field, span, children⟩

def firstWithoutParens : List Node → Option Node
  | [] => none
  | n :: rest => if n.kind.isNamed then n.withoutParens else firstWithoutParens rest

end

theorem firstWithoutParens_eq (ns : List Node) :
    firstWithoutParens ns = (ns.find? fun n => n.kind.isNamed).bind Node.withoutParens := by
  induction ns with
  | nil => rfl
  | cons n ns ih => by_cases h : n.kind.isNamed <;> simp [firstWithoutParens, h, ih]

theorem Node.withoutParens_eq_self {n : Node} (h : n.kind ≠ .parenthesizedExpression) :
    n.withoutParens = some n := by
  cases n
  simp only at h
  simp [Node.withoutParens, h]

end ComponentDoc.Script
