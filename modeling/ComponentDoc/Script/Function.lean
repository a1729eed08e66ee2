import ComponentDoc.Script.Syntax

namespace ComponentDoc.Script

def Kind.isFunction : Kind → Bool
  | .arrowFunction | .functionExpression | .generatorFunction => true
  | _ => false

namespace Node

/-- The parameters of a function or method. An arrow function may have one without parentheses. -/
def params (n : Node) : List Node :=
  match n.child? .parameter with
  | some p => [p]
  | none =>
    match n.child? .parameters with
    | some ps => ps.named.filter fun p => p.kind ≠ .comment
    | none => []

def initial? (n : Node) : Option Node := (n.child? .right).or (n.child? .value)

def initials (n : Node) : List Node := n.params.filterMap initial?

theorem sizeOf_lt_of_mem_params {n p : Node} (h : p ∈ n.params) : sizeOf p < sizeOf n := by
  unfold params at h
  split at h
  · rename_i q hq
    simp only [List.mem_singleton] at h
    exact h ▸ sizeOf_child?_lt hq
  · split at h
    · rename_i ps hps
      exact Nat.lt_trans (sizeOf_named_lt (List.mem_filter.1 h).1) (sizeOf_child?_lt hps)
    · simp at h

theorem sizeOf_initial?_lt {n i : Node} (h : n.initial? = some i) : sizeOf i < sizeOf n := by
  unfold initial? at h
  cases hr : n.child? .right with
  | some r =>
    simp only [hr, Option.some_or, Option.some.injEq] at h
    exact h ▸ sizeOf_child?_lt hr
  | none =>
    simp only [hr, Option.none_or] at h
    exact sizeOf_child?_lt h

theorem sizeOf_lt_of_mem_initials {n i : Node} (h : i ∈ n.initials) : sizeOf i < sizeOf n := by
  obtain ⟨p, hp, hi⟩ := List.mem_filterMap.1 h
  exact Nat.lt_trans (sizeOf_initial?_lt hi) (sizeOf_lt_of_mem_params hp)

end Node

structure Parameter where
  /-- What is bound: a name or a pattern. -/
  binding : Option Node
  initial : Option Node
  typed : Bool
  optional : Bool
  rest : Bool

namespace Parameter

def ofNode (n : Node) : Parameter :=
  match n.kind with
  | .assignmentPattern => ⟨n.child? .left, n.child? .right, false, true, false⟩
  | .restPattern => ⟨n.named.head?, none, false, false, true⟩
  | .requiredParameter | .optionalParameter =>
    let pattern := n.child? .pattern
    let initial := n.child? .value
    let rest := pattern.any fun p => p.kind = .restPattern
    ⟨if rest then (pattern.bind fun p => p.named.head?).or pattern else pattern, initial, true,
      n.kind = .optionalParameter || initial.isSome, rest⟩
  | _ => ⟨some n, none, false, false, false⟩

end Parameter

end ComponentDoc.Script
