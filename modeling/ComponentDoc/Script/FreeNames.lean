import ComponentDoc.Script.Function
import ComponentDoc.Script.Pattern
import ComponentDoc.Script.Source

/-!
The names that an expression uses and does not bind itself, one for each occurrence, in document
order. Parameters, declarations of a block or a loop, and the error of a catch clause bind names.
-/

namespace ComponentDoc.Script

namespace Kind

def isVariables : Kind → Bool
  | .lexicalDeclaration | .variableDeclaration => true
  | _ => false

def isReference : Kind → Bool
  | .identifier | .shorthandPropertyIdentifier => true
  | _ => false

end Kind

namespace Source

def boundNames (s : Source) (n : Option Node) : List CodeText :=
  n.elim [] fun n => n.bound.map s.nameOf

def variableNames (s : Source) (declaration : Node) : List CodeText :=
  (declaration.named.filter fun d => d.kind = .variableDeclarator).flatMap fun d =>
    s.boundNames (d.child? .name)

def statementNames (s : Source) (statement : Node) : List CodeText :=
  match statement.kind with
  | .lexicalDeclaration | .variableDeclaration => s.variableNames statement
  | .functionDeclaration | .generatorFunctionDeclaration | .classDeclaration =>
    (statement.part .name).map s.nameOf
  | _ => []

def scopeNames (s : Source) (n : Node) : List CodeText :=
  match n.kind with
  | .statementBlock => n.named.flatMap s.statementNames
  | .forStatement =>
    ((n.part .initializer).filter fun i => i.kind.isVariables).flatMap s.variableNames
  | .forInStatement => if (n.child? .binder).isSome then s.boundNames (n.child? .left) else []
  | .catchClause => s.boundNames (n.child? .parameter)
  | _ => []

def functionNames (s : Source) (n : Node) : List CodeText :=
  n.params.flatMap (fun p => s.boundNames (some p)) ++
    if n.kind = .methodDefinition then [] else (n.part .name).map s.nameOf

/-- The nodes whose names count as names of `n`, each with the names that `n` binds there. -/
def scopes (s : Source) (n : Node) : List (List CodeText × Node) :=
  if n.kind.isFunction ∨ n.kind = .methodDefinition then
    n.initials.map (([], ·)) ++ (n.part .body).map ((s.functionNames n, ·))
  else if n.kind = .pair then
    ((n.part .key).filter fun k => k.kind = .computedPropertyName).map (([], ·)) ++
      (n.part .value).map (([], ·))
  else n.named.map ((s.scopeNames n, ·))

theorem sizeOf_lt_of_mem_scopes {s : Source} {n c : Node} {names : List CodeText}
    (h : (names, c) ∈ s.scopes n) : sizeOf c < sizeOf n := by
  unfold scopes at h
  split at h
  · simp only [List.mem_append, List.mem_map, Prod.mk.injEq] at h
    obtain ⟨i, hi, -, rfl⟩ | ⟨b, hb, -, rfl⟩ := h
    · exact Node.sizeOf_lt_of_mem_initials hi
    · exact Node.sizeOf_lt_of_mem_part hb
  · split at h
    · simp only [List.mem_append, List.mem_map, List.mem_filter, Prod.mk.injEq] at h
      obtain ⟨k, ⟨hk, -⟩, -, rfl⟩ | ⟨v, hv, -, rfl⟩ := h
      · exact Node.sizeOf_lt_of_mem_part hk
      · exact Node.sizeOf_lt_of_mem_part hv
    · simp only [List.mem_map, Prod.mk.injEq] at h
      obtain ⟨m, hm, -, rfl⟩ := h
      exact Node.sizeOf_named_lt hm

def freeNames (s : Source) (bound : List CodeText) (n : Node) : List CodeText :=
  if n.kind.isReference then if s.nameOf n ∈ bound then [] else [s.nameOf n]
  else (s.scopes n).attach.flatMap fun p => s.freeNames (bound ++ p.1.1) p.1.2
termination_by sizeOf n
decreasing_by exact sizeOf_lt_of_mem_scopes p.2

theorem freeNames_of_isReference {s : Source} {n : Node} (h : n.kind.isReference)
    (bound : List CodeText) :
    s.freeNames bound n = if s.nameOf n ∈ bound then [] else [s.nameOf n] := by
  rw [freeNames, if_pos h]

theorem freeNames_eq_flatMap {s : Source} {n : Node} (h : n.kind.isReference = false)
    (bound : List CodeText) :
    s.freeNames bound n = (s.scopes n).flatMap fun p => s.freeNames (bound ++ p.1) p.2 := by
  rw [freeNames, if_neg (by simp [h])]
  conv => rhs; rw [← List.attach_map_subtype_val (s.scopes n), List.flatMap_map]

end Source

end ComponentDoc.Script
