import ComponentDoc.Proofs.Script.Scope

namespace ComponentDoc.Script

inductive Role
  | inside
  | head
  /-- A pattern that binds all its names. -/
  | target
  | parameter
  | parameters
  | ownName
  | key
  | bare

namespace Kind

def role : Kind → Option Field → Role
  | .arrowFunction, part | .functionExpression, part | .generatorFunction, part
  | .methodDefinition, part =>
    match part with
    | some .parameter => .parameter
    | some .parameters => .parameters
    | some .body => .inside
    | some .name => .ownName
    | _ => .bare
  | .pair, some .key => .key
  | .pair, some .value => .inside
  | .pair, _ => .bare
  | .variableDeclarator, some .name | .forInStatement, some .left | .catchClause, some .parameter =>
    .target
  | .forStatement, some .initializer => .head
  | _, _ => .inside

def isOtherDeclaration : Kind → Bool
  | .variableDeclaration | .functionDeclaration | .generatorFunctionDeclaration | .classDeclaration
  | .abstractClassDeclaration | .enumDeclaration => true
  | _ => false

/-- A node of the kind may stand in the head of a loop, or elsewhere. -/
def mayStand (head : Bool) (kind : Kind) : Bool :=
  !kind.isOtherDeclaration || head && kind = .variableDeclaration

def admits (kind : Kind) (children : List Node) : Bool :=
  match kind with
  | .identifier | .shorthandPropertyIdentifier => children.isEmpty
  | .pair => children.filterMap Node.field = [.key, .value]
  | .arrowFunction => children.filterMap Node.field ∈ [[.parameter, .body], [.parameters, .body]]
  | .functionExpression | .generatorFunction =>
    children.filterMap Node.field ∈ [[.parameters, .body], [.name, .parameters, .body]]
  | .methodDefinition =>
    children.filterMap Node.field = [.name, .parameters, .body] &&
      children.all fun c => c.field ≠ some .name || c.isBare
  | .forInStatement =>
    (children.find? fun c => c.field = some .binder).any fun b =>
      b.kind ∈ [.letWord, .constWord, .varWord]
  | .parenthesizedExpression | .sequenceExpression | .assignmentExpression
  | .augmentedAssignmentExpression | .awaitExpression | .unaryExpression | .binaryExpression
  | .ternaryExpression | .updateExpression | .newExpression | .yieldExpression | .callExpression
  | .memberExpression | .subscriptExpression | .arguments | .templateString | .templateSubstitution
  | .array | .object | .spreadElement | .computedPropertyName | .asExpression | .satisfiesExpression
  | .nonNullExpression | .typeAssertion | .instantiationExpression
  | .statementBlock | .expressionStatement | .lexicalDeclaration | .variableDeclaration | .variableDeclarator
  | .forStatement | .catchClause | .labeledStatement | .ifStatement | .elseClause | .whileStatement
  | .doStatement | .tryStatement | .finallyClause | .returnStatement | .throwStatement => true
  | _ => false

theorem role_of_function {kind : Kind} (h : kind.isFunction ∨ kind = .methodDefinition)
    (part : Option Field) : kind.role part =
      match part with
      | some .parameter => .parameter
      | some .parameters => .parameters
      | some .body => .inside
      | some .name => .ownName
      | _ => .bare := by
  cases kind <;> simp [isFunction] at h <;> rfl

end Kind

namespace Node

def isTargets (n : Node) : Bool := n.isBare || n.isPattern true

def isParameter (n : Node) : Bool := n.isTargets && n.initial?.all isBare

def isParameters (n : Node) : Bool := n.kind = .formalParameters && n.children.all isParameter

/-- The own name of a function, or a name that is not bound. -/
def isOwnName (n : Node) : Bool := n.isBare || n.kind = .identifier && n.children.isEmpty

end Node

mutual

/-- What stands in the head of a loop, or elsewhere, in an expression with plain binders. -/
def Node.isPlainIn (head : Bool) : Node → Bool
  | ⟨kind, field, span, children⟩ =>
    kind.mayStand head &&
      (Node.isBare ⟨kind, field, span, children⟩ || kind.admits children && arePlain kind children)

def arePlain (kind : Kind) : List Node → Bool
  | [] => true
  | n :: rest =>
    (match kind.role n.field with
      | .inside => n.isPlainIn false
      | .head => n.isPlainIn true
      | .target => n.isTargets
      | .parameter => n.isParameter
      | .parameters => n.isParameters
      | .ownName => n.isOwnName
      | .key => n.isBare || n.kind = .computedPropertyName && n.isPlainIn false
      | .bare => n.isBare) && arePlain kind rest

end

/-- An expression or a statement with plain binders: all names are bound by parameters, by `let` and
`const` in blocks, by loops, and by catch clauses, and the patterns there have names neither in default
values nor in keys. -/
def Node.isPlain (n : Node) : Bool := n.isPlainIn false

def Role.Holds : Role → Node → Prop
  | .inside, n => n.isPlain
  | .head, n => n.isPlainIn true
  | .target, n => n.isTargets
  | .parameter, n => n.isParameter
  | .parameters, n => n.isParameters
  | .ownName, n => n.isOwnName
  | .key, n => n.isBare ∨ n.kind = .computedPropertyName ∧ n.isPlain
  | .bare, n => n.isBare

theorem arePlain_iff {kind : Kind} {ns : List Node} :
    arePlain kind ns ↔ ∀ n ∈ ns, (kind.role n.field).Holds n := by
  induction ns with
  | nil => simp [arePlain]
  | cons n ns ih =>
    rw [arePlain, Bool.and_eq_true, ih, List.forall_mem_cons]
    refine and_congr_left' ?_
    cases kind.role n.field <;> simp [Role.Holds, Node.isPlain]

theorem Node.isPlainIn_iff {head : Bool} {n : Node} : n.isPlainIn head ↔ n.kind.mayStand head ∧
    (n.isBare ∨ n.kind.admits n.children ∧ ∀ c ∈ n.children, (n.kind.role c.field).Holds c) := by
  rw [← arePlain_iff]
  cases n
  simp [Node.isPlainIn]

theorem Node.isPlainIn_true_of_isPlain {n : Node} (h : n.isPlain) : n.isPlainIn true := by
  obtain ⟨hstands, hform⟩ := isPlainIn_iff.mp h
  refine isPlainIn_iff.mpr ⟨?_, hform⟩
  rw [Kind.mayStand, Bool.false_and, Bool.or_false] at hstands
  simp [Kind.mayStand, hstands]

namespace Node

def IsOrderly (n : Node) : Prop := n.isPlainIn true ∨ n.isTargets ∨ n.isParameters ∨ n.isOwnName

theorem isTargets_iff {n : Node} : n.isTargets ↔ n.isBare ∨ n.isPattern true := by
  simp [isTargets]

theorem isTargets_of_isParameter {n : Node} (h : n.isParameter) : n.isTargets := by
  rw [isParameter, Bool.and_eq_true] at h
  exact h.1

theorem isParameter_of_mem {n c : Node} (h : n.isParameters) (hc : c ∈ n.children) : c.isParameter := by
  rw [isParameters, Bool.and_eq_true] at h
  exact List.all_eq_true.mp h.2 c hc

theorem isTargets_of_mem {n c : Node} (h : n.isTargets) (hc : c ∈ n.children) : c.isTargets := by
  rw [isTargets_iff] at h ⊢
  rcases h with hbare | hpattern
  · exact .inl (isBare_of_mem hbare hc)
  · cases hpart : n.kind.targetPart? with
    | none =>
      rw [(isPattern_of_not_part hpart hpattern).2] at hc
      simp at hc
    | some part =>
      have hcase := (isPattern_of_part hpart hpattern).2 c hc
      split at hcase
      · exact hcase.imp_left And.right
      · exact .inl (hcase.resolve_right (by simp))

theorem isTargets_of_role {head : Bool} {n c : Node} (h : n.isPlainIn head) (hc : c ∈ n.children)
    (hrole : n.kind.role c.field = .target) : c.isTargets := by
  rcases (isPlainIn_iff.mp h).2 with hn | ⟨-, hroles⟩
  · exact isTargets_iff.mpr (.inl (isBare_of_mem hn hc))
  · have hholds := hroles c hc
    rwa [hrole] at hholds

theorem isPlain_of_role {head : Bool} {n c : Node} (h : n.isPlainIn head) (hc : c ∈ n.children)
    (hrole : n.kind.role c.field = .inside) (hkind : c.kind.isOtherDeclaration = false) : c.isPlain := by
  rcases (isPlainIn_iff.mp h).2 with hn | ⟨-, hroles⟩
  · exact isPlainIn_iff.mpr ⟨by simp [Kind.mayStand, hkind], .inl (isBare_of_mem hn hc)⟩
  · have hholds := hroles c hc
    rwa [hrole] at hholds

theorem isOrderly_of_isPlain {n : Node} (h : n.isPlain) : n.IsOrderly := .inl (isPlainIn_true_of_isPlain h)

theorem isOrderly_of_holds {r : Role} {n : Node} (h : r.Holds n) : n.IsOrderly := by
  cases r with
  | inside => exact isOrderly_of_isPlain h
  | head => exact .inl h
  | target => exact .inr (.inl h)
  | parameter => exact .inr (.inl (isTargets_of_isParameter h))
  | parameters => exact .inr (.inr (.inl h))
  | ownName => exact .inr (.inr (.inr h))
  | key => exact h.elim (fun hbare => .inr (.inl (isTargets_iff.mpr (.inl hbare)))) fun h => isOrderly_of_isPlain h.2
  | bare => exact .inr (.inl (isTargets_iff.mpr (.inl h)))

theorem isBinder_of_mem {n c : Node} (h : n.isTargets ∨ n.isParameters ∨ n.isOwnName) (hc : c ∈ n.children) :
    c.isTargets := by
  rcases h with htargets | hparameters | hown
  · exact isTargets_of_mem htargets hc
  · exact isTargets_of_isParameter (isParameter_of_mem hparameters hc)
  · simp only [isOwnName, Bool.or_eq_true, Bool.and_eq_true, List.isEmpty_iff] at hown
    rcases hown with hn | ⟨-, hleaf⟩
    · exact isTargets_iff.mpr (.inl (isBare_of_mem hn hc))
    · simp [hleaf] at hc

theorem isOrderly_of_mem {n c : Node} (h : n.IsOrderly) (hc : c ∈ n.children) : c.IsOrderly := by
  rcases h with hplain | hbinder
  · rcases (isPlainIn_iff.mp hplain).2 with hn | ⟨-, hroles⟩
    · exact .inr (.inl (isTargets_iff.mpr (.inl (isBare_of_mem hn hc))))
    · exact isOrderly_of_holds (hroles c hc)
  · exact .inr (.inl (isBinder_of_mem hbinder hc))

theorem isOrderly_of_mem_preorder {n m : Node} (h : n.IsOrderly) (hm : m ∈ n.preorder) : m.IsOrderly := by
  induction n using treeInduction with
  | node n ih =>
    rw [n.preorder_eq, List.mem_cons, List.mem_flatMap] at hm
    rcases hm with rfl | ⟨c, hc, hm⟩
    · exact h
    · exact ih c hc (isOrderly_of_mem h hc) hm

theorem binder_cases {n : Node} (h : n.isTargets ∨ n.isParameters ∨ n.isOwnName) (hbare : ¬ n.isBare) :
    n.kind.targetPart?.isSome ∨ n.kind = .formalParameters ∨
      (n.kind = .identifier ∨ n.kind = .shorthandPropertyIdentifierPattern) ∧ n.children = [] := by
  rcases h with htargets | hparameters | hown
  · have hpattern := (isTargets_iff.mp htargets).resolve_left hbare
    cases hpart : n.kind.targetPart? with
    | none => exact .inr (.inr (isPattern_of_not_part hpart hpattern))
    | some part => exact .inl rfl
  · rw [isParameters, Bool.and_eq_true, decide_eq_true_eq] at hparameters
    exact .inr (.inl hparameters.1)
  · simp only [isOwnName, Bool.or_eq_true, Bool.and_eq_true, decide_eq_true_eq, List.isEmpty_iff] at hown
    obtain ⟨hkind, hleaf⟩ := hown.resolve_left hbare
    exact .inr (.inr ⟨.inl hkind, hleaf⟩)

theorem IsOrderly.cases {n : Node} (h : n.IsOrderly) (hbare : ¬ n.isBare) :
    (n.kind.mayStand true ∧ n.kind.admits n.children ∧ ∀ c ∈ n.children, (n.kind.role c.field).Holds c) ∨
    n.kind.targetPart?.isSome ∨ n.kind = .formalParameters ∨
    (n.kind = .identifier ∨ n.kind = .shorthandPropertyIdentifierPattern) ∧ n.children = [] := by
  refine h.imp (fun hplain => ?_) fun hbinder => binder_cases hbinder hbare
  obtain ⟨hkind, hroles⟩ := isPlainIn_iff.mp hplain
  exact ⟨hkind, hroles.resolve_left hbare⟩

theorem targets_of_mem_hoisted {n p : Node} (h : n.isTargets ∨ n.isParameters ∨ n.isOwnName) (hp : p ∈ n.hoisted) :
    p.targets = [] := by
  induction n using treeInduction with
  | node n ih =>
    by_cases hbare : n.isBare
    · exact targets_of_isBare (isBare_of_mem_preorder hbare (mem_preorder_of_mem_hoisted hp))
    have hnone : n.variablePatterns = [] := by
      have hcases := binder_cases h hbare
      unfold variablePatterns
      cases hk : n.kind <;> simp [hk, Kind.targetPart?] at hcases ⊢
    rw [hoisted_eq, hnone, List.nil_append] at hp
    split at hp
    · exact absurd hp List.not_mem_nil
    · obtain ⟨c, hc, hp⟩ := List.mem_flatMap.mp hp
      exact ih c hc (.inl (isBinder_of_mem h hc)) hp

end Node

end ComponentDoc.Script
