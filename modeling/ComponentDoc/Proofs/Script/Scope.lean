import ComponentDoc.Proofs.Script.Binding
import ComponentDoc.Script.FreeNames

/-!
The scopes of the language: the names that a node binds in all that it contains, and the uses of names
that no node around them binds. Main statement: the free uses at and below a node are those below its
children whose names the node does not bind.
-/

namespace ComponentDoc.Script

namespace Kind

def opensFunction : Kind → Bool
  | .arrowFunction | .functionExpression | .generatorFunction | .methodDefinition
  | .functionDeclaration | .generatorFunctionDeclaration => true
  | _ => false

/-- A function that its own name stands for in its body. -/
def bindsOwnName : Kind → Bool
  | .functionExpression | .generatorFunction => true
  | _ => false

def bindsInside : Kind → Bool
  | .arrowFunction | .functionExpression | .generatorFunction | .methodDefinition
  | .functionDeclaration | .generatorFunctionDeclaration | .statementBlock | .switchBody
  | .forStatement | .forInStatement | .catchClause | .classExpression | .classDeclaration
  | .abstractClassDeclaration | .classStaticBlock => true
  | _ => false

end Kind

namespace Node

def declaratorPatterns (n : Node) : List Node :=
  (n.children.filter fun d => d.kind = .variableDeclarator).flatMap fun d => d.part .name

def variablePatterns (n : Node) : List Node :=
  match n.kind with
  | .variableDeclaration => n.declaratorPatterns
  | .forInStatement => if (n.child? .binder).any fun b => b.kind = .varWord then n.part .left else []
  | _ => []

end Node

mutual

/-- The patterns of the variables that are declared at and below the node for the whole function around
it. -/
def Node.hoisted : Node → List Node
  | ⟨kind, field, span, children⟩ =>
    if kind.opensFunction || kind = .classStaticBlock then []
    else Node.variablePatterns ⟨kind, field, span, children⟩ ++ hoistedIn children

def hoistedIn : List Node → List Node
  | [] => []
  | n :: rest => n.hoisted ++ hoistedIn rest

end

namespace Source

def targetNames (s : Source) (patterns : List Node) : List CodeText :=
  patterns.flatMap fun p => p.targets.map s.nameOf

def blockNames (s : Source) (statement : Node) : List CodeText :=
  match statement.kind with
  | .lexicalDeclaration => s.targetNames statement.declaratorPatterns
  | .functionDeclaration | .generatorFunctionDeclaration | .classDeclaration
  | .abstractClassDeclaration | .enumDeclaration => (statement.part .name).map s.nameOf
  | _ => []

def localNames (s : Source) (n : Node) : List CodeText :=
  match n.kind with
  | .arrowFunction | .functionExpression | .generatorFunction | .methodDefinition
  | .functionDeclaration | .generatorFunctionDeclaration =>
    s.targetNames n.params ++ (if n.kind.bindsOwnName then (n.part .name).map s.nameOf else []) ++
      s.targetNames ((n.part .body).flatMap Node.hoisted)
  | .statementBlock => n.children.flatMap s.blockNames
  | .switchBody => n.children.flatMap fun c => c.children.flatMap s.blockNames
  | .forStatement => (n.part .initializer).flatMap s.blockNames
  | .forInStatement =>
    if (n.child? .binder).any fun b => b.kind ≠ .varWord then s.targetNames (n.part .left) else []
  | .catchClause => s.targetNames (n.part .parameter)
  | .classExpression | .classDeclaration | .abstractClassDeclaration => (n.part .name).map s.nameOf
  | .classStaticBlock => s.targetNames ((n.part .body).flatMap Node.hoisted)
  | _ => []

def hoistedNames (s : Source) (n : Node) : List CodeText :=
  if n.kind.opensFunction then s.targetNames ((n.part .body).flatMap Node.hoisted) else []

/-- The names that a node binds in all that it contains, if each loop keeps the variables that it declares, and
functions get none from their bodies. -/
def ownNames (s : Source) (n : Node) : List CodeText :=
  match n.kind with
  | .arrowFunction | .functionExpression | .generatorFunction | .methodDefinition =>
    s.targetNames n.params ++ if n.kind.bindsOwnName then (n.part .name).map s.nameOf else []
  | .forStatement =>
    (n.part .initializer).flatMap fun i =>
      if i.kind = .variableDeclaration then s.targetNames i.declaratorPatterns else s.blockNames i
  | .forInStatement => if (n.child? .binder).isSome then s.targetNames (n.part .left) else []
  | _ => s.localNames n

end Source

/-- A node that uses a name, and the nodes around it, the innermost first. -/
structure Use where
  node : Node
  around : List Node

mutual

/-- The uses of names at and below a node that stands in the nodes `around`, in document order. -/
def Node.usesWithin (around : List Node) : Node → List Use
  | ⟨kind, field, span, children⟩ =>
    (if kind.isReference then [⟨⟨kind, field, span, children⟩, around⟩] else []) ++
      usesWithinAll (⟨kind, field, span, children⟩ :: around) children

def usesWithinAll (around : List Node) : List Node → List Use
  | [] => []
  | n :: rest => n.usesWithin around ++ usesWithinAll around rest

end

def Node.uses (n : Node) : List Use := n.usesWithin []

namespace Source

/-- No node around the use binds its name, where each node binds certain names. -/
def IsFreeFor (s : Source) (names : Node → List CodeText) (u : Use) : Prop :=
  ∀ m ∈ u.around, s.nameOf u.node ∉ names m

instance (s : Source) (names : Node → List CodeText) (u : Use) : Decidable (s.IsFreeFor names u) :=
  inferInstanceAs (Decidable (∀ m ∈ u.around, s.nameOf u.node ∉ names m))

def IsFree (s : Source) (u : Use) : Prop := s.IsFreeFor s.localNames u

instance (s : Source) (u : Use) : Decidable (s.IsFree u) := inferInstanceAs (Decidable (s.IsFreeFor _ u))

def freeUses (s : Source) (names : Node → List CodeText) (n : Node) : List CodeText :=
  (n.uses.filter fun u => s.IsFreeFor names u).map fun u => s.nameOf u.node

end Source

theorem hoistedIn_eq (ns : List Node) : hoistedIn ns = ns.flatMap Node.hoisted := by
  induction ns with
  | nil => rfl
  | cons n ns ih => simp [hoistedIn, ih]

namespace Node

theorem hoisted_eq (n : Node) :
    n.hoisted = if n.kind.opensFunction ∨ n.kind = .classStaticBlock then []
      else n.variablePatterns ++ n.children.flatMap hoisted := by
  rw [← hoistedIn_eq]
  cases n
  simp [Node.hoisted]

theorem mem_preorder_of_mem_declaratorPatterns {n p : Node} (h : p ∈ n.declaratorPatterns) :
    p ∈ n.preorder := by
  simp only [declaratorPatterns, part, List.mem_flatMap, List.mem_filter, Option.mem_toList] at h
  obtain ⟨d, ⟨hd, -⟩, hp⟩ := h
  exact mem_preorder_of_mem hd (mem_preorder_of_mem (mem_of_child? hp) p.self_mem_preorder)

theorem mem_preorder_of_mem_hoisted {n p : Node} (h : p ∈ n.hoisted) : p ∈ n.preorder := by
  induction n using treeInduction with
  | node n ih =>
    rw [hoisted_eq] at h
    split at h
    · simp at h
    · rw [List.mem_append, List.mem_flatMap] at h
      rcases h with h | ⟨c, hc, h⟩
      · unfold variablePatterns at h
        split at h
        · exact mem_preorder_of_mem_declaratorPatterns h
        · split at h
          · exact mem_preorder_of_mem_part h
          · simp at h
        · simp at h
      · exact mem_preorder_of_mem hc (ih c hc h)

end Node

theorem usesWithinAll_eq (around : List Node) (ns : List Node) :
    usesWithinAll around ns = ns.flatMap (Node.usesWithin around) := by
  induction ns with
  | nil => rfl
  | cons n ns ih => simp [usesWithinAll, ih]

theorem Node.usesWithin_eq (around : List Node) (n : Node) :
    n.usesWithin around =
      (if n.kind.isReference then [⟨n, around⟩] else []) ++
        n.children.flatMap (usesWithin (n :: around)) := by
  rw [← usesWithinAll_eq]
  cases n
  rfl

theorem Node.usesWithin_append (around outer : List Node) (n : Node) :
    n.usesWithin (around ++ outer) =
      (n.usesWithin around).map fun u => { u with around := u.around ++ outer } := by
  induction n using Node.treeInduction generalizing around with
  | node n ih =>
    rw [usesWithin_eq, usesWithin_eq around, List.map_append, List.map_flatMap]
    congr 1
    · split <;> rfl
    · exact List.flatMap_congr fun c hc => ih c hc (n :: around)

theorem Node.mem_preorder_of_mem_usesWithin {around : List Node} {n : Node} {u : Use}
    (h : u ∈ n.usesWithin around) : u.node ∈ n.preorder ∧ u.node.kind.isReference := by
  induction n using Node.treeInduction generalizing around with
  | node n ih =>
    rw [usesWithin_eq, List.mem_append, List.mem_flatMap] at h
    rcases h with h | ⟨c, hc, h⟩
    · split at h
      · next href =>
        obtain rfl := List.mem_singleton.mp h
        exact ⟨n.self_mem_preorder, href⟩
      · simp at h
    · exact ⟨mem_preorder_of_mem hc (ih c hc h).1, (ih c hc h).2⟩

namespace Source

variable {s : Source} {n : Node}

theorem localNames_eq_nil (h : n.kind.bindsInside = false) : s.localNames n = [] := by
  unfold localNames
  cases hk : n.kind <;> simp [hk, Kind.bindsInside] at h ⊢

theorem ownNames_eq_nil (h : n.kind.bindsInside = false) : s.ownNames n = [] := by
  unfold ownNames
  cases hk : n.kind <;> simp [hk, Kind.bindsInside] at h <;> exact localNames_eq_nil (by rw [hk]; rfl)

variable {names : Node → List CodeText}

theorem freeUses_of_reference (h : n.kind.isReference) (hleaf : n.children = []) :
    s.freeUses names n = [s.nameOf n] := by
  simp [freeUses, Node.uses, Node.usesWithin_eq, h, hleaf, IsFreeFor]

theorem freeUses_eq (h : n.kind.isReference = false) :
    s.freeUses names n = n.children.flatMap fun c => (s.freeUses names c).filter fun x => x ∉ names n := by
  have hchild (c : Node) : ((c.usesWithin [n]).filter fun u => s.IsFreeFor names u).map (fun u => s.nameOf u.node) =
      (s.freeUses names c).filter fun x => x ∉ names n := by
    have huses := c.usesWithin_append [] [n]
    rw [List.nil_append] at huses
    rw [huses, freeUses, Node.uses, List.filter_map, List.map_map, List.filter_map, List.filter_filter]
    congr 1
    refine List.filter_congr fun u _ => ?_
    have hfree : s.IsFreeFor names { u with around := u.around ++ [n] } ↔
        s.IsFreeFor names u ∧ s.nameOf u.node ∉ names n := by
      simp [IsFreeFor, or_imp, forall_and]
    rw [Function.comp_apply, decide_eq_decide.mpr hfree, Bool.decide_and, Bool.and_comm]
    rfl
  rw [freeUses, Node.uses, Node.usesWithin_eq, h]
  simp only [Bool.false_eq_true, if_false, List.nil_append, List.filter_flatMap, List.map_flatMap]
  exact List.flatMap_congr fun c _ => hchild c

theorem mem_freeUses_iff {x : CodeText} :
    x ∈ s.freeUses names n ↔ ∃ u ∈ n.uses, s.IsFreeFor names u ∧ s.nameOf u.node = x := by
  simp [freeUses, and_assoc]

theorem exists_of_mem_freeUses {x : CodeText} (h : x ∈ s.freeUses names n) :
    ∃ m ∈ n.preorder, m.kind.isReference ∧ s.nameOf m = x := by
  obtain ⟨u, hu, -, rfl⟩ := mem_freeUses_iff.mp h
  obtain ⟨hmem, href⟩ := Node.mem_preorder_of_mem_usesWithin hu
  exact ⟨u.node, hmem, href, rfl⟩

end Source

end ComponentDoc.Script
