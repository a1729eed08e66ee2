import ComponentDoc.Proofs.Script.Tree
import ComponentDoc.Script.Pattern

/-!
The names that binding patterns bind, by the rules of the language: those that stand neither in a key
nor in a default value. Main statement: they are the names that reading a pattern finds.
-/

namespace ComponentDoc.Script

namespace Kind

def isName : Kind → Bool
  | .identifier | .shorthandPropertyIdentifier | .shorthandPropertyIdentifierPattern => true
  | _ => false

/-- A part of a pattern of the kind that binds nothing: a default value, a key or a type. -/
def isAside (kind : Kind) (part : Option Field) : Bool :=
  match part with
  | some .right | some .key | some .declared => true
  | some .value => kind = .requiredParameter || kind = .optionalParameter
  | _ => false

/-- The part in which a pattern of the kind has patterns of its own; those of a group are in no part. -/
def targetPart? : Kind → Option (Option Field)
  | .assignmentPattern | .objectAssignmentPattern => some (some .left)
  | .pairPattern => some (some .value)
  | .requiredParameter | .optionalParameter => some (some .pattern)
  | .objectPattern | .arrayPattern | .restPattern => some none
  | _ => none

end Kind

mutual

def Node.targets : Node → List Node
  | ⟨kind, field, span, children⟩ =>
    if kind = .identifier ∨ kind = .shorthandPropertyIdentifierPattern then
      [⟨kind, field, span, children⟩]
    else targetsIn kind children

def targetsIn (kind : Kind) : List Node → List Node
  | [] => []
  | n :: rest => (if kind.isAside n.field then [] else n.targets) ++ targetsIn kind rest

end

def Node.isBare (n : Node) : Bool := n.preorder.all fun m => !m.kind.isName

mutual

/-- A binding pattern as the language has them: a name, a group of patterns, an entry with its key, or
one of these with a default value. In a plain one every name is bound: there are no names in keys and
in default values. -/
def Node.isPattern (plain : Bool) : Node → Bool
  | ⟨kind, _, _, children⟩ =>
    match kind.targetPart? with
    | some part =>
      (part.isNone || (children.filter fun c => c.field = part).length = 1) &&
        arePatterns plain kind part children
    | none => (kind = .identifier || kind = .shorthandPropertyIdentifierPattern) && children.isEmpty

def arePatterns (plain : Bool) (kind : Kind) (part : Option Field) : List Node → Bool
  | [] => true
  | n :: rest =>
    (if n.field = part then (part.isNone && n.isBare) || n.isPattern plain
      else n.isBare || (part.isSome && !plain && kind.isAside n.field)) &&
      arePatterns plain kind part rest

end

theorem Node.isBare_iff {n : Node} : n.isBare ↔ ∀ m ∈ n.preorder, m.kind.isName = false := by
  simp [Node.isBare]

theorem Node.isBare_of_mem {n c : Node} (h : n.isBare) (hc : c ∈ n.children) : c.isBare :=
  isBare_iff.mpr fun m hm => isBare_iff.mp h m (mem_preorder_of_mem hc hm)

theorem Node.isBare_of_mem_preorder {n m : Node} (h : n.isBare) (hm : m ∈ n.preorder) : m.isBare :=
  isBare_iff.mpr fun _ hk => isBare_iff.mp h _ (mem_preorder_trans hm hk)

theorem targetsIn_eq (kind : Kind) (ns : List Node) :
    targetsIn kind ns = ns.flatMap fun n => if kind.isAside n.field then [] else n.targets := by
  induction ns with
  | nil => rfl
  | cons n ns ih => simp [targetsIn, ih]

theorem arePatterns_iff {plain : Bool} {kind : Kind} {part : Option Field} {ns : List Node} :
    arePatterns plain kind part ns ↔ ∀ n ∈ ns,
      if n.field = part then (part = none ∧ n.isBare) ∨ n.isPattern plain
      else n.isBare ∨ part.isSome ∧ plain = false ∧ kind.isAside n.field := by
  induction ns with
  | nil => simp [arePatterns]
  | cons n ns ih =>
    rw [arePatterns, Bool.and_eq_true, ih, List.forall_mem_cons]
    refine and_congr_left' ?_
    split <;> simp [and_assoc]

section Equations

variable {n : Node}

theorem Node.targets_of_name (h : n.kind = .identifier ∨ n.kind = .shorthandPropertyIdentifierPattern) :
    n.targets = [n] := by
  cases n
  rw [Node.targets, if_pos h]

theorem Node.targets_of_not_name
    (h : ¬ (n.kind = .identifier ∨ n.kind = .shorthandPropertyIdentifierPattern)) :
    n.targets = n.children.flatMap fun c => if n.kind.isAside c.field then [] else c.targets := by
  rw [← targetsIn_eq]
  cases n
  rw [Node.targets, if_neg h]

theorem Node.bound_of_name (h : n.kind = .identifier ∨ n.kind = .shorthandPropertyIdentifierPattern) :
    n.bound = [n] := by
  obtain ⟨kind, field, span, children⟩ := n
  rcases h with rfl | rfl <;> rfl

theorem Node.bound_of_group (h : n.kind.targetPart? = some none) :
    n.bound = n.children.flatMap Node.bound := by
  rw [← boundInAll_eq]
  obtain ⟨kind, field, span, children⟩ := n
  cases kind <;> first | rfl | exact absurd h (by simp [Kind.targetPart?])

theorem Node.bound_of_part {f : Field} (h : n.kind.targetPart? = some (some f)) :
    n.bound = (n.child? f).elim [] Node.bound := by
  rw [Node.child?, ← boundInPart_eq]
  obtain ⟨kind, field, span, children⟩ := n
  cases kind <;> simp [Kind.targetPart?] at h <;> subst h <;> rfl

theorem Node.bound_of_other (hpart : n.kind.targetPart? = none)
    (hname : ¬ (n.kind = .identifier ∨ n.kind = .shorthandPropertyIdentifierPattern)) : n.bound = [] := by
  obtain ⟨kind, field, span, children⟩ := n
  cases kind <;> first | rfl | simp [Kind.targetPart?] at hpart hname

end Equations

theorem Node.mem_preorder_of_mem_bound {n m : Node} (h : m ∈ n.bound) : m ∈ n.preorder := by
  induction n using Node.treeInduction with
  | node n ih =>
    by_cases hname : n.kind = .identifier ∨ n.kind = .shorthandPropertyIdentifierPattern
    · rw [bound_of_name hname, List.mem_singleton] at h
      exact h ▸ n.self_mem_preorder
    · cases hpart : n.kind.targetPart? with
      | none => simp [bound_of_other hpart hname] at h
      | some part =>
        cases part with
        | none =>
          rw [bound_of_group hpart, List.mem_flatMap] at h
          obtain ⟨c, hc, h⟩ := h
          exact mem_preorder_of_mem hc (ih c hc h)
        | some f =>
          rw [bound_of_part hpart] at h
          cases hc : n.child? f with
          | none => simp [hc] at h
          | some c =>
            rw [hc] at h
            exact mem_preorder_of_mem (mem_of_child? hc) (ih c (mem_of_child? hc) h)

theorem Node.not_name_of_isBare {n : Node} (h : n.isBare) :
    ¬ (n.kind = .identifier ∨ n.kind = .shorthandPropertyIdentifierPattern) := by
  have hname := isBare_iff.mp h n n.self_mem_preorder
  rintro (hk | hk) <;> simp [hk, Kind.isName] at hname

theorem Node.targets_of_isBare {n : Node} (h : n.isBare) : n.targets = [] := by
  induction n using Node.treeInduction with
  | node n ih =>
    rw [targets_of_not_name (not_name_of_isBare h), List.flatMap_eq_nil_iff]
    intro c hc
    rw [ih c hc (isBare_of_mem h hc), ite_self]

theorem Node.bound_of_isBare {n : Node} (h : n.isBare) : n.bound = [] := by
  induction n using Node.treeInduction with
  | node n ih =>
    cases hpart : n.kind.targetPart? with
    | none => exact bound_of_other hpart (not_name_of_isBare h)
    | some part =>
      cases part with
      | none =>
        rw [bound_of_group hpart, List.flatMap_eq_nil_iff]
        exact fun c hc => ih c hc (isBare_of_mem h hc)
      | some f =>
        rw [bound_of_part hpart]
        cases hc : n.child? f with
        | none => rfl
        | some c => exact ih c (mem_of_child? hc) (isBare_of_mem h (mem_of_child? hc))

theorem Kind.not_isAside_of_targetPart? {kind : Kind} {part : Option Field}
    (h : kind.targetPart? = some part) : kind.isAside part = false := by
  cases kind <;> simp [targetPart?] at h <;> subst h <;> rfl

theorem Kind.not_name_of_targetPart? {kind : Kind} {part : Option Field}
    (h : kind.targetPart? = some part) :
    ¬ (kind = .identifier ∨ kind = .shorthandPropertyIdentifierPattern) := by
  rintro (rfl | rfl) <;> simp [targetPart?] at h

theorem Node.isPattern_of_part {plain : Bool} {n : Node} {part : Option Field}
    (hpart : n.kind.targetPart? = some part) (h : n.isPattern plain) :
    (part = none ∨ ∃ c, n.children.filter (fun c => c.field = part) = [c]) ∧
      ∀ c ∈ n.children,
        if c.field = part then (part = none ∧ c.isBare) ∨ c.isPattern plain
        else c.isBare ∨ part.isSome ∧ plain = false ∧ n.kind.isAside c.field := by
  rw [← arePatterns_iff, ← List.length_eq_one_iff]
  obtain ⟨kind, field, span, children⟩ := n
  simpa [Node.isPattern, hpart] using h

theorem Node.isPattern_of_not_part {plain : Bool} {n : Node} (hpart : n.kind.targetPart? = none)
    (h : n.isPattern plain) :
    (n.kind = .identifier ∨ n.kind = .shorthandPropertyIdentifierPattern) ∧ n.children = [] := by
  obtain ⟨kind, field, span, children⟩ := n
  simpa [Node.isPattern, hpart] using h

theorem Node.bound_eq_targets {plain : Bool} {n : Node} (h : n.isPattern plain) : n.bound = n.targets := by
  induction n using Node.treeInduction with
  | node n ih =>
    cases hpart : n.kind.targetPart? with
    | none =>
      have hname := (isPattern_of_not_part hpart h).1
      rw [bound_of_name hname, targets_of_name hname]
    | some part =>
      obtain ⟨hone, hall⟩ := isPattern_of_part hpart h
      have haside := Kind.not_isAside_of_targetPart? hpart
      -- Only the children in the part of the targets bind names.
      have htargets : n.targets =
          n.children.flatMap fun c => if c.field = part then c.bound else [] := by
        rw [targets_of_not_name (Kind.not_name_of_targetPart? hpart)]
        refine List.flatMap_congr fun c hc => ?_
        have hcase := hall c hc
        by_cases hf : c.field = part
        · rw [if_pos hf, hf, haside]
          rw [if_pos hf] at hcase
          rcases hcase with ⟨-, hbare⟩ | hpattern
          · simp [targets_of_isBare hbare, bound_of_isBare hbare]
          · simp [ih c hc hpattern]
        · rw [if_neg hf]
          rw [if_neg hf] at hcase
          rcases hcase with hbare | ⟨-, -, hskipped⟩
          · simp [targets_of_isBare hbare]
          · simp [hskipped]
      rw [htargets]
      cases part with
      | none =>
        rw [bound_of_group hpart]
        refine List.flatMap_congr fun c hc => ?_
        split
        · rfl
        · next hf =>
          have hcase := hall c hc
          rw [if_neg hf] at hcase
          exact bound_of_isBare (by simpa using hcase)
      | some f =>
        obtain ⟨c, hc⟩ := hone.resolve_left (by simp)
        rw [bound_of_part hpart, Node.child?, ← List.head?_filter, hc]
        have hfilter := flatMap_filter (fun c => decide (c.field = some f)) Node.bound n.children
        simp only [decide_eq_true_eq] at hfilter
        rw [← hfilter, hc]
        simp

theorem Node.mem_targets_of_isPlain {n m : Node} (h : n.isPattern true) (hm : m ∈ n.preorder)
    (hname : m.kind.isName) : m ∈ n.targets := by
  induction n using Node.treeInduction with
  | node n ih =>
    cases hpart : n.kind.targetPart? with
    | none =>
      obtain ⟨hkind, hleaf⟩ := isPattern_of_not_part hpart h
      rw [n.preorder_eq, hleaf] at hm
      simpa [targets_of_name hkind] using hm
    | some part =>
      obtain ⟨-, hall⟩ := isPattern_of_part hpart h
      rw [targets_of_not_name (Kind.not_name_of_targetPart? hpart), List.mem_flatMap]
      rw [n.preorder_eq, List.mem_cons, List.mem_flatMap] at hm
      rcases hm with rfl | ⟨c, hc, hm⟩
      · cases hk : m.kind <;> simp [hk, Kind.targetPart?, Kind.isName] at hpart hname
      have hnotBare : ¬ c.isBare := fun hbare => by simp [isBare_iff.mp hbare m hm] at hname
      have hcase := hall c hc
      by_cases hf : c.field = part
      · rw [if_pos hf] at hcase
        have hpattern := hcase.resolve_left fun hbare => hnotBare hbare.2
        refine ⟨c, hc, ?_⟩
        rw [hf, Kind.not_isAside_of_targetPart? hpart]
        simpa using ih c hc hpattern hm
      · rw [if_neg hf] at hcase
        exact absurd (hcase.resolve_right (by simp)) hnotBare

end ComponentDoc.Script
