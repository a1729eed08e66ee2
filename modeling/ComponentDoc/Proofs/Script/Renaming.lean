import ComponentDoc.Proofs.Script.FreeNames
import ComponentDoc.Proofs.Script.Scope
import Mathlib.Data.List.Forall2

/-!
Renaming parameters of functions. Two trees are alike if one comes from the other by giving a new name
to a parameter of some functions and to all that refers to it. Main statement: patterns that are alike
bind the same names but for the renamed one.
-/

namespace ComponentDoc.Script

/-- The parameter `old` of some functions gets the name `new`. -/
structure Renaming where
  old : CodeText
  new : CodeText
  owns : Node → Bool

namespace Renaming

variable (r : Renaming)

def apply (active : Bool) (x : CodeText) : CodeText := if active ∧ x = r.old then r.new else x

/-- Whether names in a part of `n` stand for the parameter, if `active` says so for `n` itself. A node
that binds the old name anew hides the parameter, though not from a name of a method, which may be
computed. -/
def inPart (s : Source) (active : Bool) (n : Node) (part : Option Field) : Bool :=
  if active then r.old ∉ s.localNames n || n.kind = .methodDefinition && part = some .name
  else r.owns n && n.kind.opensFunction && part ≠ some .name

def writesOut (parent kind kind' : Kind) : Bool :=
  match parent, kind, kind' with
  | .object, .shorthandPropertyIdentifier, .pair
  | .objectPattern, .shorthandPropertyIdentifierPattern, .pairPattern => true
  | _, _, _ => false

end Renaming

def Node.isIdentifier (s : Source) (x : CodeText) (n : Node) : Bool :=
  n.kind = .identifier && n.children.isEmpty && s.nameOf n = x

def Node.entryValue? (n : Node) : Option Node :=
  match n.children with
  | [key, value] =>
    if key.field = some .key ∧ key.isBare ∧ value.field = some .value then some value else none
  | _ => none

mutual

def Node.alike (s s' : Source) (r : Renaming) (active : Bool) : Node → Node → Bool
  | ⟨kind, field, span, children⟩, n' =>
    kind = n'.kind && field = n'.field &&
      (!(kind.isName || children.isEmpty) ||
        s'.nameOf n' = r.apply (active && kind.isName) (s.nameOf ⟨kind, field, span, children⟩)) &&
      allAlike s s' r (r.inPart s active ⟨kind, field, span, children⟩) kind children n'.children

def allAlike (s s' : Source) (r : Renaming) (active : Option Field → Bool) (parent : Kind) :
    List Node → List Node → Bool
  | [], [] => true
  | n :: rest, n' :: rest' =>
    (n.alike s s' r (active n.field) n' || active n.field && n.writtenOut s s' r parent n') &&
      allAlike s s' r active parent rest rest'
  | _, _ => false

/-- `n'` is the entry `n` of an object or of its pattern written out, with the new name. -/
def Node.writtenOut (s s' : Source) (r : Renaming) (parent : Kind) : Node → Node → Bool
  | ⟨kind, field, span, children⟩, n' =>
    field.isNone && n'.field.isNone && n'.entryValue?.any fun value =>
      if kind = .objectAssignmentPattern then
        parent = .objectPattern && n'.kind = .pairPattern && value.kind = .assignmentPattern &&
          initialAlike s s' r children value.children
      else
        Renaming.writesOut parent kind n'.kind && children.isEmpty &&
          s.nameOf ⟨kind, field, span, children⟩ = r.old && value.isIdentifier s' r.new

/-- As `allAlike` for a name with a default value, where the name is written out. -/
def initialAlike (s s' : Source) (r : Renaming) : List Node → List Node → Bool
  | [], [] => true
  | n :: rest, n' :: rest' =>
    (if n.field = some .left then
        n.kind = .shorthandPropertyIdentifierPattern && n.children.isEmpty && s.nameOf n = r.old &&
          n'.field = some .left && n'.isIdentifier s' r.new
      else n.alike s s' r true n') && initialAlike s s' r rest rest'
  | _, _ => false

end

theorem Renaming.writesOut_iff {parent kind kind' : Kind} : writesOut parent kind kind' ↔
    parent = .object ∧ kind = .shorthandPropertyIdentifier ∧ kind' = .pair ∨
      parent = .objectPattern ∧ kind = .shorthandPropertyIdentifierPattern ∧ kind' = .pairPattern := by
  unfold writesOut
  split
  · simp
  · simp
  · next hobject hpattern =>
    refine iff_of_false (by simp) ?_
    rintro (⟨hp, hk, hk'⟩ | ⟨hp, hk, hk'⟩)
    · exact hobject hp hk hk'
    · exact hpattern hp hk hk'

variable {s s' : Source} {r : Renaming}

theorem Node.isIdentifier_iff {x : CodeText} {n : Node} :
    n.isIdentifier s x ↔ n.kind = .identifier ∧ n.children = [] ∧ s.nameOf n = x := by
  simp [isIdentifier, and_assoc]

section Children

variable (s s' r)

def AlikeChild (active : Option Field → Bool) (parent : Kind) (n n' : Node) : Prop :=
  n.alike s s' r (active n.field) n' ∨ active n.field ∧ n.writtenOut s s' r parent n'

end Children

theorem allAlike_iff {active : Option Field → Bool} {parent : Kind} {ns ns' : List Node} :
    allAlike s s' r active parent ns ns' ↔ List.Forall₂ (AlikeChild s s' r active parent) ns ns' := by
  induction ns generalizing ns' with
  | nil => cases ns' <;> simp [allAlike]
  | cons n ns ih =>
    cases ns' with
    | nil => simp [allAlike]
    | cons n' ns' => simp [allAlike, AlikeChild, ih]

theorem Node.alike_iff {active : Bool} {n n' : Node} : n.alike s s' r active n' ↔
    n.kind = n'.kind ∧ n.field = n'.field ∧
      (n.kind.isName ∨ n.children = [] → s'.nameOf n' = r.apply (active && n.kind.isName) (s.nameOf n)) ∧
      List.Forall₂ (AlikeChild s s' r (r.inPart s active n) n.kind) n.children n'.children := by
  rw [← allAlike_iff]
  obtain ⟨kind, field, span, children⟩ := n
  simp only [alike, Bool.and_eq_true, Bool.or_eq_true, Bool.not_eq_true', decide_eq_true_eq, and_assoc,
    Bool.or_eq_false_iff, List.isEmpty_eq_false_iff]
  refine and_congr_right' (and_congr_right' (and_congr_left' ?_))
  rw [or_iff_not_imp_left, not_and_or]
  simp

theorem Node.writtenOut_iff {parent : Kind} {n n' : Node} : n.writtenOut s s' r parent n' ↔
    n.field = none ∧ n'.field = none ∧ ∃ value, n'.entryValue? = some value ∧
      if n.kind = .objectAssignmentPattern then
        parent = .objectPattern ∧ n'.kind = .pairPattern ∧ value.kind = .assignmentPattern ∧
          initialAlike s s' r n.children value.children
      else
        Renaming.writesOut parent n.kind n'.kind ∧ n.children = [] ∧ s.nameOf n = r.old ∧
          value.isIdentifier s' r.new := by
  obtain ⟨kind, field, span, children⟩ := n
  simp only [writtenOut, Bool.and_eq_true, Option.isNone_iff_eq_none, Option.any_eq_true, and_assoc]
  refine and_congr_right' (and_congr_right' (exists_congr fun value => and_congr_right' ?_))
  split <;> simp [and_assoc]

theorem Node.entryValue?_eq_some_iff {n value : Node} : n.entryValue? = some value ↔
    ∃ key, n.children = [key, value] ∧ key.field = some .key ∧ key.isBare ∧
      value.field = some .value := by
  unfold entryValue?
  split
  · next key v hcs => simp [hcs, and_assoc, and_comm]; grind
  · next hcs =>
    refine iff_of_false (by simp) ?_
    rintro ⟨key, h, -⟩
    exact hcs key value h

theorem initialAlike_iff {ns ns' : List Node} : initialAlike s s' r ns ns' ↔
    List.Forall₂ (fun n n' => if n.field = some .left then
        n.kind = .shorthandPropertyIdentifierPattern ∧ n.children = [] ∧ s.nameOf n = r.old ∧
          n'.field = some .left ∧ n'.isIdentifier s' r.new
      else n.alike s s' r true n') ns ns' := by
  induction ns generalizing ns' with
  | nil => cases ns' <;> simp [initialAlike]
  | cons n ns ih =>
    cases ns' with
    | nil => simp [initialAlike]
    | cons n' ns' =>
      rw [initialAlike, Bool.and_eq_true, ih, List.forall₂_cons]
      refine and_congr_left' ?_
      split <;> simp [and_assoc]

section Children

variable {active : Option Field → Bool} {parent : Kind} {ns ns' : List Node}

theorem flatMap_eq_of_forall₂ {β : Type} {R : Node → Node → Prop} {f f' : Node → List β}
    (h : List.Forall₂ R ns ns') (hf : ∀ n ∈ ns, ∀ n', R n n' → f' n' = f n) :
    ns'.flatMap f' = ns.flatMap f := by
  induction h with
  | nil => rfl
  | @cons n n' ns ns' hR _ ih =>
    rw [List.flatMap_cons, List.flatMap_cons, hf n List.mem_cons_self n' hR,
      ih fun m hm => hf m (List.mem_cons_of_mem _ hm)]

theorem find?_alike (h : List.Forall₂ (AlikeChild s s' r active parent) ns ns') (f : Field) :
    (ns.find? (fun n => n.field = some f) = none ∧ ns'.find? (fun n => n.field = some f) = none) ∨
      ∃ n n', ns.find? (fun n => n.field = some f) = some n ∧
        ns'.find? (fun n => n.field = some f) = some n' ∧ n.alike s s' r (active (some f)) n' := by
  induction h with
  | nil => exact .inl ⟨rfl, rfl⟩
  | @cons n n' ns ns' hchild _ ih =>
    by_cases hf : n.field = some f
    · have halike : n.alike s s' r (active (some f)) n' := by
        rcases hchild with h | ⟨-, h⟩
        · rwa [hf] at h
        · simp [(Node.writtenOut_iff.mp h).1] at hf
      have hf' : n'.field = some f := (Node.alike_iff.mp halike).2.1 ▸ hf
      exact .inr ⟨n, n', by simp [hf], by simp [hf'], halike⟩
    · have hf' : n'.field ≠ some f := by
        rcases hchild with h | ⟨-, h⟩
        · rwa [(Node.alike_iff.mp h).2.1] at hf
        · simp [(Node.writtenOut_iff.mp h).2.1]
      simpa [hf, hf'] using ih

theorem child?_alike {n n' : Node}
    (h : List.Forall₂ (AlikeChild s s' r active parent) n.children n'.children) (f : Field) :
    (n.child? f = none ∧ n'.child? f = none) ∨
      ∃ c c', n.child? f = some c ∧ n'.child? f = some c' ∧ c.alike s s' r (active (some f)) c' :=
  find?_alike h f

end Children

/-- The names that patterns bind on the two sides of a renaming. -/
def BoundAlike (s s' : Source) (r : Renaming) (active : Bool) (n n' : Node) : Prop :=
  n'.bound.map s'.nameOf = (n.bound.map s.nameOf).map (r.apply active)

theorem boundAlike_of_writtenOut {n n' : Node} (h : n.writtenOut s s' r .objectPattern n') :
    BoundAlike s s' r true n n' := by
  obtain ⟨-, -, value, hentry, h⟩ := Node.writtenOut_iff.mp h
  obtain ⟨key, hcs', hkey, -, hvalue⟩ := Node.entryValue?_eq_some_iff.mp hentry
  have hbound' (hk : n'.kind = .pairPattern) : n'.bound = value.bound := by
    rw [Node.bound_of_part (f := .value) (by rw [hk]; rfl)]
    simp [Node.child?, hcs', hkey, hvalue]
  unfold BoundAlike
  split at h
  · next hk =>
    obtain ⟨-, hk', hpattern, hinitial⟩ := h
    have hleft : n.bound = (n.child? .left).elim [] Node.bound := Node.bound_of_part (by rw [hk]; rfl)
    have hleft' : value.bound = (value.child? .left).elim [] Node.bound :=
      Node.bound_of_part (by rw [hpattern]; rfl)
    rw [hbound' hk', hleft, hleft', Node.child?, Node.child?]
    rw [initialAlike_iff] at hinitial
    generalize n.children = cs at hinitial
    generalize value.children = cs' at hinitial
    induction hinitial with
    | nil => rfl
    | @cons c c' cs cs' hc _ ih =>
      split at hc
      · next hf =>
        obtain ⟨hshort, -, hold, hf', hnew⟩ := hc
        obtain ⟨hid, -, hnew⟩ := Node.isIdentifier_iff.mp hnew
        simp [hf, hf', Node.bound_of_name (.inr hshort), Node.bound_of_name (.inl hid), hold, hnew,
          Renaming.apply]
      · next hf =>
        have hf' : c'.field ≠ some .left := (Node.alike_iff.mp hc).2.1 ▸ hf
        simpa [hf, hf'] using ih
  · obtain ⟨hform, -, hold, hnew⟩ := h
    obtain ⟨hid, -, hnew⟩ := Node.isIdentifier_iff.mp hnew
    obtain ⟨-, hk, hk'⟩ := (Renaming.writesOut_iff.mp hform).resolve_left (by simp)
    rw [hbound' hk', Node.bound_of_name (.inr hk), Node.bound_of_name (.inl hid)]
    simp [hold, hnew, Renaming.apply]

theorem inPart_eq {active : Bool} {n : Node} (h : n.kind.bindsInside = false) (part : Option Field) :
    r.inPart s active n part = active := by
  have hfun : n.kind.opensFunction = false := by
    cases hk : n.kind <;> simp [hk, Kind.opensFunction, Kind.bindsInside] at h ⊢
  unfold Renaming.inPart
  cases active <;> simp [Source.localNames_eq_nil h, hfun]

theorem bound_alike {active : Bool} {n n' : Node} (h : n.alike s s' r active n') :
    BoundAlike s s' r active n n' := by
  induction n using Node.treeInduction generalizing active n' with
  | node n ih =>
    obtain ⟨hkind, -, htext, hchildren⟩ := Node.alike_iff.mp h
    unfold BoundAlike
    by_cases hname : n.kind = .identifier ∨ n.kind = .shorthandPropertyIdentifierPattern
    · have hisName : n.kind.isName := by rcases hname with hk | hk <;> rw [hk] <;> rfl
      rw [Node.bound_of_name hname, Node.bound_of_name (hkind ▸ hname)]
      simp [htext (.inl hisName), hisName]
    cases hpart : n.kind.targetPart? with
    | none =>
      rw [Node.bound_of_other hpart hname, Node.bound_of_other (hkind ▸ hpart) (hkind ▸ hname)]
      rfl
    | some part =>
      have hin (part : Option Field) : r.inPart s active n part = active :=
        inPart_eq (by cases hk : n.kind <;> simp [hk, Kind.targetPart?, Kind.bindsInside] at hpart ⊢) part
      cases part with
      | none =>
        rw [Node.bound_of_group hpart, Node.bound_of_group (hkind ▸ hpart), List.map_flatMap,
          List.map_flatMap, List.map_flatMap]
        refine flatMap_eq_of_forall₂ hchildren fun c hc c' hcc' => ?_
        rcases hcc' with halike | ⟨hactive, hwritten⟩
        · rw [hin] at halike
          exact ih c hc halike
        · have hobject : n.kind = .objectPattern := by
            obtain ⟨-, -, value, -, hform⟩ := Node.writtenOut_iff.mp hwritten
            split at hform
            · exact hform.1
            · rcases Renaming.writesOut_iff.mp hform.1 with ⟨hk, -⟩ | ⟨hk, -⟩
              · simp [hk, Kind.targetPart?] at hpart
              · exact hk
          rw [hin] at hactive
          rw [hobject] at hwritten
          rw [hactive]
          exact boundAlike_of_writtenOut hwritten
      | some f =>
        rw [Node.bound_of_part hpart, Node.bound_of_part (hkind ▸ hpart)]
        rcases child?_alike hchildren f with ⟨hc, hc'⟩ | ⟨c, c', hc, hc', halike⟩
        · simp [hc, hc']
        · rw [hin] at halike
          rw [hc, hc']
          exact ih c (Node.mem_of_child? hc) halike

end ComponentDoc.Script
