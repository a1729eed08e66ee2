import ComponentDoc.Script.Function
import ComponentDoc.Script.Parens
import Mathlib.Data.List.Basic

namespace ComponentDoc.Script

theorem preorderAll_eq (ns : List Node) : preorderAll ns = ns.flatMap Node.preorder := by
  induction ns with
  | nil => rfl
  | cons n ns ih => simp [preorderAll, ih]

theorem Node.preorder_eq (n : Node) : n.preorder = n :: n.children.flatMap Node.preorder := by
  rw [← preorderAll_eq]
  cases n
  rfl

theorem walk_eq_preorder (n : Node) : walk n = n.preorder := by
  rw [walk, walkFrom_eq_preorderAll, preorderAll_eq, List.flatMap_singleton]

theorem Node.self_mem_preorder (n : Node) : n ∈ n.preorder := by
  rw [n.preorder_eq]
  exact List.mem_cons_self

theorem Node.mem_preorder_of_mem {n c m : Node} (hc : c ∈ n.children) (hm : m ∈ c.preorder) :
    m ∈ n.preorder := by
  rw [n.preorder_eq]
  exact List.mem_cons_of_mem _ (List.mem_flatMap.mpr ⟨c, hc, hm⟩)

theorem Node.treeInduction {motive : Node → Prop}
    (node : ∀ n, (∀ c ∈ n.children, motive c) → motive n) (n : Node) : motive n :=
  node n fun c hc =>
    have : sizeOf c < sizeOf n := sizeOf_lt_of_mem hc
    treeInduction node c
termination_by sizeOf n

theorem flatMap_filter {α β : Type} (p : α → Bool) (f : α → List β) (l : List α) :
    (l.filter p).flatMap f = l.flatMap fun a => if p a then f a else [] := by
  induction l with
  | nil => rfl
  | cons a l ih => cases h : p a <;> simp [h, ih]

namespace Node

theorem mem_preorder_trans {n c m : Node} (hc : c ∈ n.preorder) (hm : m ∈ c.preorder) :
    m ∈ n.preorder := by
  induction n using treeInduction with
  | node n ih =>
    rw [n.preorder_eq, List.mem_cons, List.mem_flatMap] at hc
    rcases hc with rfl | ⟨d, hd, hc⟩
    · exact hm
    · exact mem_preorder_of_mem hd (ih d hd hc)

theorem child_mem_preorder {root n c : Node} (hn : n ∈ root.preorder) (hc : c ∈ n.children) :
    c ∈ root.preorder :=
  mem_preorder_trans hn (mem_preorder_of_mem hc c.self_mem_preorder)

theorem mem_part {n c : Node} {f : Field} (h : c ∈ n.part f) : c ∈ n.children ∧ c.field = some f := by
  rw [part, Option.mem_toList] at h
  exact ⟨mem_of_child? h, by simpa using List.find?_some h⟩

theorem mem_preorder_of_mem_part {n c : Node} {f : Field} (h : c ∈ n.part f) : c ∈ n.preorder := by
  rw [part, Option.mem_toList] at h
  exact mem_preorder_of_mem (mem_of_child? h) c.self_mem_preorder

theorem mem_preorder_of_mem_params {n p : Node} (h : p ∈ n.params) : p ∈ n.preorder := by
  unfold params at h
  split at h
  · next hq =>
    obtain rfl := List.mem_singleton.mp h
    exact mem_preorder_of_mem (mem_of_child? hq) p.self_mem_preorder
  · split at h
    · next ps hps =>
      have hmem := mem_of_mem_named (List.mem_filter.mp h).1
      exact mem_preorder_of_mem (mem_of_child? hps) (mem_preorder_of_mem hmem p.self_mem_preorder)
    · simp at h

theorem mem_children_of_initial? {p i : Node} (h : p.initial? = some i) : i ∈ p.children := by
  rw [initial?, Option.or_eq_some_iff] at h
  exact h.elim mem_of_child? fun h => mem_of_child? h.2

theorem part_eq_nil {n : Node} {f : Field} (h : f ∉ n.children.filterMap field) : n.part f = [] := by
  rw [part, Option.toList_eq_nil_iff, child?, List.find?_eq_none]
  intro c hc hf
  exact h (List.mem_filterMap.mpr ⟨c, hc, by simpa using hf⟩)

theorem mem_part_of_nodup {n c : Node} {f : Field} (hparts : (n.children.filterMap field).Nodup) (hc : c ∈ n.children)
    (hf : c.field = some f) : c ∈ n.part f := by
  rw [part, Option.mem_toList, child?]
  generalize n.children = cs at hparts hc
  induction cs with
  | nil => cases hc
  | cons d cs ih =>
    rcases List.mem_cons.mp hc with rfl | hc
    · rw [List.find?_cons_of_pos (by simpa using hf)]
    · have hmem : f ∈ cs.filterMap field := List.mem_filterMap.mpr ⟨c, hc, hf⟩
      cases hd : d.field with
      | none =>
        rw [List.filterMap_cons_none hd] at hparts
        rw [List.find?_cons_of_neg (by simp [hd]), ih hparts hc]
      | some f' =>
        rw [List.filterMap_cons_some hd, List.nodup_cons] at hparts
        have hne : f' ≠ f := fun h => hparts.1 (h ▸ hmem)
        rw [List.find?_cons_of_neg (by simp [hd, hne]), ih hparts.2 hc]

theorem flatMap_children {β : Type} {n : Node} (hparts : (n.children.filterMap field).Nodup)
    {g : Node → List β} (hg : ∀ c ∈ n.children, c.field = none → g c = []) :
    n.children.flatMap g = (n.children.filterMap field).flatMap fun f => (n.part f).flatMap g := by
  simp only [part, child?]
  generalize n.children = cs at hparts hg
  induction cs with
  | nil => rfl
  | cons c cs ih =>
    have hrest := fun d hd => hg d (List.mem_cons_of_mem c hd)
    cases hc : c.field with
    | none =>
      rw [List.filterMap_cons_none hc] at hparts ⊢
      rw [List.flatMap_cons, hg c List.mem_cons_self hc, List.nil_append, ih hparts hrest]
      simp [hc]
    | some f =>
      rw [List.filterMap_cons_some hc, List.nodup_cons] at hparts
      rw [List.filterMap_cons_some hc, List.flatMap_cons, List.flatMap_cons, ih hparts.2 hrest]
      congr 1
      · simp [hc]
      · refine List.flatMap_congr fun f' hf' => ?_
        have hne : f ≠ f' := fun h => hparts.1 (h ▸ hf')
        simp [hc, hne]

theorem mem_preorder_of_withoutParens {n m : Node} (h : n.withoutParens = some m) : m ∈ n.preorder := by
  induction n using Node.treeInduction with
  | node n ih =>
    by_cases hk : n.kind = .parenthesizedExpression
    · have hfirst : n.withoutParens = firstWithoutParens n.children := by
        cases n
        exact if_pos hk
      rw [hfirst, firstWithoutParens_eq, Option.bind_eq_some_iff] at h
      obtain ⟨c, hc, h⟩ := h
      exact Node.mem_preorder_of_mem (List.mem_of_find?_eq_some hc) (ih c (List.mem_of_find?_eq_some hc) h)
    · rw [Node.withoutParens_eq_self hk, Option.some_inj] at h
      exact h ▸ n.self_mem_preorder

end Node

end ComponentDoc.Script
