import ComponentDoc.Proofs.Script.Regular
import ComponentDoc.Script.Parse
import Mathlib.Data.List.FinRange
import Mathlib.Data.List.Lex
import Mathlib.Logic.Function.Iterate

namespace ComponentDoc.Script

/-- A walk under way: the nodes met so far, and the stack of nodes to come, with the next one at the end. -/
@[ext]
structure Traversal where
  met : List Node
  stack : List Node

namespace Traversal

def start (n : Node) : Traversal := ⟨[], [n]⟩

/-- One round: the last node of the stack is met, and its children take its place, the last child first. -/
def step (t : Traversal) : Traversal :=
  match t.stack.getLast? with
  | none => t
  | some n => ⟨t.met ++ [n], t.stack.dropLast ++ n.children.reverse⟩

def pending (t : Traversal) : List Node := walkFrom t.stack.reverse

theorem pending_start (n : Node) : (start n).pending = walk n := rfl

theorem step_concat (met stack : List Node) (n : Node) :
    step ⟨met, stack ++ [n]⟩ = ⟨met ++ [n], stack ++ n.children.reverse⟩ := by
  simp [step]

theorem pending_concat (met stack : List Node) (n : Node) :
    pending ⟨met, stack ++ [n]⟩ = n :: pending ⟨met ++ [n], stack ++ n.children.reverse⟩ := by
  simp [pending, walkFrom]

theorem pending_eq_nil_iff {t : Traversal} : t.pending = [] ↔ t.stack = [] := by
  obtain ⟨met, stack⟩ := t
  cases stack using List.reverseRecOn with
  | nil => simp [pending, walkFrom]
  | append_singleton stack n => simp [pending_concat]

theorem step_spec (t : Traversal) : t.step.met = t.met ++ t.pending.take 1 ∧ t.step.pending = t.pending.drop 1 := by
  obtain ⟨met, stack⟩ := t
  cases stack using List.reverseRecOn with
  | nil => simp [step, pending, walkFrom]
  | append_singleton stack n => simp [step_concat, pending_concat]

theorem iterate_step (t : Traversal) (k : Nat) :
    (step^[k] t).met = t.met ++ t.pending.take k ∧ (step^[k] t).pending = t.pending.drop k := by
  induction k with
  | zero => simp
  | succ k ih =>
    obtain ⟨hmet, hpending⟩ := ih
    obtain ⟨hmet', hpending'⟩ := (step^[k] t).step_spec
    rw [Function.iterate_succ_apply', hmet', hpending', hmet, hpending]
    constructor
    · rw [List.append_assoc, ← List.take_add]
    · rw [List.drop_drop]

end Traversal

theorem length_walkFrom (pending : List Node) : (walkFrom pending).length = countAll pending := by
  fun_induction walkFrom pending with
  | case1 => rfl
  | case2 n rest ih =>
    have hcount : n.count = countAll n.children + 1 := by cases n; rfl
    rw [countAll_append] at ih
    simp only [List.length_cons, countAll]
    omega

theorem length_walk (n : Node) : (walk n).length = n.count := by
  rw [walk, length_walkFrom, countAll, countAll, Nat.add_zero]

theorem walk_eq (n : Node) : walk n = n :: n.children.flatMap walk := by
  have hwalk : walk = Node.preorder := by
    funext m
    exact walk_eq_preorder m
  rw [hwalk, ← n.preorder_eq]

/-- The node at a place of the tree, which the numbers of the children on the way to it tell. -/
def Node.at? : Node → List Nat → Option Node
  | n, [] => some n
  | n, i :: place => n.children[i]?.bind fun c => c.at? place

/-- The nodes are those at the places of the tree, each place once. They stand in the order of places, in which a
place comes before all below it. -/
structure Node.Enumerated (n : Node) (nodes : List Node) (places : List (List Nat)) : Prop where
  ascending : places.Pairwise (· < ·)
  complete : ∀ place, place ∈ places ↔ (n.at? place).isSome
  met : places.map n.at? = nodes.map some

section Enumerated

variable {n : Node} {below : Fin n.children.length → List (List Nat)}
  (h : ∀ i, (n.children.get i).Enumerated (walk (n.children.get i)) (below i))

include h

theorem mem_below_iff {i : Nat} {place : List Nat} :
    i :: place ∈ (List.finRange _).flatMap (fun i => (below i).map (i.val :: ·)) ↔ (n.at? (i :: place)).isSome := by
  simp only [List.mem_flatMap, List.mem_finRange, true_and, List.mem_map, List.cons.injEq, (h _).complete, Node.at?]
  constructor
  · rintro ⟨j, place, hplace, rfl, rfl⟩
    simpa using hplace
  · intro hplace
    obtain ⟨m, hm⟩ := Option.isSome_iff_exists.mp hplace
    obtain ⟨c, hc, hm⟩ := Option.bind_eq_some_iff.mp hm
    obtain ⟨hi, rfl⟩ := List.getElem?_eq_some_iff.mp hc
    exact ⟨⟨i, hi⟩, place, Option.isSome_of_eq_some hm, rfl, rfl⟩

theorem enumerated_node :
    n.Enumerated (walk n) ([] :: (List.finRange _).flatMap fun i => (below i).map (i.val :: ·)) where
  ascending := by
    rw [List.pairwise_cons, List.pairwise_flatMap]
    refine ⟨?_, ?_, ?_⟩
    · intro place hplace
      obtain ⟨i, -, hplace⟩ := List.mem_flatMap.mp hplace
      obtain ⟨rest, -, rfl⟩ := List.mem_map.mp hplace
      exact List.nil_lt_cons _ _
    · intro i _
      apply List.pairwise_map.mpr
      exact (h i).ascending.imp fun hlt => List.cons_lt_cons_iff.mpr (.inr ⟨rfl, hlt⟩)
    · apply (List.pairwise_lt_finRange _).imp
      intro i j hij p hp q hq
      obtain ⟨p, -, rfl⟩ := List.mem_map.mp hp
      obtain ⟨q, -, rfl⟩ := List.mem_map.mp hq
      exact List.cons_lt_cons_iff.mpr (.inl hij)
  complete := by
    intro place
    cases place with
    | nil => simp [Node.at?]
    | cons i place => rw [List.mem_cons, or_iff_right (List.cons_ne_nil i place), mem_below_iff h]
  met := by
    have hchild (i : Fin n.children.length) :
        ((below i).map (i.val :: ·)).map n.at? = (walk (n.children.get i)).map some := by
      rw [← (h i).met, List.map_map]
      apply List.map_congr_left
      intro place _
      simp [Node.at?]
    have hchildren : n.children.flatMap walk = (List.finRange _).flatMap fun i => walk (n.children.get i) := by
      conv_lhs => rw [← List.map_get_finRange n.children, List.flatMap_map]
    rw [walk_eq, hchildren, List.map_cons, List.map_cons, List.map_flatMap, List.map_flatMap]
    simp only [hchild, Node.at?]

end Enumerated

theorem exists_enumerated (n : Node) : ∃ places, n.Enumerated (walk n) places := by
  induction n using Node.treeInduction with
  | node n ih =>
    choose below h using fun i : Fin n.children.length => ih _ (n.children.get_mem i)
    exact ⟨_, enumerated_node h⟩

namespace Node.Nested

variable {n m : Node}

theorem child {c : Node} (h : n.Nested) (hc : c ∈ n.children) : c.Nested := by
  intro m hm
  exact h m (mem_preorder_of_mem hc hm)

theorem start_le_stop (h : n.Nested) (hspan : n.span.start ≤ n.span.stop) (hm : m ∈ n.preorder) :
    m.span.start ≤ n.span.stop := by
  induction n using Node.treeInduction with
  | node n ih =>
    rw [n.preorder_eq, List.mem_cons, List.mem_flatMap] at hm
    rcases hm with rfl | ⟨c, hc, hm⟩
    · exact hspan
    · obtain ⟨hascending, hwithin⟩ := h n n.self_mem_preorder
      have hchild := hascending.start_le_stop c.span (List.mem_map_of_mem hc)
      exact Nat.le_trans (ih c hc (h.child hc) hchild hm) (hwithin c hc).2

theorem sorted_starts (h : n.Nested) : (n.preorder.map fun m => m.span.start).Pairwise (· ≤ ·) := by
  induction n using Node.treeInduction with
  | node n ih =>
    have hascending := (h n n.self_mem_preorder).1
    rw [List.pairwise_map, n.preorder_eq, List.pairwise_cons, List.pairwise_flatMap]
    refine ⟨?_, ?_, ?_⟩
    · intro m hm
      exact (h.within n.self_mem_preorder (n.preorder_eq ▸ List.mem_cons_of_mem n hm)).1
    · intro c hc
      exact List.pairwise_map.mp (ih c hc (h.child hc))
    · apply (h.apart n.self_mem_preorder).imp_of_mem
      intro c d hc _ hcd m hm k hk
      have hspan := hascending.start_le_stop c.span (List.mem_map_of_mem hc)
      exact Nat.le_trans ((h.child hc).start_le_stop hspan hm) (hcd k hk)

end Node.Nested

/-- The rounds end with as many as there are nodes, and have then met the node and after it what is met in each of
its children: all places, each once, and from left to right if the tree is nested. -/
theorem walk_exact (n : Node) :
    (∀ k < n.count, (Traversal.step^[k] (.start n)).stack ≠ []) ∧
      Traversal.step^[n.count] (.start n) = ⟨walk n, []⟩ ∧
      walk n = n :: n.children.flatMap walk ∧
      (∃ places, n.Enumerated (walk n) places) ∧
      (n.Nested → ((walk n).map fun m => m.span.start).Pairwise (· ≤ ·)) := by
  refine ⟨?_, ?_, walk_eq n, exists_enumerated n, ?_⟩
  · intro k hk
    rw [ne_eq, ← Traversal.pending_eq_nil_iff, (Traversal.iterate_step _ k).2, Traversal.pending_start,
      List.drop_eq_nil_iff, length_walk]
    omega
  · obtain ⟨hmet, hpending⟩ := Traversal.iterate_step (.start n) n.count
    rw [Traversal.pending_start, ← length_walk] at hmet hpending
    rw [List.take_length] at hmet
    rw [List.drop_length, Traversal.pending_eq_nil_iff] at hpending
    rw [← length_walk]
    exact Traversal.ext hmet hpending
  · intro h
    rw [walk_eq_preorder]
    exact h.sorted_starts

theorem walk_exact_commented_call :
    ∃ s, parse "f(a, /* b */ g(c)) // d".toList 0 none = .ok s ∧ s.root.Nested ∧
      (walk s.root).map (fun m => m.span.start) = [0, 0, 0, 0, 1, 2, 5, 13, 13, 14, 15, 19] ∧
      ((walk s.root).map fun m => m.span.start).Pairwise (· ≤ ·) := by
  have hread : (parse "f(a, /* b */ g(c)) // d".toList 0 none).toOption.any fun s => s.root.Nested ∧
      (walk s.root).map (fun m => m.span.start) = [0, 0, 0, 0, 1, 2, 5, 13, 13, 14, 15, 19] := by
    decide +kernel
  obtain ⟨s, hparse, hread⟩ := exists_ok_of_any hread
  obtain ⟨hnested, hstarts⟩ := of_decide_eq_true hread
  exact ⟨s, hparse, hnested, hstarts, (walk_exact s.root).2.2.2.2 hnested⟩

end ComponentDoc.Script
