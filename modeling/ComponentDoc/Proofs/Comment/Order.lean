import ComponentDoc.Comment.Index
import ComponentDoc.Proofs.Span
import Mathlib.Data.List.GetD

/-!
The blocks of comments in their order. Main statement: where the comments of a script stand one after
another, so do the blocks, and searching the ends of the blocks by halves finds the last block that ends
before an offset.
-/

namespace ComponentDoc

open Script

namespace CommentIndex

variable {s : Source} {b : CommentBlock} {index : CommentIndex}

def CommentsAscend (s : Source) : Prop := Span.Ascending ((comments s.root).map (·.span))

instance (s : Source) : Decidable (CommentsAscend s) := inferInstanceAs (Decidable (Span.Ascending _))

theorem start_of_mem_blocksFrom {ns : List Node} {b' : CommentBlock} (h : b' ∈ blocksFrom s b ns) :
    b'.span.start = b.span.start ∨ ∃ n ∈ ns, b'.span.start = n.span.start := by
  induction ns generalizing b with
  | nil =>
    rw [List.mem_singleton.mp h]
    exact .inl rfl
  | cons n ns ih =>
    rw [blocksFrom] at h
    split at h
    · rcases ih h with hb | ⟨m, hm, hstart⟩
      · exact .inl hb
      · exact .inr ⟨m, List.mem_cons_of_mem _ hm, hstart⟩
    · rcases List.mem_cons.mp h with rfl | h
      · exact .inl rfl
      · rcases ih h with hb | ⟨m, hm, hstart⟩
        · exact .inr ⟨n, List.mem_cons_self, hb⟩
        · exact .inr ⟨m, List.mem_cons_of_mem _ hm, hstart⟩

theorem blocksFrom_ascending {ns : List Node} (h : Span.Ascending (b.span :: ns.map (·.span))) :
    Span.Ascending ((blocksFrom s b ns).map (·.span)) := by
  induction ns generalizing b with
  | nil => exact h
  | cons n ns ih =>
    rw [List.map_cons, Span.ascending_cons_iff, Span.ascending_cons_iff] at h
    obtain ⟨hb, hnext, hn, hrest, hns⟩ := h
    have hbn := hnext n.span List.mem_cons_self
    rw [blocksFrom]
    split
    · exact ih (Span.ascending_cons_iff.mpr ⟨Nat.le_trans hb (Nat.le_trans hbn hn), hrest, hns⟩)
    · rw [List.map_cons, Span.ascending_cons_iff]
      refine ⟨hb, fun p hp => ?_, ih (Span.ascending_cons_iff.mpr ⟨hn, hrest, hns⟩)⟩
      -- A later block starts where one of the comments after `b` does.
      obtain ⟨b', hb', rfl⟩ := List.mem_map.mp hp
      rcases start_of_mem_blocksFrom hb' with hstart | ⟨m, hm, hstart⟩
      · exact hstart ▸ hbn
      · exact hstart ▸ hnext m.span (List.mem_cons_of_mem _ (List.mem_map_of_mem hm))

theorem blocks_ascending (h : CommentsAscend s) : Span.Ascending ((blocks s (comments s.root)).map (·.span)) := by
  unfold CommentsAscend at h
  cases hc : comments s.root with
  | nil => exact ⟨by simp [blocks], by simp [blocks]⟩
  | cons n ns =>
    rw [hc] at h
    exact blocksFrom_ascending h

theorem inOrder_eq_self (h : Span.Ascending (index.map (·.span))) : inOrder index = index := by
  induction index with
  | nil => rfl
  | cons b index ih =>
    obtain ⟨hb, hnext, hrest⟩ := Span.ascending_cons_iff.mp h
    rw [inOrder, List.foldr_cons]
    change place b (inOrder index) = _
    rw [ih hrest]
    cases index with
    | nil => rfl
    | cons b' index => exact if_pos (Nat.le_trans hb (hnext b'.span List.mem_cons_self))

theorem ofSource_ascending (h : CommentsAscend s) : Span.Ascending ((ofSource s).map (·.span)) := by
  rw [ofSource, inOrder_eq_self (blocks_ascending h)]
  exact blocks_ascending h

theorem upperBound_parts {ends : List Nat} {x low high : Nat} (hs : ends.Pairwise (· ≤ ·)) (hle : low ≤ high)
    (hhigh : high ≤ ends.length) (hbelow : ∀ i (h : i < ends.length), i < low → ends[i] ≤ x)
    (habove : ∀ i (h : i < ends.length), high ≤ i → x < ends[i]) :
    upperBound ends x low high ≤ ends.length ∧
      (∀ i (h : i < ends.length), i < upperBound ends x low high → ends[i] ≤ x) ∧
      ∀ i (h : i < ends.length), upperBound ends x low high ≤ i → x < ends[i] := by
  fun_induction upperBound ends x low high with
  | case1 low high hlt mid hx ih =>
    have hmid : mid < ends.length := by omega
    rw [List.getD_eq_getElem _ _ hmid] at hx
    exact ih (by omega) (by omega) hbelow fun i hi hmi => Nat.lt_of_lt_of_le hx (Span.getElem_le_getElem hs hmi hi)
  | case2 low high hlt mid hx ih =>
    have hmid : mid < ends.length := by omega
    rw [List.getD_eq_getElem _ _ hmid, Nat.not_lt] at hx
    exact ih (by omega) hhigh (fun i hi hmi => Nat.le_trans (Span.getElem_le_getElem hs (by omega) hmid) hx) habove
  | case3 low high hlt =>
    obtain rfl : low = high := by omega
    exact ⟨hhigh, hbelow, habove⟩

def IsLastBefore (index : CommentIndex) (start : Nat) (b : CommentBlock) : Prop :=
  b.span.stop ≤ start ∧ ∃ before after, index = before ++ b :: after ∧ ∀ b' ∈ after, start < b'.span.stop

theorem IsLastBefore.at_stop {start : Nat} (h : IsLastBefore index start b) :
    IsLastBefore index b.span.stop b := by
  obtain ⟨hstop, before, after, hindex, hafter⟩ := h
  exact ⟨Nat.le_refl _, before, after, hindex, fun b' hb' => Nat.lt_of_le_of_lt hstop (hafter b' hb')⟩

theorem lastBefore?_eq_some_iff (h : Span.Ascending (index.map (·.span))) {start : Nat} :
    index.lastBefore? start = some b ↔ IsLastBefore index start b := by
  have hs : (index.map fun b => b.span.stop).Pairwise (· ≤ ·) := by
    simpa only [List.map_map, Function.comp_def] using h.pairwise_stop
  have hlength : (index.map fun b => b.span.stop).length = index.length := List.length_map _
  obtain ⟨hle, hbelow, habove⟩ :=
    upperBound_parts (x := start) hs (Nat.zero_le index.length) (Nat.le_of_eq hlength.symm)
    (fun i _ hi => absurd hi (Nat.not_lt_zero i)) (fun i hi hge => by omega)
  unfold lastBefore?
  generalize upperBound (index.map fun b => b.span.stop) start 0 index.length = bound at *
  simp only [hlength, List.getElem_map] at hle hbelow habove
  constructor
  · intro hb
    cases bound with
    | zero => simp at hb
    | succ i =>
      obtain ⟨hi, rfl⟩ := List.getElem?_eq_some_iff.mp hb
      refine ⟨hbelow i hi (Nat.lt_succ_self i), List.take i index, List.drop (i + 1) index, ?_, fun b' hb' => ?_⟩
      · rw [List.getElem_cons_drop, List.take_append_drop]
      · obtain ⟨j, hj, rfl⟩ := List.mem_iff_getElem.mp hb'
        rw [List.getElem_drop]
        exact habove (i + 1 + j) (by rw [List.length_drop] at hj; omega) (Nat.le_add_right _ _)
  · rintro ⟨hstop, before, after, rfl, hafter⟩
    have hbound : bound = before.length + 1 := by
      have hlt : before.length < bound := by
        refine Nat.lt_of_not_le fun hge => ?_
        have hmore := habove before.length (by simp) hge
        simp only [List.getElem_append_right, Nat.le_refl, Nat.sub_self, List.getElem_cons_zero] at hmore
        exact absurd hstop (Nat.not_le_of_lt hmore)
      rcases Nat.eq_or_lt_of_le hlt with heq | hlt
      · exact heq.symm
      · have hlt' : before.length + 1 < (before ++ b :: after).length := by omega
        have hless := hbelow (before.length + 1) hlt' hlt
        have hmem : (before ++ b :: after)[before.length + 1] ∈ after := by
          simp
        exact absurd hless (Nat.not_le_of_lt (hafter _ hmem))
    rw [hbound]
    simp

end CommentIndex

end ComponentDoc
