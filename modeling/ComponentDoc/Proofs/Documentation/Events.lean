import ComponentDoc.Proofs.Documentation.Merging
import Mathlib

/-!
The events of a documentation. Main statement: the events of the script and of the markup together stand in
document order, each name once, with the place and the parent of its earliest occurrence and what the earliest
comment on one of its occurrences says.
-/

namespace ComponentDoc

open scoped List

namespace Item

variable {α : Type}

inductive Earliest (items : List (Item α)) (p : Item α → Prop) (i : Item α) : Prop
  | mk (before after : List (Item α)) (split : items = before ++ i :: after) (holds : p i)
      (before_start : ∀ j ∈ before, p j → i.start < j.start) (start_after : ∀ j ∈ after, p j → i.start ≤ j.start)

inductive MergedFrom (occurrences : List (Item α)) (x : Item α) : Prop
  | commented (first c : Item α) (earliest : Earliest occurrences (fun i => i.name = x.name) first)
      (comment : Earliest occurrences (fun i => i.name = x.name ∧ i.keywords.isSome) c)
      (eq : x = first.withCommentOf c)
  | uncommented (earliest : Earliest occurrences (fun i => i.name = x.name) x)
      (silent : ∀ o ∈ occurrences, o.name = x.name → o.keywords = none)

/-- The occurrences of all names, merged in document order. -/
structure MergedInOrder (occurrences merged : List (Item α)) : Prop where
  nodup : (merged.map (·.name)).Nodup
  names : ∀ name, name ∈ merged.map (·.name) ↔ name ∈ occurrences.map (·.name)
  ordered : (merged.map start).Pairwise (· ≤ ·)
  entries : ∀ x ∈ merged, MergedFrom occurrences x

def sorted (items : List (Item α)) : List (Item α) := items.mergeSort fun a b => a.start ≤ b.start

theorem start_le_trans (a b c : Item α) (hab : decide (a.start ≤ b.start) = true)
    (hbc : decide (b.start ≤ c.start) = true) : decide (a.start ≤ c.start) = true := by
  simp only [decide_eq_true_eq] at *
  omega

theorem start_le_total (a b : Item α) : (decide (a.start ≤ b.start) || decide (b.start ≤ a.start)) = true := by
  simp only [Bool.or_eq_true, decide_eq_true_eq]
  omega

theorem pairwise_sorted (items : List (Item α)) : (sorted items).Pairwise fun a b => a.start ≤ b.start := by
  have hsorted := List.pairwise_mergeSort start_le_trans start_le_total items
  simpa only [sorted, decide_eq_true_eq] using hsorted

theorem filter_sorted (items : List (Item α)) (n : Nat) :
    (sorted items).filter (fun i => i.start = n) = items.filter fun i => i.start = n := by
  have hties : (items.filter fun i => i.start = n).Pairwise fun a b => decide (a.start ≤ b.start) = true :=
    List.pairwise_of_forall_mem_list fun a ha b hb => by
      simp only [List.mem_filter, decide_eq_true_eq] at ha hb ⊢
      omega
  have hsub : (items.filter fun i => i.start = n) <+ sorted items :=
    List.sublist_mergeSort start_le_trans start_le_total hties List.filter_sublist
  have hkept : (items.filter fun i => i.start = n) <+ (sorted items).filter fun i => i.start = n := by
    simpa only [List.filter_filter, Bool.and_self] using hsub.filter fun i => i.start = n
  exact (hkept.eq_of_length ((List.mergeSort_perm items _).filter _).length_eq.symm).symm

theorem earliest_of_find?_sorted {items : List (Item α)} {p : Item α → Prop} [DecidablePred p] {i : Item α}
    (h : (sorted items).find? p = some i) : Earliest items p i := by
  obtain ⟨hp, front, back, hsplit, hfront⟩ := List.find?_eq_some_iff_append.mp h
  have hnone : ∀ j ∈ front, ¬p j := fun j hj => by simpa using hfront j hj
  have hpi : p i := by simpa using hp
  have hleast : ∀ j ∈ items, p j → i.start ≤ j.start := by
    intro j hj hpj
    have hpairs := pairwise_sorted items
    rw [hsplit, List.pairwise_append, List.pairwise_cons] at hpairs
    have hmem : j ∈ front ++ i :: back := hsplit ▸ List.mem_mergeSort.mpr hj
    obtain hj | hj := List.mem_append.mp hmem
    · exact absurd hpj (hnone j hj)
    · obtain rfl | hj := List.mem_cons.mp hj
      · exact Nat.le_refl _
      · exact hpairs.2.1.1 j hj
  -- Among the items that start at this place the sorted list has its order from the given one.
  have hties : (items.filter fun j => j.start = i.start).filter (fun j => p j) =
      i :: (back.filter fun j => j.start = i.start).filter fun j => p j := by
    have hnil : (front.filter fun j => j.start = i.start).filter (fun j => p j) = [] := by
      rw [List.filter_eq_nil_iff]
      intro j hj
      simpa using hnone j (List.mem_filter.mp hj).1
    rw [← filter_sorted, hsplit, List.filter_append, List.filter_append, hnil, List.nil_append,
      List.filter_cons_of_pos (by simp), List.filter_cons_of_pos (by simpa using hpi)]
  rw [List.filter_filter] at hties
  obtain ⟨before, after, rfl, hbefore, -, -⟩ := List.filter_eq_cons_iff.mp hties
  refine ⟨before, after, rfl, hpi, fun j hj hpj => ?_, fun j hj => hleast j (by simp [hj])⟩
  have hle := hleast j (by simp [hj]) hpj
  have hne : j.start ≠ i.start := fun heq => by simpa [hpj, heq] using hbefore j hj
  omega

theorem lend_start (first later : Item α) : (first.lend later).start = first.start := by
  unfold lend
  split <;> rfl

theorem insert_starts (i : Item α) (items : List (Item α)) :
    (i.insert items).map start <+ items.map start ++ [i.start] := by
  induction items with
  | nil => exact List.Sublist.refl _
  | cons j items ih =>
    rw [insert]
    split
    · rw [List.map_cons, lend_start]
      exact List.sublist_append_left _ _
    · exact ih.cons_cons _

theorem merge_starts (items : List (Item α)) : (merge items).map start <+ items.map start := by
  induction items using List.reverseRecOn with
  | nil => exact List.Sublist.refl _
  | append_singleton items i ih =>
    rw [merge_concat, List.map_append]
    exact (insert_starts i _).trans (ih.append_right _)

theorem mem_names_iff {items : List (Item α)} {name : CodeText} :
    name ∈ items.map (·.name) ↔ (items.find? fun i => i.name = name).isSome := by
  simp [List.find?_isSome]

theorem mergedFrom_of_mem {items : List (Item α)} {x : Item α} (h : x ∈ merge (sorted items)) :
    MergedFrom items x := by
  have hx := find?_name_of_mem (merge_nodup (sorted items)) h
  rw [find?_merge] at hx
  obtain ⟨first, hfirst, hx⟩ := mergedOf?_eq_some_iff.mp hx
  have hearliest := earliest_of_find?_sorted hfirst
  cases hcomment : (sorted items).find? fun i => i.name = x.name ∧ i.keywords.isSome with
  | some c =>
    rw [hcomment] at hx
    exact .commented first c hearliest (earliest_of_find?_sorted hcomment) hx
  | none =>
    rw [hcomment] at hx
    obtain rfl : x = first := hx
    refine .uncommented hearliest fun o ho hname => ?_
    rw [List.find?_eq_none] at hcomment
    simpa [hname] using hcomment o (List.mem_mergeSort.mpr ho)

theorem mergedInOrder_merge_sorted (items : List (Item α)) : MergedInOrder items (merge (sorted items)) where
  nodup := merge_nodup _
  names name := by
    rw [mem_names_iff, find?_merge, mergedOf?, Option.isSome_map, ← mem_names_iff]
    simp only [List.mem_map, sorted, List.mem_mergeSort]
  ordered := by
    refine List.Pairwise.sublist (merge_starts _) ?_
    rw [List.pairwise_map]
    exact pairwise_sorted items
  entries _ := mergedFrom_of_mem

/-- An item without a comment says nothing. -/
def Silent (i : Item α) : Prop := i.keywords = none → i.description = none ∧ i.visibility = .everyone

theorem silent_ofComment (name : CodeText) (loc : Span) (comment : Option Comment) (detail : α) :
    (ofComment name loc comment detail).Silent := by
  cases comment with
  | none => exact fun _ => ⟨rfl, rfl⟩
  | some c => exact nofun

end Item

open Markup

theorem assemble_events (d : Declarations) (c : Candidates) :
    Item.MergedInOrder (d.eventItems ++ c.events) (mergeEvents d.eventItems c.events) ∧
      ((∀ i ∈ c.events, i.Silent) → ∀ i ∈ mergeEvents d.eventItems c.events, i.Silent) ∧
      ∀ version file doc, assemble version file d c = .ok doc → doc.events = mergeEvents d.eventItems c.events := by
  have hmerged := Item.mergedInOrder_merge_sorted (d.eventItems ++ c.events)
  refine ⟨hmerged, fun hc x hx => ?_, fun version file doc h => ?_⟩
  · cases hmerged.entries x hx with
    | commented first c _ comment eq =>
      obtain ⟨_, _, _, ⟨_, hkeywords⟩, _, _⟩ := comment
      intro hnone
      have hnone' : c.keywords = none := by rwa [eq] at hnone
      rw [hnone'] at hkeywords
      simp at hkeywords
    | uncommented earliest _ =>
      obtain ⟨before, after, split, -, -, -⟩ := earliest
      have hmem : x ∈ d.eventItems ++ c.events := split ▸ by simp
      obtain hx | hx := List.mem_append.mp hmem
      · obtain ⟨e, -, rfl⟩ := List.mem_map.mp hx
        exact Item.silent_ofComment _ _ _ _
      · exact hc x hx
  · exact (assemble_eq_ok h).2

theorem assemble_events_of_later_comment :
    let event (name : CodeText) (start : Nat) (comment : Option Comment) (parent : String) : Item Attachment :=
      .ofComment name ⟨start, start + 5⟩ comment ⟨some parent⟩
    let d : Declarations := { Declarations.empty with events := [⟨"reset", ⟨30, 35⟩, none⟩] }
    let comment : Comment := ⟨some "Sets it back", [], none⟩
    let c : Candidates :=
      ⟨[], [event "reset" 50 (some comment) "form", event "click" 10 none "button"], [], [], none⟩
    (∀ i ∈ c.events, i.Silent) ∧ ∃ doc, assemble (.whole 3) .absent d c = .ok doc ∧
      doc.events = mergeEvents d.eventItems c.events ∧ (∀ i ∈ doc.events, i.Silent) ∧
      doc.events.map (fun i => (i.name, i.start, i.description, i.detail.parent)) =
        [(("click" : CodeText), 10, none, some "button"), ("reset", 30, some "Sets it back", none)] := by
  intro event d comment c
  have hsilent : ∀ i ∈ c.events, i.Silent := by
    intro i hi
    simp only [c, List.mem_cons, List.not_mem_nil, or_false] at hi
    obtain rfl | rfl := hi <;> exact Item.silent_ofComment _ _ _ _
  have hevents : (mergeEvents d.eventItems c.events).map (fun i =>
      (i.name, i.start, i.description, i.detail.parent)) =
        [(("click" : CodeText), 10, none, some "button"), ("reset", 30, some "Sets it back", none)] := by
    cbv
  obtain ⟨-, hall, hmerged⟩ := assemble_events d c
  have heq := hmerged (.whole 3) .absent _ rfl
  exact ⟨hsilent, _, rfl, heq, heq ▸ hall hsilent, heq ▸ hevents⟩

end ComponentDoc
