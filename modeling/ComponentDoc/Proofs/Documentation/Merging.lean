import ComponentDoc.Proofs.Documentation.Uniqueness
import Mathlib.Data.List.Basic
import Mathlib.Data.List.Forall2
import Mathlib.Data.List.Induction
import Mathlib.Data.List.Nodup

namespace ComponentDoc

section FirstOccurrences

variable {κ : Type} [DecidableEq κ]

theorem eraseDups_concat (keys : List κ) (k : κ) :
    (keys ++ [k]).eraseDups = if k ∈ keys then keys.eraseDups else keys.eraseDups ++ [k] := by
  rw [List.eraseDups_append]
  by_cases h : k ∈ keys <;> simp [List.removeAll, h, List.eraseDups_cons]

theorem nodup_eraseDups (keys : List κ) : keys.eraseDups.Nodup := by
  induction keys using List.reverseRecOn with
  | nil => exact List.nodup_nil
  | append_singleton keys k ih =>
    rw [eraseDups_concat]
    split
    · exact ih
    · next hk =>
      rw [← List.concat_eq_append]
      exact ih.concat fun hmem => hk (List.mem_eraseDups.mp hmem)

theorem eraseDups_of_nodup {keys : List κ} (h : keys.Nodup) : keys.eraseDups = keys := by
  induction keys using List.reverseRecOn with
  | nil => rfl
  | append_singleton keys k ih =>
    obtain ⟨hkeys, -, hapart⟩ := List.nodup_append.mp h
    have hk : k ∉ keys := fun hmem => hapart k hmem k List.mem_cons_self rfl
    rw [eraseDups_concat, if_neg hk, ih hkeys]

theorem eraseDups_filter (p : κ → Bool) (keys : List κ) : (keys.filter p).eraseDups = keys.eraseDups.filter p := by
  induction keys using List.reverseRecOn with
  | nil => rfl
  | append_singleton keys k ih =>
    rw [List.filter_append, eraseDups_concat]
    by_cases hp : p k
    · rw [List.filter_cons_of_pos hp, List.filter_nil, eraseDups_concat, ih]
      by_cases hk : k ∈ keys <;> simp [hk, hp]
    · rw [List.filter_cons_of_neg hp, List.filter_nil, List.append_nil, ih]
      split <;> simp [hp]

theorem eraseDups_append_eraseDups (front back : List κ) :
    (front.eraseDups ++ back.eraseDups).eraseDups = (front ++ back).eraseDups := by
  have hsame : back.eraseDups.removeAll front.eraseDups = (back.removeAll front).eraseDups := by
    rw [List.removeAll, List.removeAll, eraseDups_filter]
    exact List.filter_congr fun k _ => by simp
  rw [List.eraseDups_append, List.eraseDups_append, hsame, eraseDups_of_nodup (nodup_eraseDups front),
    eraseDups_of_nodup (nodup_eraseDups _)]

end FirstOccurrences

namespace Item

variable {α : Type}

def withCommentOf (i c : Item α) : Item α :=
  { i with description := c.description, visibility := c.visibility, keywords := c.keywords }

@[simp] theorem withCommentOf_self (i : Item α) : i.withCommentOf i = i := rfl

@[simp] theorem withCommentOf_withCommentOf_left (i c d : Item α) :
    (i.withCommentOf c).withCommentOf d = i.withCommentOf d := rfl

@[simp] theorem withCommentOf_withCommentOf_right (i c d : Item α) :
    i.withCommentOf (c.withCommentOf d) = i.withCommentOf d := rfl

@[simp] theorem withCommentOf_name (i c : Item α) : (i.withCommentOf c).name = i.name := rfl

@[simp] theorem withCommentOf_keywords (i c : Item α) : (i.withCommentOf c).keywords = c.keywords := rfl

def mergedOf? (items : List (Item α)) (name : CodeText) : Option (Item α) :=
  (items.find? fun i => i.name = name).map fun first =>
    first.withCommentOf ((items.find? fun i => i.name = name ∧ i.keywords.isSome).getD first)

theorem merge_concat (items : List (Item α)) (i : Item α) : merge (items ++ [i]) = i.insert (merge items) := by
  simp [merge]

theorem find?_insert (i : Item α) (items : List (Item α)) (name : CodeText) :
    (i.insert items).find? (fun j => j.name = name) =
      if i.name = name then some (((items.find? fun j => j.name = name).map fun j => j.lend i).getD i)
      else items.find? fun j => j.name = name := by
  induction items with
  | nil => by_cases h : i.name = name <;> simp [insert, h]
  | cons j items ih =>
    rw [insert]
    split
    · next hji => by_cases h : i.name = name <;> simp [hji, h, lend_name]
    · next hji =>
      by_cases hj : j.name = name
      · have hi : i.name ≠ name := fun h => hji (hj.trans h.symm)
        simp [hj, hi]
      · simp [hj, ih]

theorem withCommentOf_lend {first c later : Item α} (h : c.keywords.isSome) :
    (first.withCommentOf c).lend later = first.withCommentOf c := by
  obtain ⟨ks, hks⟩ := Option.isSome_iff_exists.mp h
  simp [lend, withCommentOf, hks]

theorem lend_of_uncommented {first : Item α} (h : first.keywords = none) (later : Item α) :
    first.lend later = if later.keywords.isSome then first.withCommentOf later else first := by
  simp [lend, withCommentOf, h]

section First

variable {items : List (Item α)} {name : CodeText}

theorem find?_commented_of_none (h : items.find? (fun i => i.name = name) = none) :
    items.find? (fun i => i.name = name ∧ i.keywords.isSome) = none := by
  rw [List.find?_eq_none] at h ⊢
  intro i hi
  simpa using fun hname => absurd hname (by simpa using h i hi)

theorem of_find?_commented {c : Item α}
    (h : items.find? (fun i => i.name = name ∧ i.keywords.isSome) = some c) :
    c.name = name ∧ c.keywords.isSome := by
  simpa using List.find?_some h

theorem keywords_of_find?_commented {first : Item α} (hfirst : items.find? (fun i => i.name = name) = some first)
    (h : items.find? (fun i => i.name = name ∧ i.keywords.isSome) = none) : first.keywords = none := by
  have hname : first.name = name := by simpa using List.find?_some hfirst
  simpa [hname] using List.find?_eq_none.mp h first (List.mem_of_find?_eq_some hfirst)

theorem filter_name_of_mem (h : (items.map (·.name)).Nodup) {x : Item α} (hx : x ∈ items) :
    items.filter (fun i => i.name = x.name) = [x] := by
  obtain ⟨before, after, rfl⟩ := List.append_of_mem hx
  rw [List.map_append, List.map_cons, List.nodup_append, List.nodup_cons] at h
  obtain ⟨-, ⟨hafter, -⟩, hbefore⟩ := h
  have hfront : before.filter (fun i => i.name = x.name) = [] := by
    rw [List.filter_eq_nil_iff]
    intro j hj
    simpa using hbefore _ (List.mem_map_of_mem hj) _ List.mem_cons_self
  have hback : after.filter (fun i => i.name = x.name) = [] := by
    rw [List.filter_eq_nil_iff]
    intro j hj
    simpa using fun hname => hafter (List.mem_map.mpr ⟨j, hj, hname⟩)
  rw [List.filter_append, List.filter_cons_of_pos (by simp), hfront, hback, List.nil_append]

theorem find?_name_of_mem (h : (items.map (·.name)).Nodup) {x : Item α} (hx : x ∈ items) :
    items.find? (fun i => i.name = x.name) = some x := by
  rw [← List.head?_filter, filter_name_of_mem h hx, List.head?_cons]

theorem find?_commented_of_nodup (h : (items.map (·.name)).Nodup) :
    items.find? (fun i => i.name = name ∧ i.keywords.isSome) =
      (items.find? fun i => i.name = name).filter (·.keywords.isSome) := by
  cases hfirst : items.find? fun i => i.name = name with
  | none => rw [find?_commented_of_none hfirst, Option.filter_none]
  | some x =>
    cases hcomment : items.find? fun i => i.name = name ∧ i.keywords.isSome with
    | none => simp [Option.filter_some, keywords_of_find?_commented hfirst hcomment]
    | some c =>
      obtain ⟨hname, hkeywords⟩ := of_find?_commented hcomment
      have hfound := find?_name_of_mem h (List.mem_of_find?_eq_some hcomment)
      rw [hname, hfirst] at hfound
      rw [hfound, Option.filter_some, if_pos hkeywords]

end First

theorem find?_merge (items : List (Item α)) (name : CodeText) :
    (merge items).find? (fun i => i.name = name) = mergedOf? items name := by
  -- From the end, as the last item is added to all that are merged before it.
  induction items using List.reverseRecOn with
  | nil => rfl
  | append_singleton items i ih =>
    rw [merge_concat, find?_insert, ih, mergedOf?, mergedOf?, List.find?_append, List.find?_append]
    by_cases hname : i.name = name
    · cases hfirst : items.find? fun i => i.name = name with
      | none =>
        rw [find?_commented_of_none hfirst]
        by_cases hi : i.keywords.isSome <;> simp [hname, hi]
      | some first =>
        cases hcomment : items.find? fun i => i.name = name ∧ i.keywords.isSome with
        | some c => simp [hname, withCommentOf_lend (of_find?_commented hcomment).2]
        | none =>
          -- No item of the name had a comment so far: the new one lends its own, if it has one.
          have hlend := lend_of_uncommented (keywords_of_find?_commented hfirst hcomment) i
          by_cases hi : i.keywords.isSome <;> simp [hname, hlend, hi]
    · simp [hname]

theorem find?_commented_merge (items : List (Item α)) (name : CodeText) :
    (merge items).find? (fun i => i.name = name ∧ i.keywords.isSome) =
      (mergedOf? items name).filter (·.keywords.isSome) := by
  rw [find?_commented_of_nodup (merge_nodup items), find?_merge]

theorem mergedOf?_merge_append (xs ys : List (Item α)) (name : CodeText) :
    mergedOf? (merge xs ++ merge ys) name = mergedOf? (xs ++ ys) name := by
  rw [mergedOf?, mergedOf?, List.find?_append, List.find?_append, List.find?_append, List.find?_append,
    find?_merge, find?_merge, find?_commented_merge, find?_commented_merge, mergedOf?, mergedOf?]
  -- The cases say in which of the lists the first item of the name stands, and in which the first comment.
  cases hx : xs.find? fun i => i.name = name with
  | none =>
    rw [find?_commented_of_none hx]
    cases hy : ys.find? fun i => i.name = name with
    | none => rfl
    | some first =>
      cases hc : ys.find? fun i => i.name = name ∧ i.keywords.isSome with
      | none => simp [Option.filter_some, keywords_of_find?_commented hy hc]
      | some c => simp [Option.filter_some, (of_find?_commented hc).2]
  | some first =>
    cases hc : xs.find? fun i => i.name = name ∧ i.keywords.isSome with
    | some c => simp [Option.filter_some, (of_find?_commented hc).2]
    | none =>
      cases hy : ys.find? fun i => i.name = name with
      | none =>
        rw [find?_commented_of_none hy]
        simp [Option.filter_some, keywords_of_find?_commented hx hc]
      | some later =>
        cases hd : ys.find? fun i => i.name = name ∧ i.keywords.isSome with
        | some d =>
          simp [Option.filter_some, keywords_of_find?_commented hx hc, (of_find?_commented hd).2]
        | none =>
          simp [Option.filter_some, keywords_of_find?_commented hx hc, keywords_of_find?_commented hy hd]

theorem merge_names (items : List (Item α)) :
    (merge items).map (·.name) = (items.map (·.name)).eraseDups := by
  induction items using List.reverseRecOn with
  | nil => rfl
  | append_singleton items i ih =>
    rw [merge_concat, insert_names, ih, List.map_append, List.map_singleton, eraseDups_concat]
    simp only [List.mem_eraseDups]

/-- Each name is there once, where it first occurs, with the first item of the name. The item says what the first
comment on an item of the name says. -/
structure MergedByName (items merged : List (Item α)) : Prop where
  names : merged.map (·.name) = (items.map (·.name)).eraseDups
  entries : ∀ x ∈ merged, ∃ first, items.find? (fun i => i.name = x.name) = some first ∧
    x = first.withCommentOf ((items.find? fun i => i.name = x.name ∧ i.keywords.isSome).getD first)

section MergedByName

variable {items merged : List (Item α)}

theorem mergedOf?_eq_some_iff {x : Item α} {name : CodeText} : mergedOf? items name = some x ↔
    ∃ first, items.find? (fun i => i.name = name) = some first ∧
      x = first.withCommentOf ((items.find? fun i => i.name = name ∧ i.keywords.isSome).getD first) := by
  rw [mergedOf?, Option.map_eq_some_iff]
  exact exists_congr fun first => and_congr_right' eq_comm

theorem MergedByName.eq_filterMap (h : MergedByName items merged) :
    merged = (items.map (·.name)).eraseDups.filterMap (mergedOf? items) := by
  have hown : ∀ x ∈ merged, (mergedOf? items ∘ (·.name)) x = some x := fun x hx =>
    mergedOf?_eq_some_iff.mpr (h.entries x hx)
  rw [← h.names, List.filterMap_map, List.filterMap_congr hown, List.filterMap_some]

theorem mergedByName_merge (items : List (Item α)) : MergedByName items (merge items) where
  names := merge_names items
  entries x hx := by
    rw [← mergedOf?_eq_some_iff, ← find?_merge]
    exact find?_name_of_mem (merge_nodup items) hx

theorem mergedByName_iff : MergedByName items merged ↔ merged = merge items := by
  constructor
  · exact fun h => h.eq_filterMap.trans (mergedByName_merge items).eq_filterMap.symm
  · rintro rfl
    exact mergedByName_merge items

theorem merge_of_nodup (h : (items.map (·.name)).Nodup) : merge items = items := by
  refine (mergedByName_iff.mp ⟨(eraseDups_of_nodup h).symm, fun x hx => ⟨x, find?_name_of_mem h hx, ?_⟩⟩).symm
  rw [find?_commented_of_nodup h, find?_name_of_mem h hx]
  by_cases hk : x.keywords.isSome <;> simp [Option.filter_some, hk]

end MergedByName

theorem merge_exact :
    (∀ items merged : List (Item α), merged = merge items ↔ MergedByName items merged) ∧
      ∀ xs ys : List (Item α), merge (xs ++ ys) = merge (merge xs ++ merge ys) := by
  refine ⟨fun items merged => mergedByName_iff.symm, fun xs ys => ?_⟩
  refine (mergedByName_iff.mp ⟨?_, fun x hx => ?_⟩).symm
  · rw [merge_names, List.map_append, merge_names, merge_names, eraseDups_append_eraseDups, ← List.map_append]
  · rw [← mergedOf?_eq_some_iff, ← mergedOf?_merge_append, mergedOf?_eq_some_iff]
    exact (mergedByName_merge _).entries x hx

theorem firsts_names (items : List (Item α)) : (firsts items).map (·.name) = (items.map (·.name)).eraseDups := by
  induction items with
  | nil => rfl
  | cons i items ih =>
    rw [firsts, List.map_cons, List.map_cons, List.eraseDups_cons, eraseDups_filter, ← ih, List.filter_map]
    congr 2
    exact List.filter_congr fun j _ => Bool.eq_iff_iff.mpr (by simp)

theorem find?_firsts (items : List (Item α)) (name : CodeText) :
    (firsts items).find? (fun i => i.name = name) = items.find? fun i => i.name = name := by
  induction items with
  | nil => rfl
  | cons i items ih =>
    rw [firsts]
    by_cases hi : i.name = name
    · rw [List.find?_cons_of_pos (by simpa using hi), List.find?_cons_of_pos (by simpa using hi)]
    · rw [List.find?_cons_of_neg (by simpa using hi), List.find?_cons_of_neg (by simpa using hi), ← ih,
        List.find?_filter]
      congr 1
      funext j
      by_cases hj : j.name = name <;> simp [hj, Ne.symm hi]

theorem firsts_of_nodup {items : List (Item α)} (h : (items.map (·.name)).Nodup) : firsts items = items := by
  induction items with
  | nil => rfl
  | cons i items ih =>
    obtain ⟨hi, hitems⟩ := List.nodup_cons.mp h
    rw [firsts, ih hitems, List.filter_eq_self.mpr]
    intro j hj
    exact decide_eq_true fun hname => hi (List.mem_map.mpr ⟨j, hj, hname⟩)

end Item

/-- What is collected from the parameters of all occurrences of a slot: the first one of each name, in the order in
which the names first occur, or nothing where no occurrence has any. -/
inductive CollectedFrom (occurrences : List (Item SlotParameter)) : Option (List (Item SlotParameter)) → Prop
  | none (empty : occurrences = []) : CollectedFrom occurrences none
  | some (ps : List (Item SlotParameter)) (nonempty : occurrences ≠ [])
      (names : ps.map (·.name) = (occurrences.map (·.name)).eraseDups)
      (entries : ∀ p ∈ ps, occurrences.find? (fun o => o.name = p.name) = some p) : CollectedFrom occurrences (some ps)

/-- Each slot is there once, where its name first occurs. Apart from its parameters it is what merging items makes of
the slots of its name. Its parameters are collected from all of them, from the first to the last. -/
structure SlotsMerged (slots merged : List (Item Slot)) : Prop where
  names : merged.map (·.name) = (slots.map (·.name)).eraseDups
  fields : List.Forall₂ (fun item s => s = { item with detail := s.detail }) (Item.merge slots) merged
  parameters : ∀ s ∈ merged, CollectedFrom
    ((slots.filter fun o => o.name = s.name).flatMap fun o => o.detail.parameters.getD []) s.detail.parameters

theorem collectedFrom_firsts (occurrences : List (Item SlotParameter)) :
    CollectedFrom occurrences
      (if (Item.firsts occurrences).isEmpty then none else some (Item.firsts occurrences)) := by
  cases occurrences with
  | nil => exact .none rfl
  | cons p ps =>
    refine .some _ (List.cons_ne_nil p ps) (Item.firsts_names _) fun q hq => ?_
    rw [← Item.find?_firsts]
    exact Item.find?_name_of_mem (Item.firsts_nodup _) hq

theorem slotsMerged_mergeSlots (slots : List (Item Slot)) : SlotsMerged slots (mergeSlots slots) where
  names := by
    rw [mergeSlots_eq, List.map_map, ← Item.merge_names]
    rfl
  fields := by
    rw [mergeSlots_eq, List.forall₂_map_right_iff]
    exact List.forall₂_same.mpr fun s _ => rfl
  parameters := by
    intro s hs
    rw [mergeSlots_eq] at hs
    obtain ⟨item, -, rfl⟩ := List.mem_map.mp hs
    exact collectedFrom_firsts _

theorem parameters_ne_nil {slots : List (Item Slot)} {s : Item Slot} (h : s ∈ mergeSlots slots) :
    s.detail.parameters ≠ some [] := by
  rw [mergeSlots_eq] at h
  obtain ⟨item, -, rfl⟩ := List.mem_map.mp h
  dsimp only
  split
  · exact nofun
  · next hne => exact fun heq => hne (by rw [Option.some.inj heq, List.isEmpty_nil])

theorem parametersOf_mergeSlots {slots : List (Item Slot)} {s : Item Slot} (h : s ∈ mergeSlots slots) :
    parametersOf (mergeSlots slots) s.name = s.detail.parameters.getD [] := by
  rw [parametersOf, occurrencesOf, Item.filter_name_of_mem (mergeSlots_nodup slots) h, List.flatMap_singleton]
  refine Item.firsts_of_nodup ?_
  cases hparameters : s.detail.parameters with
  | none => exact List.nodup_nil
  | some ps => exact mergeSlots_distinct h ps hparameters

theorem mergeSlots_exact (slots : List (Item Slot)) :
    SlotsMerged slots (mergeSlots slots) ∧ mergeSlots (mergeSlots slots) = mergeSlots slots := by
  refine ⟨slotsMerged_mergeSlots slots, ?_⟩
  rw [mergeSlots_eq, Item.merge_of_nodup (mergeSlots_nodup slots)]
  refine (List.map_congr_left fun s hs => ?_).trans (List.map_id _)
  have hne := parameters_ne_nil hs
  rw [parametersOf_mergeSlots hs]
  obtain ⟨name, loc, description, visibility, keywords, ⟨parameters⟩⟩ := s
  -- An empty list would turn into none, but merged slots have no empty list.
  cases parameters with
  | none => rfl
  | some ps =>
    cases ps with
    | nil => exact absurd rfl hne
    | cons p ps => rfl

end ComponentDoc
