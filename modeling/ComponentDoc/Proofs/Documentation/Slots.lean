import ComponentDoc.Documentation.Merging
import ComponentDoc.Proofs.Keyed
import Mathlib.Data.List.Induction
import Mathlib.Data.List.Nodup

namespace ComponentDoc

namespace Item

variable {α : Type}

theorem insert_nodup {i : Item α} {items : List (Item α)} (h : (items.map (·.name)).Nodup) :
    ((i.insert items).map (·.name)).Nodup := by
  rw [insert_names]
  split
  · exact h
  · next hmem =>
    rw [← List.concat_eq_append]
    exact h.concat hmem

theorem merge_nodup (items : List (Item α)) : ((merge items).map (·.name)).Nodup := by
  suffices hfold : ∀ merged : List (Item α), (merged.map (·.name)).Nodup →
      ((items.foldl (fun merged i => i.insert merged) merged).map (·.name)).Nodup from
    hfold [] List.nodup_nil
  induction items with
  | nil => exact fun merged h => h
  | cons i items ih => exact fun merged h => ih _ (insert_nodup h)

def firsts : List (Item α) → List (Item α)
  | [] => []
  | i :: rest => i :: (firsts rest).filter fun j => j.name ≠ i.name

theorem firsts_nodup (items : List (Item α)) : ((firsts items).map (·.name)).Nodup := by
  induction items with
  | nil => exact List.nodup_nil
  | cons i items ih =>
    rw [firsts, List.map_cons, List.nodup_cons]
    refine ⟨fun hmem => ?_, ih.sublist (List.filter_sublist.map _)⟩
    obtain ⟨j, hj, hname⟩ := List.mem_map.mp hmem
    exact of_decide_eq_true (List.mem_filter.mp hj).2 hname

theorem firsts_concat (items : List (Item α)) (i : Item α) :
    firsts (items ++ [i]) = if i.name ∈ (firsts items).map (·.name) then firsts items else firsts items ++ [i] := by
  induction items with
  | nil => rfl
  | cons first items ih =>
    rw [List.cons_append, firsts, ih, firsts, List.map_cons]
    by_cases hfirst : i.name = first.name
    · have hmem : i.name ∈ first.name :: ((firsts items).filter fun j => j.name ≠ first.name).map (·.name) := by
        simp [hfirst]
      rw [if_pos hmem]
      split <;> simp [List.filter_append, hfirst]
    · have hnames : i.name ∈ first.name :: ((firsts items).filter fun j => j.name ≠ first.name).map (·.name) ↔
          i.name ∈ (firsts items).map (·.name) := by
        simp only [List.mem_cons, hfirst, false_or, List.mem_map, List.mem_filter, decide_eq_true_eq]
        grind
      simp only [hnames]
      split <;> simp [List.filter_append, hfirst]

def entries (items : List (Item α)) : Keyed CodeText (Item α) := items.map fun i => (i.name, i)

theorem keys_entries (items : List (Item α)) : Keyed.keys (entries items) = items.map (·.name) := by
  simp [Keyed.keys, entries]

theorem setDefault_entries_firsts (items : List (Item α)) (i : Item α) :
    Keyed.setDefault i.name i (entries (firsts items)) = entries (firsts (items ++ [i])) := by
  rw [firsts_concat]
  by_cases hmem : i.name ∈ (firsts items).map (·.name)
  · rw [if_pos hmem, Keyed.setDefault_of_mem (by rwa [keys_entries])]
  · rw [if_neg hmem, Keyed.setDefault_of_fresh (by rwa [keys_entries])]
    simp [entries]

theorem foldl_setDefault_entries (items more : List (Item α)) :
    more.foldl (fun found i => Keyed.setDefault i.name i found) (entries (firsts items)) =
      entries (firsts (items ++ more)) := by
  induction more generalizing items with
  | nil => simp
  | cons i more ih => rw [List.foldl_cons, setDefault_entries_firsts, ih, List.append_assoc, List.singleton_append]

theorem foldl_set_entries {items : List (Item α)} (h : (items.map (·.name)).Nodup) :
    items.foldl (fun found i => Keyed.set i.name i found) [] = entries items := by
  induction items using List.reverseRecOn with
  | nil => rfl
  | append_singleton items i ih =>
    rw [List.map_append, List.map_singleton, List.nodup_append] at h
    have hfresh : i.name ∉ Keyed.keys (entries items) := by
      rw [keys_entries]
      intro hmem
      exact h.2.2 _ hmem _ List.mem_cons_self rfl
    rw [List.foldl_append, ih h.1, List.foldl_cons, List.foldl_nil, Keyed.set_of_fresh hfresh]
    simp [entries]

end Item

def occurrencesOf (slots : List (Item Slot)) (name : CodeText) : List (Item SlotParameter) :=
  (slots.filter fun s => s.name = name).flatMap fun s => s.detail.parameters.getD []

def parametersOf (slots : List (Item Slot)) (name : CodeText) : List (Item SlotParameter) :=
  Item.firsts (occurrencesOf slots name)

namespace SlotParameters

variable {found : SlotParameters} {done slots : List (Item Slot)} {s : Item Slot} {name : CodeText}

theorem get?_foldl_add_self {params : Keyed CodeText (Item SlotParameter)} (h : Keyed.get? name found = some params)
    (ps : List (Item SlotParameter)) :
    Keyed.get? name (ps.foldl (add name) found) =
      some (ps.foldl (fun found p => Keyed.setDefault p.name p found) params) := by
  induction ps generalizing found params with
  | nil => exact h
  | cons p ps ih =>
    rw [List.foldl_cons, List.foldl_cons]
    apply ih
    rw [add, h, Keyed.get?_set_self, Option.getD_some]

theorem get?_foldl_add_of_ne {other : CodeText} (h : name ≠ other) (ps : List (Item SlotParameter)) :
    Keyed.get? name (ps.foldl (add other) found) = Keyed.get? name found := by
  induction ps generalizing found with
  | nil => rfl
  | cons p ps ih => rw [List.foldl_cons, ih, add, Keyed.get?_set_of_ne _ _ h]

/-- Under each name there are the parameters of the slots so called that are done. -/
def HasCollected (found : SlotParameters) (names : List CodeText) (done : List (Item Slot)) : Prop :=
  ∀ name ∈ names, Keyed.get? name found = some (Item.entries (parametersOf done name))

theorem HasCollected.addSlot {names : List CodeText} (h : found.HasCollected names done) :
    (found.addSlot s).HasCollected names (done ++ [s]) := by
  intro name hname
  by_cases hs : s.name = name
  · rw [SlotParameters.addSlot, hs, get?_foldl_add_self (h name hname), parametersOf, Item.foldl_setDefault_entries,
      parametersOf]
    simp [occurrencesOf, hs]
  · rw [SlotParameters.addSlot, get?_foldl_add_of_ne (Ne.symm hs), h name hname]
    simp [parametersOf, occurrencesOf, hs]

theorem HasCollected.foldl {names : List CodeText} (h : found.HasCollected names done) (slots : List (Item Slot)) :
    HasCollected (slots.foldl SlotParameters.addSlot found) names (done ++ slots) := by
  induction slots generalizing found done with
  | nil => rwa [List.foldl_nil, List.append_nil]
  | cons s slots ih =>
    have hstep := ih (h.addSlot (s := s))
    rwa [List.append_assoc, List.singleton_append] at hstep

theorem hasCollected_collect (merged slots : List (Item Slot)) :
    (collect merged slots).HasCollected (merged.map (·.name)) slots := by
  have hempty : HasCollected (merged.map fun s => (s.name, [])) (merged.map (·.name)) [] := by
    intro name hname
    obtain ⟨s, hs, rfl⟩ := List.mem_map.mp hname
    rw [Keyed.get?, List.find?_map, Option.map_map]
    cases hfind : merged.find? _ with
    | none => exact absurd (List.find?_eq_none.mp hfind s hs) (by simp)
    | some found => rfl
  exact hempty.foldl slots

end SlotParameters

theorem mergeSlots_eq (slots : List (Item Slot)) : mergeSlots slots = (Item.merge slots).map fun s =>
    { s with detail := ⟨if (parametersOf slots s.name).isEmpty then none else some (parametersOf slots s.name)⟩ } := by
  rw [mergeSlots]
  dsimp only
  rw [Item.foldl_set_entries (Item.merge_nodup slots), Item.entries, List.map_map]
  apply List.map_congr_left
  intro s hs
  have hvalues : (Item.entries (parametersOf slots s.name)).map Prod.snd = parametersOf slots s.name := by
    rw [Item.entries, List.map_map]
    exact List.map_id _
  rw [Function.comp_apply,
    SlotParameters.hasCollected_collect (Item.merge slots) slots s.name (List.mem_map_of_mem hs),
    Option.getD_some, hvalues]

theorem mergeSlots_nodup (slots : List (Item Slot)) : ((mergeSlots slots).map (·.name)).Nodup := by
  rw [mergeSlots_eq, List.map_map]
  exact Item.merge_nodup slots

end ComponentDoc
