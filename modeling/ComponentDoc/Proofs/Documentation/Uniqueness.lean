import ComponentDoc.Documentation.Assembly
import ComponentDoc.Documentation.Selection
import ComponentDoc.Proofs.Documentation.Slots
import ComponentDoc.Proofs.Markup.Expression
import Mathlib.Data.List.Nodup

namespace ComponentDoc

/-- The first entry whose name one before it has stands at `second`, the one before it at `first`. -/
inductive FirstClash (entries : List (CodeText × Option Span)) (name : CodeText) (first second : Option Span) : Prop
  | mk (before between after : List (CodeText × Option Span))
      (split : entries = before ++ (name, first) :: between ++ (name, second) :: after)
      (distinct : ((before ++ (name, first) :: between).map Prod.fst).Nodup)

theorem exists_firstClash {entries : List (CodeText × Option Span)} (h : ¬ (entries.map Prod.fst).Nodup) :
    ∃ name first second, FirstClash entries name first second := by
  -- The entries before the clash have different names; they are lengthened one by one.
  suffices hextend : ∀ rest before : List (CodeText × Option Span), (before.map Prod.fst).Nodup →
      ¬ ((before ++ rest).map Prod.fst).Nodup →
        ∃ name first second, FirstClash (before ++ rest) name first second from
    hextend entries [] List.nodup_nil h
  intro rest
  induction rest with
  | nil => exact fun before hnodup hclash => absurd (by rwa [List.append_nil]) hclash
  | cons e rest ih =>
    intro before hnodup hclash
    by_cases hmem : e.1 ∈ before.map Prod.fst
    · obtain ⟨⟨name, first⟩, hf, hname⟩ := List.mem_map.mp hmem
      obtain ⟨front, back, rfl⟩ := List.append_of_mem hf
      obtain ⟨_, second⟩ := e
      obtain rfl : name = _ := hname
      exact ⟨name, first, second, front, back, rest, rfl, hnodup⟩
    · have hmore : ((before ++ [e]).map Prod.fst).Nodup := by
        rw [List.map_append, List.map_singleton, ← List.concat_eq_append]
        exact hnodup.concat hmem
      have hsplit : before ++ e :: rest = before ++ [e] ++ rest := by simp
      rw [hsplit] at hclash ⊢
      exact ih _ hmore hclash

namespace Item

variable {α : Type} {category : String}

def entry (i : Item α) : CodeText × Option Span := (i.name, i.loc)

theorem map_entry_fst (items : List (Item α)) : (items.map entry).map Prod.fst = items.map (·.name) := by
  rw [List.map_map]
  rfl

theorem duplicateAfter?_append (before items rest : List (Item α))
    (h : ((before ++ items).map (·.name)).Nodup) :
    duplicateAfter? category before (items ++ rest) = duplicateAfter? category (before ++ items) rest := by
  induction items generalizing before with
  | nil => rw [List.nil_append, List.append_nil]
  | cons i items ih =>
    have hnone : before.find? (fun b => b.name = i.name) = none := by
      rw [List.find?_eq_none]
      intro b hb
      rw [List.map_append, List.nodup_append] at h
      simpa using h.2.2 _ (List.mem_map_of_mem hb) _ (List.mem_map_of_mem List.mem_cons_self)
    have hsplit : before ++ i :: items = before ++ [i] ++ items := by simp
    rw [hsplit] at h ⊢
    rw [List.cons_append, duplicateAfter?, hnone]
    exact ih _ h

theorem duplicate?_of_nodup {items : List (Item α)} (h : ((items.map entry).map Prod.fst).Nodup) :
    duplicate? category items = none := by
  rw [map_entry_fst] at h
  have happend : duplicate? category (items ++ []) = none := duplicateAfter?_append [] items [] h
  rwa [List.append_nil] at happend

theorem duplicate?_of_firstClash {items : List (Item α)} {name : CodeText} {first second : Option Span}
    (h : FirstClash (items.map entry) name first second) :
    duplicate? category items = some ⟨category, name, first.toList ++ second.toList⟩ := by
  obtain ⟨before, between, after, hsplit, hdistinct⟩ := h
  obtain ⟨front, back, rfl, hfront, hback⟩ := List.map_eq_append_iff.mp hsplit
  obtain ⟨j, rest, rfl, hj, -⟩ := List.map_eq_cons_iff.mp hback
  obtain ⟨items, more, rfl, rfl, hmore⟩ := List.map_eq_append_iff.mp hfront
  obtain ⟨i, more, rfl, hi, rfl⟩ := List.map_eq_cons_iff.mp hmore
  obtain ⟨rfl, rfl⟩ := Prod.mk.inj hi
  obtain ⟨hname, rfl⟩ := Prod.mk.inj hj
  rw [← hi, ← List.map_cons, ← List.map_append, map_entry_fst] at hdistinct
  have hfind : (items ++ i :: more).find? (fun b => b.name = j.name) = some i := by
    rw [List.find?_eq_some_iff_append]
    refine ⟨by simpa using hname.symm, items, more, rfl, fun b hb => ?_⟩
    rw [List.map_append, List.nodup_append] at hdistinct
    simpa [hname] using hdistinct.2.2 _ (List.mem_map_of_mem hb) _ (List.mem_map_of_mem List.mem_cons_self)
  rw [duplicate?, duplicateAfter?_append [] (items ++ i :: more) (j :: rest) hdistinct, List.nil_append,
    duplicateAfter?, hfind, hname]

theorem duplicate?_eq_none_iff {items : List (Item α)} :
    duplicate? category items = none ↔ ((items.map entry).map Prod.fst).Nodup := by
  refine ⟨fun h => ?_, duplicate?_of_nodup⟩
  by_contra hclash
  obtain ⟨name, first, second, hfirst⟩ := exists_firstClash hclash
  rw [duplicate?_of_firstClash hfirst] at h
  simp at h

theorem duplicate?_eq_some_iff {items : List (Item α)} {e : DuplicateName} :
    duplicate? category items = some e ↔ ∃ name first second,
      FirstClash (items.map entry) name first second ∧ e = ⟨category, name, first.toList ++ second.toList⟩ := by
  constructor
  · intro h
    have hclash : ¬ ((items.map entry).map Prod.fst).Nodup := by
      rw [← duplicate?_eq_none_iff, h]
      simp
    obtain ⟨name, first, second, hfirst⟩ := exists_firstClash hclash
    rw [duplicate?_of_firstClash hfirst] at h
    exact ⟨name, first, second, hfirst, (Option.some.inj h).symm⟩
  · rintro ⟨name, first, second, hfirst, rfl⟩
    exact duplicate?_of_firstClash hfirst

theorem nodup_of_duplicate? {items : List (Item α)} (h : duplicate? category items = none) :
    (items.map (·.name)).Nodup := by
  rw [← map_entry_fst]
  exact duplicate?_eq_none_iff.mp h

theorem map_withoutLoc_names (items : List (Item α)) :
    (items.map withoutLoc).map (·.name) = items.map (·.name) := by
  rw [List.map_map]
  rfl

theorem select_nodup (o : Options) {items : List (Item α)} (h : (items.map (·.name)).Nodup) :
    ((select o items).map (·.name)).Nodup := by
  have hfilter : ((items.filter fun i => !i.isHidden o).map (·.name)).Nodup :=
    h.sublist (List.filter_sublist.map _)
  unfold select
  dsimp only
  split
  · exact hfilter
  · rwa [map_withoutLoc_names]

end Item

def Slot.DistinctParameters (s : Slot) : Prop := ∀ ps, s.parameters = some ps → (ps.map (·.name)).Nodup

theorem mergeSlots_distinct {slots : List (Item Slot)} {s : Item Slot} (h : s ∈ mergeSlots slots) :
    s.detail.DistinctParameters := by
  intro ps hps
  rw [mergeSlots_eq] at h
  obtain ⟨first, -, rfl⟩ := List.mem_map.mp h
  dsimp only at hps
  split at hps
  · simp at hps
  · rw [← Option.some.inj hps]
    exact Item.firsts_nodup _

theorem Slot.DistinctParameters.select {s : Slot} (h : s.DistinctParameters) (o : Options) :
    (s.select o).DistinctParameters := by
  unfold Slot.select
  split
  · exact h
  · intro ps hps
    obtain ⟨own, hown, rfl⟩ := Option.map_eq_some_iff.mp hps
    rw [Item.map_withoutLoc_names]
    exact h own hown

structure Documentation.Distinct (d : Documentation) : Prop where
  data : (d.data.map (·.name)).Nodup
  computed : (d.computed.map (·.name)).Nodup
  components : (d.components.map (·.name)).Nodup
  events : (d.events.map (·.name)).Nodup
  slots : (d.slots.map (·.name)).Nodup
  refs : (d.refs.map (·.name)).Nodup
  methods : (d.methods.map (·.name)).Nodup
  actions : (d.actions.map (·.name)).Nodup
  helpers : (d.helpers.map (·.name)).Nodup
  transitions : (d.transitions.map (·.name)).Nodup
  parameters : ∀ s ∈ d.slots, s.detail.DistinctParameters

theorem Documentation.Distinct.select {d : Documentation} (h : d.Distinct) (o : Options) :
    (d.select o).Distinct where
  data := Item.select_nodup o h.data
  computed := Item.select_nodup o h.computed
  components := Item.select_nodup o h.components
  events := Item.select_nodup o h.events
  slots := by
    have hslots := Item.select_nodup o h.slots
    rw [Documentation.select, List.map_map]
    exact hslots
  refs := Item.select_nodup o h.refs
  methods := Item.select_nodup o h.methods
  actions := Item.select_nodup o h.actions
  helpers := Item.select_nodup o h.helpers
  transitions := Item.select_nodup o h.transitions
  parameters := by
    intro s hs
    obtain ⟨t, ht, rfl⟩ := List.mem_map.mp hs
    refine Slot.DistinctParameters.select ?_ o
    unfold Item.select at ht
    dsimp only at ht
    split at ht
    · exact h.parameters t (List.mem_filter.mp ht).1
    · obtain ⟨u, hu, rfl⟩ := List.mem_map.mp ht
      exact h.parameters u (List.mem_filter.mp hu).1

/-- Items that must have different names: the names, with the places where they are known. -/
structure Category where
  name : String
  entries : List (CodeText × Option Span)

namespace Category

def Distinct (k : Category) : Prop := (k.entries.map Prod.fst).Nodup

def Clash (k : Category) (e : DuplicateName) : Prop :=
  ∃ name first second, FirstClash k.entries name first second ∧
    e = ⟨k.name, name, first.toList ++ second.toList⟩

/-- `e` tells the clash in the first category that has one. -/
inductive Reported (ks : List Category) (e : DuplicateName) : Prop
  | mk (before after : List Category) (k : Category) (split : ks = before ++ k :: after)
      (distinct : ∀ k' ∈ before, k'.Distinct) (clash : k.Clash e)

def Faults (k : Category) (fault : Option DuplicateName) : Prop :=
  (∀ e, fault = some e ↔ k.Clash e) ∧ (fault = none ↔ k.Distinct)

theorem faults_duplicate? {α : Type} (name : String) (items : List (Item α)) :
    (⟨name, items.map Item.entry⟩ : Category).Faults (Item.duplicate? name items) :=
  ⟨fun _ => Item.duplicate?_eq_some_iff, Item.duplicate?_eq_none_iff⟩

theorem not_reported_nil {e : DuplicateName} : ¬Reported [] e := by
  rintro ⟨before, after, k, split, -, -⟩
  simp at split

theorem reported_cons_iff {k : Category} {ks : List Category} {e : DuplicateName} :
    Reported (k :: ks) e ↔ k.Clash e ∨ k.Distinct ∧ Reported ks e := by
  constructor
  · rintro ⟨before, after, k', split, distinct, clash⟩
    cases before with
    | nil =>
      obtain ⟨rfl, -⟩ := List.cons.inj split
      exact .inl clash
    | cons k'' before =>
      obtain ⟨rfl, rfl⟩ := List.cons.inj split
      obtain ⟨hk, hbefore⟩ := List.forall_mem_cons.mp distinct
      exact .inr ⟨hk, before, after, k', rfl, hbefore, clash⟩
  · rintro (hclash | ⟨hdistinct, before, after, k', rfl, distinct, clash⟩)
    · exact ⟨[], ks, k, rfl, List.forall_mem_nil _, hclash⟩
    · exact ⟨k :: before, after, k', rfl, List.forall_mem_cons.mpr ⟨hdistinct, distinct⟩, clash⟩

theorem findSome?_faults {ks : List Category} {faults : List (Option DuplicateName)}
    (h : List.Forall₂ Faults ks faults) :
    (∀ e, faults.findSome? id = some e ↔ Reported ks e) ∧
      (faults.findSome? id = none ↔ ∀ k ∈ ks, k.Distinct) := by
  induction h with
  | nil => exact ⟨fun e => iff_of_false nofun not_reported_nil, by simp⟩
  | @cons k fault ks faults hk _ ih =>
    obtain ⟨hclash, hdistinct⟩ := hk
    cases fault with
    | some e =>
      have hk : ¬k.Distinct := fun h => nomatch hdistinct.mpr h
      exact ⟨fun e' => by simp [reported_cons_iff, ← hclash, hk], by simp [hk]⟩
    | none =>
      have hk : k.Distinct := hdistinct.mp rfl
      exact ⟨fun e' => by simp [reported_cons_iff, ← hclash, hk, ih.1], by simpa [hk] using ih.2⟩

end Category

namespace Declarations

open Markup

def entryOf (d : Declarations) (x : Declared) : CodeText × Option Span := (d.publicName x.name, some x.loc)

def functionCategory (d : Declarations) (b : Bucket) : Category :=
  ⟨b.name, (d.functions.filter fun x => x.bucket = b).map fun x => d.entryOf x.toDeclared⟩

def categories (d : Declarations) (c : Candidates) : List Category :=
  [⟨"data", d.data.map fun x => d.entryOf x.toDeclared⟩,
    ⟨"computed", d.computed.map fun x => d.entryOf x.toDeclared⟩,
    d.functionCategory .methods, d.functionCategory .actions, d.functionCategory .helpers,
    d.functionCategory .transitions, ⟨"refs", c.refs.map fun x => (x.name, x.loc)⟩]

theorem entry_ofComment {α : Type} (name : CodeText) (loc : Span) (comment : Option Comment) (detail : α) :
    (Item.ofComment name loc comment detail).entry = (name, some loc) := by
  rw [Item.entry, Item.name_ofComment, Item.loc_ofComment]

theorem duplicate?_eq (d : Declarations) (c : Candidates) :
    d.duplicate? c = [Item.duplicate? "data" d.properties, Item.duplicate? "computed" d.computations,
      Item.duplicate? Bucket.methods.name (d.functionsIn .methods),
      Item.duplicate? Bucket.actions.name (d.functionsIn .actions),
      Item.duplicate? Bucket.helpers.name (d.functionsIn .helpers),
      Item.duplicate? Bucket.transitions.name (d.functionsIn .transitions),
      Item.duplicate? "refs" c.refs].findSome? id := by
  have hcons (f : Option DuplicateName) (fs : List (Option DuplicateName)) :
      (f :: fs).findSome? id = f.or (fs.findSome? id) := by
    cases f <;> rfl
  have hbuckets : (Bucket.all.findSome? fun b => Item.duplicate? b.name (d.functionsIn b)) =
      (Bucket.all.map fun b => Item.duplicate? b.name (d.functionsIn b)).findSome? id := by
    rw [List.findSome?_map]
    rfl
  rw [duplicate?, hbuckets]
  simp only [Bucket.all, List.map_cons, List.map_nil, hcons, List.findSome?_nil, Option.or_none,
    Option.or_assoc]

theorem faults_duplicate? (d : Declarations) (c : Candidates) :
    (∀ e, d.duplicate? c = some e ↔ Category.Reported (d.categories c) e) ∧
      (d.duplicate? c = none ↔ ∀ k ∈ d.categories c, k.Distinct) := by
  rw [duplicate?_eq]
  apply Category.findSome?_faults
  have hdata : (⟨"data", d.data.map fun x => d.entryOf x.toDeclared⟩ : Category) =
      ⟨"data", d.properties.map Item.entry⟩ := by
    simp [properties, Function.comp_def, entry_ofComment, entryOf]
  have hcomputed : (⟨"computed", d.computed.map fun x => d.entryOf x.toDeclared⟩ : Category) =
      ⟨"computed", d.computations.map Item.entry⟩ := by
    simp [computations, Function.comp_def, entry_ofComment, entryOf]
  have hfunctions (b : Bucket) : d.functionCategory b = ⟨b.name, (d.functionsIn b).map Item.entry⟩ := by
    simp [functionCategory, functionsIn, Function.comp_def, entry_ofComment, entryOf]
  have hrefs : (⟨"refs", c.refs.map fun x => (x.name, x.loc)⟩ : Category) = ⟨"refs", c.refs.map Item.entry⟩ := rfl
  simp only [categories, hdata, hcomputed, hfunctions, hrefs, List.forall₂_cons, List.forall₂_nil_left_iff,
    Category.faults_duplicate?, and_self]

end Declarations

open Markup

theorem assemble_eq_ok {version : Version} {file : FileName} {d : Declarations} {c : Candidates}
    {doc : Documentation} (h : assemble version file d c = .ok doc) :
    doc.computed = d.computations ∧ doc.events = mergeEvents d.eventItems c.events := by
  rw [assemble] at h
  split at h
  · cases h
  · obtain ⟨name, -, rfl⟩ := map_eq_ok.mp h
    exact ⟨rfl, rfl⟩

theorem assemble_distinct {version : Version} {file : FileName} {d : Declarations} {c : Candidates}
    {doc : Documentation} (h : assemble version file d c = .ok doc) : doc.Distinct := by
  rw [assemble] at h
  split at h
  · simp at h
  · next hnone =>
    rw [Declarations.duplicate?_eq, List.findSome?_eq_none_iff] at hnone
    simp only [List.mem_cons, List.not_mem_nil, or_false, forall_eq_or_imp, forall_eq, id_eq] at hnone
    obtain ⟨hdata, hcomputed, hmethods, hactions, hhelpers, htransitions, hrefs⟩ := hnone
    obtain ⟨name, -, rfl⟩ := map_eq_ok.mp h
    exact {
      data := Item.nodup_of_duplicate? hdata
      computed := Item.nodup_of_duplicate? hcomputed
      components := Item.merge_nodup _
      events := Item.merge_nodup _
      slots := mergeSlots_nodup _
      refs := Item.nodup_of_duplicate? hrefs
      methods := Item.nodup_of_duplicate? hmethods
      actions := Item.nodup_of_duplicate? hactions
      helpers := Item.nodup_of_duplicate? hhelpers
      transitions := Item.nodup_of_duplicate? htransitions
      parameters := fun _ => mergeSlots_distinct }

theorem assemble_duplicate_iff {version : Version} {file : FileName} {d : Declarations} {c : Candidates}
    {e : DuplicateName} : assemble version file d c = .error (.duplicate e) ↔ d.duplicate? c = some e := by
  rw [assemble]
  split
  · next e' he => simp [he]
  · next hnone =>
    simp only [hnone, reduceCtorEq, iff_false]
    unfold componentName
    dsimp only
    split
    · simp [Except.map]
    · split <;> simp [Except.map]

theorem assemble_names (version : Version) (file : FileName) (d : Declarations) (c : Candidates) :
    ((∃ e, assemble version file d c = .error (.duplicate e)) ↔ ∃ k ∈ d.categories c, ¬ k.Distinct) ∧
      (∀ e, assemble version file d c = .error (.duplicate e) ↔ Category.Reported (d.categories c) e) ∧
      ∀ doc, assemble version file d c = .ok doc → ∀ o, (doc.select o).Distinct := by
  obtain ⟨hreported, hnone⟩ := d.faults_duplicate? c
  refine ⟨?_, fun e => assemble_duplicate_iff.trans (hreported e),
    fun doc hdoc o => (assemble_distinct hdoc).select o⟩
  simp only [assemble_duplicate_iff, ← Option.isSome_iff_exists]
  rw [← not_iff_not, Option.not_isSome_iff_eq_none, hnone]
  simp

theorem assemble_names_of_aliases :
    let property (name : CodeText) (start : Nat) : DataDeclaration := ⟨⟨name, ⟨start, start + 1⟩, none⟩, .any, none⟩
    let parameter (name : CodeText) (start : Nat) : Item SlotParameter := .ofComment name ⟨start, start + 1⟩ none ⟨⟩
    let slot (ps : List (Item SlotParameter)) : Item Slot := .ofComment "s" ⟨40, 44⟩ none ⟨some ps⟩
    let d : Declarations :=
      { Declarations.empty with data := [property "a" 12, property "b" 15], aliases := [("a", "b"), ("b", "a")] }
    let c : Candidates := ⟨[], [], [slot [parameter "x" 50, parameter "x" 52], slot [parameter "y" 60]], [], none⟩
    ∃ doc, assemble (.whole 3) .absent d c = .ok doc ∧ doc.data.map (·.name) = [("b" : CodeText), "a"] ∧
      doc.slots.map (fun s => s.detail.parameters.map (·.map (·.name))) = [some [("x" : CodeText), "y"]] ∧
      (doc.select .standard).Distinct := by
  intro property parameter slot d c
  have hdoc : (assemble (.whole 3) .absent d c).toOption.map (fun doc => (doc.data.map (·.name),
      doc.slots.map fun s => s.detail.parameters.map (·.map (·.name)))) =
        some ([("b" : CodeText), "a"], [some [("x" : CodeText), "y"]]) := by
    decide +kernel
  cases h : assemble (.whole 3) .absent d c with
  | error e => simp [h, Except.toOption] at hdoc
  | ok doc =>
    rw [h] at hdoc
    obtain ⟨hdata, hslots⟩ := Prod.mk.inj (Option.some.inj hdoc)
    exact ⟨doc, rfl, hdata, hslots, (assemble_names (.whole 3) .absent d c).2.2 doc h .standard⟩

end ComponentDoc
