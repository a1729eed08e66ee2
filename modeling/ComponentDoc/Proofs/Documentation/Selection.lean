import ComponentDoc.Extraction
import ComponentDoc.Script.Parse
import Mathlib.Data.List.Forall2

namespace ComponentDoc

namespace Item

variable {α : Type}

inductive Hidden (o : Options) (i : Item α) : Prop
  | closed (asked : o.hidePrivate = true) (closed : i.visibility = .owner ∨ i.visibility = .family)
  | ignored (ks : List Keyword) (own : i.keywords = some ks) (k : Keyword) (mem : k ∈ ks)
      (ignored : (k.name : CodeText) ∈ o.hiddenKeywords)

/-- `j` is `i`, with its place only if the options ask for places; `detail` relates their details. -/
structure Placed (o : Options) (detail : α → α → Prop) (i j : Item α) : Prop where
  name : j.name = i.name
  loc : j.loc = if o.includeLocations then i.loc else none
  description : j.description = i.description
  visibility : j.visibility = i.visibility
  keywords : j.keywords = i.keywords
  detail : detail i.detail j.detail

/-- The second list has the items of the first that are not hidden, in the same order. -/
inductive Shown (o : Options) (detail : α → α → Prop) : List (Item α) → List (Item α) → Prop
  | nil : Shown o detail [] []
  | hidden {i : Item α} {items shown : List (Item α)} (hidden : i.Hidden o)
      (rest : Shown o detail items shown) : Shown o detail (i :: items) shown
  | shown {i j : Item α} {items shown : List (Item α)} (visible : ¬ i.Hidden o)
      (placed : Placed o detail i j) (rest : Shown o detail items shown) :
      Shown o detail (i :: items) (j :: shown)

theorem isHidden_iff {o : Options} {i : Item α} : i.isHidden o = true ↔ i.Hidden o := by
  unfold isHidden
  constructor
  · intro h
    rcases Bool.or_eq_true_iff.mp h with hv | hk
    · obtain ⟨hasked, hv⟩ := Bool.and_eq_true_iff.mp hv
      refine .closed hasked ?_
      cases hi : i.visibility with
      | everyone => simp [hi] at hv
      | family => exact .inr rfl
      | owner => exact .inl rfl
    · obtain ⟨k, hmem, hk⟩ := List.any_eq_true.mp hk
      cases hi : i.keywords with
      | none => simp [hi] at hmem
      | some ks => exact .ignored ks hi k (by simpa [hi] using hmem) (by simpa using hk)
  · rintro (⟨hasked, hv | hv⟩ | ⟨ks, hi, k, hmem, hk⟩)
    · simp [hasked, hv]
    · simp [hasked, hv]
    · apply Bool.or_eq_true_iff.mpr
      exact .inr (List.any_eq_true.mpr ⟨k, by simpa [hi] using hmem, by simpa using hk⟩)

theorem placed_self {o : Options} (h : o.includeLocations = true) {detail : α → α → Prop} {i : Item α}
    (hd : detail i.detail i.detail) : Placed o detail i i :=
  ⟨rfl, by simp [h], rfl, rfl, rfl, hd⟩

theorem placed_withoutLoc {o : Options} (h : o.includeLocations = false) {detail : α → α → Prop}
    {i : Item α} (hd : detail i.detail i.detail) : Placed o detail i i.withoutLoc :=
  ⟨rfl, by simp [h, withoutLoc], rfl, rfl, rfl, hd⟩

theorem shown_filter {o : Options} {detail : α → α → Prop} {f : Item α → Item α}
    (hf : ∀ i, Placed o detail i (f i)) (items : List (Item α)) :
    Shown o detail items ((items.filter fun i => !i.isHidden o).map f) := by
  induction items with
  | nil => exact .nil
  | cons i rest ih =>
    by_cases h : i.isHidden o
    · simpa [h] using ih.hidden (isHidden_iff.mp h)
    · simpa [h] using ih.shown (fun hidden => h (isHidden_iff.mpr hidden)) (hf i)

theorem select_shown (o : Options) (items : List (Item α)) : Shown o (· = ·) items (select o items) := by
  unfold select
  cases h : o.includeLocations with
  | true => simpa using shown_filter (f := id) (fun i => placed_self h rfl) items
  | false => simpa using shown_filter (fun i => placed_withoutLoc h rfl) items

end Item

def Slot.Placed (o : Options) (s t : Slot) : Prop :=
  Option.Rel (List.Forall₂ (Item.Placed o (· = ·))) s.parameters t.parameters

theorem Slot.select_placed (o : Options) (s : Slot) : s.Placed o (s.select o) := by
  unfold Slot.Placed Slot.select
  cases h : o.includeLocations with
  | true =>
    rw [if_pos rfl]
    cases s.parameters with
    | none => exact .none
    | some ps =>
      exact .some (List.forall₂_same.mpr fun p _ => Item.placed_self h rfl)
  | false =>
    cases s.parameters with
    | none => exact .none
    | some ps =>
      apply Option.Rel.some
      rw [List.forall₂_map_right_iff]
      exact List.forall₂_same.mpr fun p _ => Item.placed_withoutLoc h rfl

namespace Documentation

/-- `shown` is what the options show of the documentation `full`. -/
structure Shown (o : Options) (full shown : Documentation) : Prop where
  name : shown.name = full.name
  version : shown.version = full.version
  description : shown.description = full.description
  data : Item.Shown o (· = ·) full.data shown.data
  computed : Item.Shown o (· = ·) full.computed shown.computed
  components : Item.Shown o (· = ·) full.components shown.components
  events : Item.Shown o (· = ·) full.events shown.events
  slots : Item.Shown o (Slot.Placed o) full.slots shown.slots
  refs : Item.Shown o (· = ·) full.refs shown.refs
  methods : Item.Shown o (· = ·) full.methods shown.methods
  actions : Item.Shown o (· = ·) full.actions shown.actions
  helpers : Item.Shown o (· = ·) full.helpers shown.helpers
  transitions : Item.Shown o (· = ·) full.transitions shown.transitions

theorem select_slots_shown (o : Options) (slots : List (Item Slot)) :
    Item.Shown o (Slot.Placed o) slots
      ((Item.select o slots).map fun s => { s with detail := s.detail.select o }) := by
  unfold Item.select
  cases h : o.includeLocations with
  | true =>
    refine Item.shown_filter (fun s => ?_) slots
    exact ⟨rfl, by simp [h], rfl, rfl, rfl, s.detail.select_placed o⟩
  | false =>
    simp only [Bool.false_eq_true, if_false, List.map_map]
    refine Item.shown_filter (fun s => ?_) slots
    exact ⟨rfl, by simp [h, Item.withoutLoc], rfl, rfl, rfl, s.detail.select_placed o⟩

theorem select_shown (o : Options) (d : Documentation) : d.Shown o (d.select o) where
  name := rfl
  version := rfl
  description := rfl
  data := Item.select_shown o d.data
  computed := Item.select_shown o d.computed
  components := Item.select_shown o d.components
  events := Item.select_shown o d.events
  slots := select_slots_shown o d.slots
  refs := Item.select_shown o d.refs
  methods := Item.select_shown o d.methods
  actions := Item.select_shown o d.actions
  helpers := Item.select_shown o d.helpers
  transitions := Item.select_shown o d.transitions

end Documentation

def Options.showAll (o : Options) : Options :=
  { o with includeLocations := true, hidePrivate := false, hiddenKeywords := [] }

theorem Item.select_showAll {α : Type} (o : Options) (items : List (Item α)) :
    Item.select o.showAll items = items := by
  have h : (fun i : Item α => !i.isHidden o.showAll) = fun _ => true := by
    funext i
    simp [Item.isHidden, Options.showAll]
  rw [Item.select, h, List.filter_true]
  rfl

theorem Documentation.select_showAll (o : Options) (d : Documentation) : d.select o.showAll = d := by
  have hslot : ∀ s : Item Slot, { s with detail := s.detail.select o.showAll } = s := fun s => by
    simp [Slot.select, Options.showAll]
  simp only [Documentation.select, Item.select_showAll, hslot, List.map_id']

namespace Extraction

def complete [Script.Reader] (dialect : Dialect) (version : Version) (file : FileName) (source : List Char) :
    Except Failure (Documentation × List Unresolved) := do
  let parts ← (Document.split source).mapError .malformed
  let d ← (declarations dialect parts).1
  let c ← (candidates dialect parts d).1
  let doc ← assemble version file d c
  return (doc, d.unresolved)

/-- What a run with the options `o` makes of the complete documentation. -/
def shownBy (o : Options) : Except Failure (Documentation × List Unresolved) → Extraction → Prop
  | .error e, x => x.result = .error e ∧ x.unresolved = []
  | .ok (doc, unresolved), x => x.result = .ok (doc.select o) ∧ x.unresolved = unresolved

theorem extract_shownBy [Script.Reader] (o : Options) (source : List Char) :
    shownBy o (complete o.dialect o.version o.fileName source) (extract o source) := by
  unfold complete extract
  cases Document.split source with
  | error e => exact ⟨rfl, rfl⟩
  | ok parts =>
    simp only [Except.mapError, bind, Except.bind]
    cases hd : declarations o.dialect parts with | mk declared notices
    cases declared with
    | error e => exact ⟨rfl, rfl⟩
    | ok d =>
      simp only
      cases hc : candidates o.dialect parts d with | mk shown more
      cases shown with
      | error e => exact ⟨rfl, rfl⟩
      | ok c =>
        simp only
        cases assemble o.version o.fileName d c with
        | error e => exact ⟨rfl, rfl⟩
        | ok doc => exact ⟨rfl, rfl⟩

end Extraction

open Extraction in
theorem extract_shows [Script.Reader] {o o' : Options} (hdialect : o.dialect = o'.dialect)
    (hversion : o.version = o'.version)
    (hfile : o.fileName = o'.fileName) (source : List Char) :
    (∀ e, (extract o source).result = .error e ↔ (extract o' source).result = .error e) ∧
      (extract o source).unresolved = (extract o' source).unresolved ∧
      ∀ doc, (extract o source).result = .ok doc →
        ∃ full, (extract o.showAll source).result = .ok full ∧ full.Shown o doc := by
  have h := extract_shownBy o source
  have h' := extract_shownBy o' source
  have hall : shownBy o.showAll (complete o.dialect o.version o.fileName source)
      (extract o.showAll source) := extract_shownBy o.showAll source
  rw [← hdialect, ← hversion, ← hfile] at h'
  cases hc : complete o.dialect o.version o.fileName source with
  | error e =>
    rw [hc] at h h'
    exact ⟨fun e' => by rw [h.1, h'.1], by rw [h.2, h'.2], fun doc hdoc => by simp [h.1] at hdoc⟩
  | ok whole =>
    obtain ⟨full, unresolved⟩ := whole
    rw [hc] at h h' hall
    refine ⟨fun e' => by simp [h.1, h'.1], by rw [h.2, h'.2], fun doc hdoc => ⟨full, ?_, ?_⟩⟩
    · rw [hall.1, full.select_showAll]
    · obtain rfl : full.select o = doc := Except.ok.inj (h.1.symm.trans hdoc)
      exact full.select_shown o

theorem extract_shows_private_property :
    let o : Options := { Options.standard with hidePrivate := true }
    let source := "<script>/** @private */ let a; let b;</script><slot x={b}/>".toList
    (o.dialect = Options.standard.dialect ∧ o.version = Options.standard.version ∧
        o.fileName = Options.standard.fileName) ∧
      (extract o source).unresolved = (extract .standard source).unresolved ∧
      ∃ full doc, (extract o source).result = .ok doc ∧ (extract o.showAll source).result = .ok full ∧
        full.Shown o doc ∧ full.data.map (·.name) = ["a", "b"] ∧ doc.data.map (·.name) = ["b"] ∧
          full.data.any (·.loc.isSome) ∧ doc.data.all (·.loc.isNone) := by
  intro o source
  have hdoc : (extract o source).result.toOption.map (fun d => (d.data.map (·.name), d.data.all (·.loc.isNone))) =
      some ([("b" : CodeText)], true) := by
    decide +kernel
  have hfull : (extract o.showAll source).result.toOption.map
      (fun d => (d.data.map (·.name), d.data.any (·.loc.isSome))) = some ([("a" : CodeText), "b"], true) := by
    decide +kernel
  have hdialect : o.dialect = Options.standard.dialect := rfl
  obtain ⟨-, hunresolved, hshows⟩ := extract_shows hdialect rfl rfl source
  refine ⟨⟨rfl, rfl, rfl⟩, hunresolved, ?_⟩
  cases hresult : (extract o source).result with
  | error e => simp [hresult, Except.toOption] at hdoc
  | ok doc =>
    obtain ⟨full, hall, hshown⟩ := hshows doc hresult
    rw [hresult] at hdoc
    rw [hall] at hfull
    obtain ⟨hnames, hloc⟩ := Prod.mk.inj (Option.some.inj hdoc)
    obtain ⟨hnames', hloc'⟩ := Prod.mk.inj (Option.some.inj hfull)
    exact ⟨full, doc, rfl, hall, hshown, hnames', hnames, hloc', hloc⟩

end ComponentDoc
