import ComponentDoc.Proofs.Declaration.Dependencies
import ComponentDoc.Proofs.Declaration.Names
import ComponentDoc.Proofs.Documentation.Uniqueness

/-!
Names under which bindings are exported. Main statement: where a script gives each of its names once, names
collide in its documentation, within a category or between a computed property and what it depends on, exactly
where a binding is exported under the name of another one that keeps it.
-/

namespace ComponentDoc

open Script Markup

namespace Script.Source

variable (s : Source)

/-- The binding `a` is exported under the name of the binding `b`, which keeps it. -/
def TakesName (a b : CodeText) : Prop := s.exportedAs? a = some b ∧ s.exportedAs? b = none

/-- None of the names is given to another one of them. -/
def Apart (names : List CodeText) : Prop := ∀ a ∈ names, ∀ b ∈ names, ¬s.TakesName a b

instance (a b : CodeText) : Decidable (s.TakesName a b) := inferInstanceAs (Decidable (_ ∧ _))

instance (names : List CodeText) : Decidable (s.Apart names) :=
  inferInstanceAs (Decidable (∀ a ∈ names, ∀ b ∈ names, _))

instance : Decidable s.NamesFunctions :=
  inferInstanceAs (Decidable (∀ statement ∈ s.root.named, ∀ d ∈ statement.exportedConstants, _ → _))

variable {s}

theorem mem_renames_of_exportedAs? {name other : CodeText} (h : s.exportedAs? name = some other) :
    (name, other) ∈ s.renames := by
  obtain ⟨r, hr, rfl⟩ := Option.map_eq_some_iff.mp h
  obtain rfl : r.1 = name := by simpa using List.find?_some hr
  exact List.mem_reverse.mp (List.mem_of_find?_eq_some hr)

theorem exportedAs?_inj (hrenames : (s.renames.map Prod.snd).Nodup) {a b other : CodeText}
    (ha : s.exportedAs? a = some other) (hb : s.exportedAs? b = some other) : a = b :=
  congrArg Prod.fst (List.inj_on_of_nodup_map hrenames (mem_renames_of_exportedAs? ha)
    (mem_renames_of_exportedAs? hb) rfl)

end Script.Source

namespace Declarations

variable {s : Source} {d : Declarations}

theorem NamedBy.publicName_eq_iff (h : d.NamedBy s) (hrenames : (s.renames.map Prod.snd).Nodup) {a b : CodeText}
    (hne : a ≠ b) : d.publicName a = d.publicName b ↔ s.TakesName a b ∨ s.TakesName b a := by
  rw [h.publicName, h.publicName, Source.TakesName, Source.TakesName]
  cases ha : s.exportedAs? a with
  | none =>
    cases hb : s.exportedAs? b with
    | none => simp [hne]
    | some n => simp [eq_comm]
  | some m =>
    cases hb : s.exportedAs? b with
    | none => simp
    | some n =>
      have hdistinct : m ≠ n := by
        rintro rfl
        exact hne (Source.exportedAs?_inj hrenames ha hb)
      simp [hdistinct]

theorem NamedBy.nodup_publicNames_iff (h : d.NamedBy s) (hrenames : (s.renames.map Prod.snd).Nodup)
    {names : List CodeText} (hnames : names.Nodup) : (names.map d.publicName).Nodup ↔ s.Apart names := by
  constructor
  · intro hnodup a ha b hb htakes
    have hne : a ≠ b := by
      rintro rfl
      exact absurd (htakes.1.symm.trans htakes.2) (by simp)
    have hpublic := (h.publicName_eq_iff hrenames hne).mpr (.inl htakes)
    exact hne (List.inj_on_of_nodup_map hnodup ha hb hpublic)
  · intro hapart
    refine hnames.map_on fun a ha b hb hpublic => ?_
    by_contra hne
    obtain htakes | htakes := (h.publicName_eq_iff hrenames hne).mp hpublic
    · exact hapart a ha b hb htakes
    · exact hapart b hb a ha htakes

def categoryNames (d : Declarations) : List (List CodeText) :=
  d.data.map (·.name) :: d.computed.map (·.name) ::
    Bucket.all.map fun b => (d.functions.filter fun x => x.bucket = b).map (·.name)

def ownDuplicate? (d : Declarations) : Option DuplicateName :=
  (Item.duplicate? "data" d.properties).or <| (Item.duplicate? "computed" d.computations).or <|
    Bucket.all.findSome? fun b => Item.duplicate? b.name (d.functionsIn b)

theorem duplicate?_eq_or (d : Declarations) (c : Candidates) :
    d.duplicate? c = d.ownDuplicate?.or (Item.duplicate? "refs" c.refs) := by
  rw [duplicate?, ownDuplicate?, Option.or_assoc, Option.or_assoc]

theorem category_of_duplicate? {α : Type} {category : String} {items : List (Item α)} {e : DuplicateName}
    (h : Item.duplicate? category items = some e) : e.category = category := by
  obtain ⟨name, first, second, -, rfl⟩ := Item.duplicate?_eq_some_iff.mp h
  rfl

theorem category_ownDuplicate? {d : Declarations} {e : DuplicateName} (h : d.ownDuplicate? = some e) :
    e.category ≠ "refs" := by
  obtain h | ⟨-, h⟩ := Option.or_eq_some_iff.mp h
  · rw [category_of_duplicate? h]
    decide
  obtain h | ⟨-, h⟩ := Option.or_eq_some_iff.mp h
  · rw [category_of_duplicate? h]
    decide
  · obtain ⟨b, -, h⟩ := List.exists_of_findSome?_eq_some h
    rw [category_of_duplicate? h]
    cases b <;> decide

theorem ownDuplicate?_eq_none_iff (d : Declarations) :
    d.ownDuplicate? = none ↔ ∀ names ∈ d.categoryNames, (names.map d.publicName).Nodup := by
  have hdata : d.properties.map (·.name) = (d.data.map (·.name)).map d.publicName := by
    simp [properties, Function.comp_def]
  have hcomputed : d.computations.map (·.name) = (d.computed.map (·.name)).map d.publicName := by
    simp [computations, Function.comp_def]
  have hfunctions (b : Bucket) : (d.functionsIn b).map (·.name) =
      ((d.functions.filter fun x => x.bucket = b).map (·.name)).map d.publicName := by
    simp [functionsIn, Function.comp_def]
  simp only [ownDuplicate?, Option.or_eq_none_iff, List.findSome?_eq_none_iff, Item.duplicate?_eq_none_iff,
    Item.map_entry_fst, hdata, hcomputed, hfunctions, categoryNames, List.forall_mem_cons, List.forall_mem_map]

theorem exists_duplicate?_iff (d : Declarations) (c : Candidates) :
    (∃ e, d.duplicate? c = some e ∧ e.category ≠ "refs") ↔
      ∃ names ∈ d.categoryNames, ¬(names.map d.publicName).Nodup := by
  have hown : (∃ e, d.duplicate? c = some e ∧ e.category ≠ "refs") ↔ d.ownDuplicate? ≠ none := by
    rw [duplicate?_eq_or]
    cases hd : d.ownDuplicate? with
    | some e => simp [category_ownDuplicate? hd]
    | none =>
      simp only [Option.none_or, ne_eq, not_true_eq_false, iff_false, not_exists, not_and, not_not]
      exact fun e => category_of_duplicate?
  rw [hown, ne_eq, ownDuplicate?_eq_none_iff]
  simp

theorem nodup_dependenciesOf {d : Declarations} {c : ComputedDeclaration} {e : Option Script.Node}
    (h : c.reads = .expression e) : (c.name :: d.dependenciesOf c).Nodup := by
  unfold dependenciesOf
  rw [h]
  cases e with
  | none => exact List.nodup_singleton _
  | some e =>
    cases d.source with
    | none => exact List.nodup_singleton _
    | some s =>
      have hnodup := knownReads_nodup s d.knownNames e
      exact List.nodup_cons.mpr ⟨hnodup.not_mem_erase, hnodup.erase c.name⟩

end Declarations

/-- A script that gives each of its names once: no two of its declarations have one name, it assigns no two
reactively, and exports no two bindings under one other name. -/
structure Script.Source.NamesOnce (s : Source) : Prop where
  declared : s.declaredNames.Nodup
  reactive : s.reactiveNames.Nodup
  renames : (s.renames.map Prod.snd).Nodup

theorem Declarations.NamedBy.nodup_categoryNames {s : Source} {d : Declarations} (h : d.NamedBy s) (hs : s.NamesOnce) :
    ∀ names ∈ d.categoryNames, names.Nodup := by
  simp only [categoryNames, List.forall_mem_cons, List.forall_mem_map]
  refine ⟨hs.declared.sublist h.data, hs.reactive.sublist h.computed, fun b _ => ?_⟩
  exact hs.declared.sublist ((List.filter_sublist.map _).trans h.functions)

/-- The names of a script collide in the documentation exactly where a binding is exported under the name of
another one that keeps it. -/
theorem assemble_renamed {s : Source} {d : Declarations} {p : Progress}
    (hrun : Reading.start (TopLevel.read s) s = (.ok d, p)) (hfunctions : s.NamesFunctions) (hs : s.NamesOnce) :
    (∀ version file c, (∃ e, assemble version file d c = .error (.duplicate e) ∧ e.category ≠ "refs") ↔
        ∃ names ∈ d.categoryNames, ¬s.Apart names) ∧
      ∀ version file c doc, assemble version file d c = .ok doc → ∀ i ∈ doc.computed, ∃ x ∈ d.computed,
        i.name = d.publicName x.name ∧
          ((i.name :: i.detail.dependencies).Nodup ↔ s.Apart (x.name :: d.dependenciesOf x)) := by
  have hd : d.NamedBy s := TopLevel.ensures_read_namedBy hfunctions _ d p hrun
  refine ⟨fun version file c => ?_, fun version file c doc hdoc i hi => ?_⟩
  · simp only [assemble_duplicate_iff, Declarations.exists_duplicate?_iff]
    refine exists_congr fun names => and_congr_right fun hnames => not_congr ?_
    exact hd.nodup_publicNames_iff hs.renames (hd.nodup_categoryNames hs names hnames)
  · rw [(assemble_eq_ok hdoc).1] at hi
    obtain ⟨x, hx, rfl⟩ := List.mem_map.mp hi
    obtain ⟨e, he⟩ := hd.expressions x hx
    refine ⟨x, hx, Item.name_ofComment _ _ _ _, ?_⟩
    rw [Item.name_ofComment, ← hd.nodup_publicNames_iff hs.renames (Declarations.nodup_dependenciesOf he),
      List.map_cons]
    cases x.comment <;> exact Iff.rfl

theorem assemble_renamed_swapped :
    let text := "let a, b; $: total = a + b + $c; let c; export \x7b a as b, b as a, c as sum, f as run \x7d;\n" ++
      "export const f = () => total;"
    ∃ s d p doc, parse text.toList 0 none = .ok s ∧ Reading.start (TopLevel.read s) s = (.ok d, p) ∧
      s.NamesFunctions ∧ s.NamesOnce ∧ assemble (.whole 3) .absent d ⟨[], [], [], [], none⟩ = .ok doc ∧
      (∀ c, ¬∃ e, assemble (.whole 3) .absent d c = .error (.duplicate e) ∧ e.category ≠ "refs") ∧
      doc.computed.map (fun i => i.name :: i.detail.dependencies) = [[("total" : CodeText), "b", "a", "sum"]] ∧
      ∀ i ∈ doc.computed, (i.name :: i.detail.dependencies).Nodup := by
  intro text
  have hread : (parse text.toList 0 none).toOption.any fun s =>
      (s.NamesFunctions ∧ s.declaredNames.Nodup ∧ s.reactiveNames.Nodup ∧ (s.renames.map Prod.snd).Nodup) ∧
        (Reading.start (TopLevel.read s) s).1.toOption.any fun d =>
          (∀ names ∈ d.categoryNames, s.Apart names) ∧ (∀ x ∈ d.computed, s.Apart (x.name :: d.dependenciesOf x)) ∧
          (assemble (.whole 3) .absent d ⟨[], [], [], [], none⟩).toOption.any fun doc =>
            doc.computed.map (fun i => i.name :: i.detail.dependencies) =
              [[("total" : CodeText), "b", "a", "sum"]] := by
    decide +kernel
  obtain ⟨s, hparse, hread⟩ := exists_ok_of_any hread
  obtain ⟨⟨hfunctions, hdeclared, hreactive, hrenames⟩, hread⟩ := of_decide_eq_true hread
  have hs : s.NamesOnce := ⟨hdeclared, hreactive, hrenames⟩
  cases hrun : Reading.start (TopLevel.read s) s with
  | mk result p =>
    rw [hrun] at hread
    obtain ⟨d, rfl, hread⟩ := exists_ok_of_any hread
    obtain ⟨hcategories, hcomputed, hread⟩ := of_decide_eq_true hread
    obtain ⟨doc, hdoc, hnames⟩ := exists_ok_of_any hread
    obtain ⟨hfaults, hdependencies⟩ := assemble_renamed hrun hfunctions hs
    refine ⟨s, d, p, doc, hparse, hrun, hfunctions, hs, hdoc, fun c hfault => ?_, of_decide_eq_true hnames,
      fun i hi => ?_⟩
    · obtain ⟨names, hmem, hclash⟩ := (hfaults _ _ c).mp hfault
      exact hclash (hcategories names hmem)
    · obtain ⟨x, hx, -, hnodup⟩ := hdependencies _ _ _ doc hdoc i hi
      exact hnodup.mpr (hcomputed x hx)

/-- A name that a binding takes from another one is given twice; a computed property of that name seems to
depend on itself. -/
theorem export_under_kept_name :
    (let text := "let a; let b; export \x7b a as b \x7d;"
      ∃ s d p, parse text.toList 0 none = .ok s ∧ Reading.start (TopLevel.read s) s = (.ok d, p) ∧
        s.NamesFunctions ∧ (s.declaredNames ++ s.reactiveNames).Nodup ∧ (s.renames.map Prod.snd).Nodup ∧
        ∃ e, assemble (.whole 3) .absent d ⟨[], [], [], [], none⟩ = .error (.duplicate e) ∧
          e = ⟨"data", "b", [⟨4, 5⟩, ⟨11, 12⟩]⟩) ∧
      let text := "let a; $: b = a; export \x7b a as b \x7d;"
      ∃ s d p doc, parse text.toList 0 none = .ok s ∧ Reading.start (TopLevel.read s) s = (.ok d, p) ∧
        s.NamesFunctions ∧ (s.declaredNames ++ s.reactiveNames).Nodup ∧ (s.renames.map Prod.snd).Nodup ∧
        assemble (.whole 3) .absent d ⟨[], [], [], [], none⟩ = .ok doc ∧
        doc.computed.map (fun i => i.name :: i.detail.dependencies) = [[("b" : CodeText), "b"]] := by
  constructor
  · intro text
    have hread : (parse text.toList 0 none).toOption.any fun s =>
        (s.NamesFunctions ∧ (s.declaredNames ++ s.reactiveNames).Nodup ∧ (s.renames.map Prod.snd).Nodup) ∧
          (Reading.start (TopLevel.read s) s).1.toOption.any fun d =>
            d.duplicate? ⟨[], [], [], [], none⟩ = some ⟨"data", "b", [⟨4, 5⟩, ⟨11, 12⟩]⟩ := by
      decide +kernel
    obtain ⟨s, hparse, hread⟩ := exists_ok_of_any hread
    obtain ⟨⟨hfunctions, hnames, hrenames⟩, hread⟩ := of_decide_eq_true hread
    cases hrun : Reading.start (TopLevel.read s) s with
    | mk result p =>
      rw [hrun] at hread
      obtain ⟨d, rfl, hread⟩ := exists_ok_of_any hread
      exact ⟨s, d, p, hparse, hrun, hfunctions, hnames, hrenames, _,
        assemble_duplicate_iff.mpr (of_decide_eq_true hread), rfl⟩
  · intro text
    have hread : (parse text.toList 0 none).toOption.any fun s =>
        (s.NamesFunctions ∧ (s.declaredNames ++ s.reactiveNames).Nodup ∧ (s.renames.map Prod.snd).Nodup) ∧
          (Reading.start (TopLevel.read s) s).1.toOption.any fun d =>
            (assemble (.whole 3) .absent d ⟨[], [], [], [], none⟩).toOption.any fun doc =>
              doc.computed.map (fun i => i.name :: i.detail.dependencies) = [[("b" : CodeText), "b"]] := by
      decide +kernel
    obtain ⟨s, hparse, hread⟩ := exists_ok_of_any hread
    obtain ⟨⟨hfunctions, hnames, hrenames⟩, hread⟩ := of_decide_eq_true hread
    cases hrun : Reading.start (TopLevel.read s) s with
    | mk result p =>
      rw [hrun] at hread
      obtain ⟨d, rfl, hassemble⟩ := exists_ok_of_any hread
      obtain ⟨doc, hdoc, hcomputed⟩ := exists_ok_of_any hassemble
      exact ⟨s, d, p, doc, hparse, hrun, hfunctions, hnames, hrenames, hdoc, of_decide_eq_true hcomputed⟩

end ComponentDoc
