import ComponentDoc.Documentation.Selection
import ComponentDoc.Proofs.Declaration.Names
import ComponentDoc.Proofs.Declaration.TopLevel
import ComponentDoc.Proofs.Documentation.Uniqueness

namespace ComponentDoc

open Script

namespace Script.Source

variable (s : Source)

def specifierExports (specifier : Node) : List (CodeText × CodeText) :=
  if specifier.kind = .exportSpecifier then
    (specifier.part .name).map fun name =>
      (s.nameOf name, (specifier.child? .otherName).elim (s.nameOf name) fun other =>
        (stringValue? s other).toOption.join.getD (s.nameOf other))
  else []

def clauseExports (statement : Node) : List (CodeText × CodeText) :=
  if statement.kind = .exportStatement ∧ statement.child? .source = none then
    (statement.named.find? fun c => c.kind = .exportClause).toList.flatMap fun clause =>
      clause.named.flatMap s.specifierExports
  else []

def exports : List (CodeText × CodeText) := s.root.named.flatMap s.clauseExports

def declaratorNames (constant : Bool) (d : Node) : List CodeText :=
  if constant && (TopLevel.functionValue? d).isSome then (d.part .name).map s.nameOf
  else s.boundNames (d.child? .name)

def documentedVariables (exported : Bool) (declaration : Node) : List CodeText :=
  if TopLevel.isConstant declaration && !exported then []
  else (declaration.named.filter fun d => d.kind = .variableDeclarator).flatMap
    (s.declaratorNames (TopLevel.isConstant declaration))

def documentedExport (declaration : Node) : List CodeText :=
  match declaration.kind with
  | .functionDeclaration | .generatorFunctionDeclaration => (declaration.part .name).map s.nameOf
  | .lexicalDeclaration | .variableDeclaration => s.documentedVariables true declaration
  | _ => []

def documentedIn (statement : Node) : List CodeText :=
  match statement.kind with
  | .exportStatement => (TopLevel.exportedDeclaration? statement).toList.flatMap s.documentedExport
  | .lexicalDeclaration | .variableDeclaration => s.documentedVariables false statement
  | _ => []

def documentedNames : List CodeText := s.root.named.flatMap s.documentedIn

end Script.Source

namespace TopLevel

open Reading

variable {s : Source}

def Finding.declaredName? : Finding → Option CodeText
  | data d => some d.name
  | function d => some d.name
  | _ => none

/-- Findings of the declarations with the names `declared`, of computed properties with names in `reactive`, and of
the other names `renames`. -/
structure Found (declared reactive : List CodeText) (renames : List (CodeText × CodeText)) (findings : List Finding) :
    Prop where
  declared : findings.filterMap Finding.declaredName? = declared
  computed : ∀ c ∈ findings.filterMap Finding.computed?, c.name ∈ reactive
  exported : findings.filterMap Finding.exported? = renames

theorem found_nil (reactive : List CodeText) : Found [] reactive [] [] := ⟨rfl, nofun, rfl⟩

theorem Found.append {declared declared' reactive reactive' : List CodeText}
    {renames renames' : List (CodeText × CodeText)} {fs gs : List Finding}
    (hf : Found declared reactive renames fs) (hg : Found declared' reactive' renames' gs) :
    Found (declared ++ declared') (reactive ++ reactive') (renames ++ renames') (fs ++ gs) where
  declared := by rw [List.filterMap_append, hf.declared, hg.declared]
  computed := by
    rw [List.filterMap_append, List.forall_mem_append]
    exact ⟨fun c hc => List.mem_append_left _ (hf.computed c hc),
      fun c hc => List.mem_append_right _ (hg.computed c hc)⟩
  exported := by rw [List.filterMap_append, hf.exported, hg.exported]

theorem CalledBy.found {reactive : List CodeText} {renames : List (CodeText × CodeText)} {fs : List Finding}
    (h : CalledBy [] reactive renames fs) : Found [] reactive renames fs where
  declared := by
    have hdata := List.map_eq_nil_iff.mp (List.eq_nil_of_sublist_nil h.data)
    have hfunctions := List.map_eq_nil_iff.mp (List.eq_nil_of_sublist_nil h.functions)
    rw [List.filterMap_eq_nil_iff] at hdata hfunctions ⊢
    intro f hf
    cases f with
    | data d => exact absurd (hdata _ hf) (by simp [Finding.data?])
    | function d => exact absurd (hfunctions _ hf) (by simp [Finding.function?])
    | computed d => rfl
    | exported name publicName => rfl
  computed := fun c hc => h.computed.subset (List.mem_map_of_mem hc)
  exported := h.exported

theorem ensures_gather_found {f : Node → Reading (List Finding)} {declared reactive : Node → List CodeText}
    {renames : Node → List (CodeText × CodeText)} {ns : List Node}
    (h : ∀ n ∈ ns, (f n).Ensures (Found (declared n) (reactive n) (renames n))) :
    (gather f ns).Ensures (Found (ns.flatMap declared) (ns.flatMap reactive) (ns.flatMap renames)) := by
  induction ns with
  | nil => exact ensures_pure (found_nil [])
  | cons n ns ih =>
    refine ensures_bind (h n List.mem_cons_self) fun fs hfs => ?_
    refine ensures_bind (ih fun m hm => h m (List.mem_cons_of_mem n hm)) fun gs hgs => ?_
    exact ensures_pure (hfs.append hgs)

theorem ensures_gather_found_declared {f : Node → Reading (List Finding)} {declared : Node → List CodeText}
    {ns : List Node} (h : ∀ n ∈ ns, (f n).Ensures (Found (declared n) [] [])) :
    (gather f ns).Ensures (Found (ns.flatMap declared) [] []) := by
  have hgather := ensures_gather_found h
  rwa [flatMap_nil, flatMap_nil] at hgather

theorem found_readFunction (nameNode : Option Node) (fn : Node) (comment : Option Comment) :
    (readFunction s nameNode fn comment).Ensures (Found (nameNode.toList.map s.nameOf) [] []) := by
  cases nameNode with
  | none => exact ensures_pure (found_nil _)
  | some n => exact ensures_then fun arguments => ensures_pure ⟨rfl, nofun, rfl⟩

theorem found_readProperty (annotated : Option String) (initial : Option Node) (comment : Option Comment) (n : Node) :
    (readProperty s annotated initial comment n).Ensures fun f => Found [s.nameOf n] [] [] [f] := by
  refine ensures_then fun type => ?_
  cases initial with
  | none => exact ensures_pure ⟨rfl, nofun, rfl⟩
  | some i => exact ensures_then fun value => ensures_pure ⟨rfl, nofun, rfl⟩

theorem found_readDeclarator (constant : Bool) (comment : Option Comment) (d : Node) :
    (readDeclarator s constant comment d).Ensures (Found (s.declaratorNames constant d) [] []) := by
  unfold readDeclarator Source.declaratorNames
  split
  · next fn hfn =>
    obtain ⟨hconstant, hfn⟩ := Option.ite_none_right_eq_some.mp hfn
    rw [if_pos (by simp [hconstant, hfn])]
    exact found_readFunction _ _ _
  · next hnone =>
    have hno : ¬((constant && (functionValue? d).isSome) = true) := by
      intro h
      obtain ⟨hconstant, hsome⟩ := Bool.and_eq_true_iff.mp h
      rw [if_pos hconstant] at hnone
      rw [hnone] at hsome
      cases hsome
    rw [if_neg hno]
    dsimp only
    split
    · next hname =>
      rw [hname]
      exact ensures_pure (found_nil _)
    · next pattern hpattern =>
      rw [hpattern, Source.boundNames, Option.elim_some, List.map_eq_flatMap]
      refine ensures_gather_found_declared fun n _ => ?_
      exact ensures_bind (found_readProperty _ _ comment n) fun f hf => ensures_pure hf

theorem found_readVariables (statement declaration : Node) (exported : Bool) :
    (readVariables s statement declaration exported).Ensures
      (Found (s.documentedVariables exported declaration) [] []) := by
  unfold readVariables Source.documentedVariables
  split
  · exact ensures_pure (found_nil _)
  · exact ensures_then fun comment => ensures_gather_found_declared fun d _ => found_readDeclarator _ comment d

theorem found_readExported (statement declaration : Node) :
    (readExported s statement declaration).Ensures (Found (s.documentedExport declaration) [] []) := by
  unfold readExported Source.documentedExport
  cases declaration.kind
  case functionDeclaration | generatorFunctionDeclaration =>
    exact ensures_then fun comment => found_readFunction _ _ _
  case lexicalDeclaration | variableDeclaration => exact found_readVariables _ _ _
  all_goals exact ensures_pure (found_nil _)

theorem found_readExport {statement : Node} (hkind : statement.kind = .exportStatement) :
    (readExport s statement).Ensures
      (Found ((exportedDeclaration? statement).toList.flatMap s.documentedExport) [] (s.clauseRenames statement)) := by
  unfold readExport
  dsimp only
  split
  · next clause hclause hsource =>
    rw [exportedDeclaration?_of_clause hclause hsource, Source.clauseRenames, if_pos ⟨hkind, hsource⟩, hclause,
      Option.toList_some, List.flatMap_singleton]
    have hgather := ensures_gather_calledBy fun n (_ : n ∈ clause.named) => ensures_readSpecifier (s := s) n
    rw [flatMap_nil] at hgather
    exact hgather.imp fun fs hfs => hfs.found
  · next hpast =>
    rw [exportedDeclaration?_of_not_clause hpast, s.clauseRenames_eq_nil hpast]
    split
    · next hdeclaration =>
      rw [hdeclaration]
      exact ensures_then fun _ => ensures_pure (found_nil _)
    · next declaration hdeclaration =>
      rw [hdeclaration, Option.toList_some, List.flatMap_singleton]
      exact found_readExported statement declaration

theorem found_readStatement (statement : Node) : (readStatement s statement).Ensures
    (Found (s.documentedIn statement) (s.reactiveName statement) (s.clauseRenames statement)) := by
  have hreactive (h : statement.kind ≠ .labeledStatement) : s.reactiveName statement = [] := if_neg h
  have hrenames (h : statement.kind ≠ .exportStatement) : s.clauseRenames statement = [] := if_neg fun hc => h hc.1
  unfold readStatement Source.documentedIn
  cases hkind : statement.kind
  case exportStatement =>
    rw [hreactive (by simp [hkind])]
    exact found_readExport hkind
  case lexicalDeclaration | variableDeclaration =>
    rw [hreactive (by simp [hkind]), hrenames (by simp [hkind])]
    exact found_readVariables statement statement false
  case labeledStatement =>
    rw [hrenames (by simp [hkind])]
    exact (ensures_readReaction statement hkind).imp fun fs hfs => hfs.found
  all_goals
    rw [hreactive (by simp [hkind]), hrenames (by simp [hkind])]
    exact ensures_pure (found_nil _)

end TopLevel

/-- The local names of the members that a script declares. -/
def Declarations.memberNames (d : Declarations) : List CodeText :=
  d.data.map (·.name) ++ d.computed.map (·.name) ++ d.functions.map (·.name)

/-- The members of a script are the documented ones of its declarations, and reactive assignments. -/
structure Declarations.Documents (s : Source) (d : Declarations) : Prop where
  complete : ∀ name ∈ s.documentedNames, name ∈ d.memberNames
  sound : ∀ name ∈ d.memberNames, name ∈ s.documentedNames ∨ name ∈ s.reactiveNames
  publicName : ∀ name, d.publicName name = (s.exportedAs? name).getD name

theorem TopLevel.ensures_read_documents (s : Source) : (read s).Ensures (Declarations.Documents s) := by
  refine Reading.ensures_then fun imports => ?_
  refine Reading.ensures_bind (ensures_gather_found fun statement _ => found_readStatement statement)
    fun findings hfindings => ?_
  dsimp only
  rw [List.partition_eq_filter_filter]
  refine Reading.ensures_then fun _ => Reading.ensures_then fun events => Reading.ensures_then fun _ => ?_
  have hnames : s.documentedNames = findings.filterMap Finding.declaredName? := hfindings.declared.symm
  refine Reading.ensures_pure
    { complete := fun name hname => ?_, sound := fun name hname => ?_, publicName := fun name => ?_ }
  · obtain ⟨f, hf, hname⟩ := List.mem_filterMap.mp (hnames ▸ hname)
    simp only [Declarations.memberNames, map_name_lendComments, List.mem_append, List.mem_map]
    cases f with
    | data x =>
      cases hname
      have hx : x ∈ findings.filterMap Finding.data? := List.mem_filterMap.mpr ⟨_, hf, rfl⟩
      cases hcomputed : isComputed (findings.filterMap Finding.computed?) x.name with
      | false => exact .inl (.inl ⟨x, List.mem_filter.mpr ⟨hx, by simp [hcomputed]⟩, rfl⟩)
      | true =>
        obtain ⟨c, hc, hname⟩ := List.any_eq_true.mp hcomputed
        exact .inl (.inr ⟨c, hc, of_decide_eq_true hname⟩)
    | function x =>
      cases hname
      exact .inr ⟨x, List.mem_filterMap.mpr ⟨_, hf, rfl⟩, rfl⟩
    | computed => cases hname
    | exported => cases hname
  · have hdeclared {f : Finding} (hf : f ∈ findings) (hname : f.declaredName? = some name) : name ∈ s.documentedNames :=
      hnames ▸ List.mem_filterMap.mpr ⟨f, hf, hname⟩
    simp only [Declarations.memberNames, map_name_lendComments, List.mem_append, List.mem_map] at hname
    rcases hname with (⟨x, hx, rfl⟩ | ⟨x, hx, rfl⟩) | ⟨x, hx, rfl⟩
    · obtain ⟨f, hf, hdata⟩ := List.mem_filterMap.mp (List.mem_filter.mp hx).1
      cases f <;> cases hdata
      exact .inl (hdeclared hf rfl)
    · exact .inr (hfindings.computed x hx)
    · obtain ⟨f, hf, hfunction⟩ := List.mem_filterMap.mp hx
      cases f <;> cases hfunction
      exact .inl (hdeclared hf rfl)
  · rw [Declarations.publicName, Keyed.get?_foldl_set, hfindings.exported]
    rfl

def Documentation.memberNames (doc : Documentation) : List CodeText :=
  doc.data.map (·.name) ++ doc.computed.map (·.name) ++
    (doc.methods ++ doc.actions ++ doc.helpers ++ doc.transitions).map (·.name)

theorem Declarations.map_name_functionsIn (d : Declarations) (b : Bucket) :
    (d.functionsIn b).map (·.name) = (d.functions.filter fun x => x.bucket = b).map fun x => d.publicName x.name := by
  simp [functionsIn, Function.comp_def]

theorem mem_memberNames_assemble {version : Version} {file : FileName} {d : Declarations} {c : Markup.Candidates}
    {doc : Documentation} (h : assemble version file d c = .ok doc) {n : CodeText} :
    n ∈ doc.memberNames ↔ ∃ name ∈ d.memberNames, d.publicName name = n := by
  have hdoc : doc.memberNames = d.data.map (fun x => d.publicName x.name) ++
      d.computed.map (fun x => d.publicName x.name) ++ Bucket.all.flatMap fun b => (d.functionsIn b).map (·.name) := by
    rw [assemble] at h
    split at h
    · cases h
    · obtain ⟨name, -, rfl⟩ := map_eq_ok.mp h
      simp [Documentation.memberNames, Declarations.properties, Declarations.computations, Function.comp_def,
        Bucket.all]
  have hfunctions : (n ∈ Bucket.all.flatMap fun b => (d.functionsIn b).map (·.name)) ↔
      ∃ x ∈ d.functions, d.publicName x.name = n := by
    simp only [List.mem_flatMap, Declarations.map_name_functionsIn, List.mem_map, List.mem_filter, decide_eq_true_eq]
    constructor
    · rintro ⟨b, -, x, ⟨hx, -⟩, hname⟩
      exact ⟨x, hx, hname⟩
    · rintro ⟨x, hx, hname⟩
      exact ⟨x.bucket, x.bucket.mem_all, x, ⟨hx, rfl⟩, hname⟩
  rw [hdoc, List.mem_append, List.mem_append, hfunctions]
  simp only [Declarations.memberNames, List.mem_append, List.mem_map, or_and_right, exists_or, exists_exists_and_eq_and]

theorem Item.map_name_select {α : Type} {o : Options} {items : List (Item α)} (h : hiddenNotices o items = []) :
    (select o items).map (·.name) = items.map (·.name) := by
  have hshown : items.filter (fun i => !i.isHidden o) = items := by
    rw [hiddenNotices, List.map_eq_nil_iff, List.filter_eq_nil_iff] at h
    exact List.filter_eq_self.mpr fun i hi => by simpa using h i hi
  unfold select
  rw [hshown]
  dsimp only
  split
  · rfl
  · exact map_withoutLoc_names items

theorem Documentation.memberNames_select {o : Options} {doc : Documentation} (h : doc.hiddenNotices o = []) :
    (doc.select o).memberNames = doc.memberNames := by
  simp only [hiddenNotices, List.append_eq_nil_iff] at h
  simp only [memberNames, select, List.map_append]
  rw [Item.map_name_select, Item.map_name_select, Item.map_name_select, Item.map_name_select, Item.map_name_select,
    Item.map_name_select]
  all_goals simp only [h]

namespace Script.Source

variable {s : Source} {name publicName : CodeText}

theorem mem_renames_of_mem_exports (h : (name, publicName) ∈ s.exports) :
    publicName = name ∨ ∃ other, (name, other) ∈ s.renames := by
  obtain ⟨statement, hstatement, h⟩ := List.mem_flatMap.mp h
  unfold clauseExports at h
  split at h
  · next hown =>
    obtain ⟨clause, hclause, h⟩ := List.mem_flatMap.mp h
    obtain ⟨specifier, hspecifier, h⟩ := List.mem_flatMap.mp h
    unfold specifierExports at h
    split at h
    · next hkind =>
      obtain ⟨n, hn, he⟩ := List.mem_map.mp h
      obtain ⟨rfl, rfl⟩ := Prod.mk.inj he
      cases hother : specifier.child? .otherName with
      | none => exact .inl rfl
      | some other =>
        refine .inr ⟨.ofChars (TopLevel.withoutQuotes (s.chars other)),
          List.mem_flatMap.mpr ⟨statement, hstatement, ?_⟩⟩
        rw [clauseRenames, if_pos hown]
        refine List.mem_flatMap.mpr ⟨clause, hclause, List.mem_flatMap.mpr ⟨specifier, hspecifier, ?_⟩⟩
        rw [specifierRenames, if_pos hkind]
        exact List.mem_flatMap.mpr ⟨n, hn, by simp [Node.part, hother]⟩
    · cases h
  · cases h

theorem exportedAs?_ne_none (h : ∃ other, (name, other) ∈ s.renames) : s.exportedAs? name ≠ none := by
  obtain ⟨other, hother⟩ := h
  rw [exportedAs?, ne_eq, Option.map_eq_none_iff, List.find?_eq_none]
  exact fun hnone => hnone _ (List.mem_reverse.mpr hother) (decide_eq_true rfl)

end Script.Source

/-- A name that is exported by a list is documented where its declaration is documented without the list, if no
later list gives it another name; and all members are such bindings or reactively assigned. -/
theorem assemble_exported {s : Source} {d : Declarations} {p : Progress} {o : Options} {c : Markup.Candidates}
    {doc : Documentation} (hrun : Reading.start (TopLevel.read s) s = (.ok d, p))
    (hdoc : assemble o.version o.fileName d c = .ok doc) (hshown : doc.hiddenNotices o = []) :
    (∀ name publicName, (name, publicName) ∈ s.exports → name ∈ s.documentedNames →
        (∀ other, s.exportedAs? name = some other → other = publicName) → publicName ∈ (doc.select o).memberNames) ∧
      ∀ n ∈ (doc.select o).memberNames, ∃ name, (name ∈ s.documentedNames ∨ name ∈ s.reactiveNames) ∧
        (s.exportedAs? name).getD name = n := by
  have hd : d.Documents s := TopLevel.ensures_read_documents s _ d p hrun
  rw [Documentation.memberNames_select hshown]
  constructor
  · intro name publicName hexport hname hlast
    refine (mem_memberNames_assemble hdoc).mpr ⟨name, hd.complete name hname, ?_⟩
    rw [hd.publicName]
    cases hother : s.exportedAs? name with
    | some other => exact hlast other hother
    | none =>
      rcases Source.mem_renames_of_mem_exports hexport with rfl | hrenamed
      · rfl
      · exact absurd hother (Source.exportedAs?_ne_none hrenamed)
  · intro n hn
    obtain ⟨name, hname, rfl⟩ := (mem_memberNames_assemble hdoc).mp hn
    exact ⟨name, hd.sound name hname, (hd.publicName name).symm⟩

theorem assemble_exported_before_declaration :
    let text := "export \x7b a as b, c \x7d; let a; var \x7b c \x7d = a; export const e = () => 1; " ++
      "export \x7b e as 'run' \x7d;"
    ∃ s d p doc, parse text.toList 0 none = .ok s ∧ Reading.start (TopLevel.read s) s = (.ok d, p) ∧
      assemble (.whole 3) .absent d ⟨[], [], [], [], none⟩ = .ok doc ∧
      s.exports = [(("a" : CodeText), ("b" : CodeText)), ("c", "c"), ("e", "run")] ∧
      ∀ publicName ∈ [("b" : CodeText), "c", "run"], publicName ∈ (doc.select .standard).memberNames := by
  intro text
  have hread : (parse text.toList 0 none).toOption.any fun s =>
      (s.exports = [(("a" : CodeText), ("b" : CodeText)), ("c", "c"), ("e", "run")] ∧
        ∀ e ∈ s.exports, e.1 ∈ s.documentedNames ∧ (s.exportedAs? e.1).getD e.2 = e.2) ∧
        (Reading.start (TopLevel.read s) s).1.toOption.any fun d =>
          (assemble (.whole 3) .absent d ⟨[], [], [], [], none⟩).toOption.any fun doc =>
            (doc.hiddenNotices .standard).isEmpty := by
    decide +kernel
  obtain ⟨s, hparse, hread⟩ := exists_ok_of_any hread
  obtain ⟨⟨hexports, hnames⟩, hread⟩ := of_decide_eq_true hread
  cases hrun : Reading.start (TopLevel.read s) s with
  | mk result p =>
    rw [hrun] at hread
    obtain ⟨d, rfl, hassemble⟩ := exists_ok_of_any hread
    obtain ⟨doc, hdoc, hshown⟩ := exists_ok_of_any hassemble
    refine ⟨s, d, p, doc, hparse, hrun, hdoc, hexports, ?_⟩
    have hmembers := (assemble_exported (o := .standard) hrun hdoc (List.isEmpty_iff.mp hshown)).1
    have hlisted (e : CodeText × CodeText) (he : e ∈ s.exports) : e.2 ∈ (doc.select .standard).memberNames := by
      obtain ⟨hname, hlast⟩ := hnames e he
      refine hmembers e.1 e.2 he hname fun other hother => ?_
      rwa [hother, Option.getD_some] at hlast
    rw [hexports] at hlisted
    simpa using hlisted

/-- Constants and functions that only a list exports are left out, and of two names of one binding the first. -/
theorem exported_by_list_left_out :
    let text := "const a = 1; function f() \x7b\x7d let b; export \x7b a, f, b as c, b as d \x7d;"
    ∃ s d p doc, parse text.toList 0 none = .ok s ∧ Reading.start (TopLevel.read s) s = (.ok d, p) ∧
      assemble (.whole 3) .absent d ⟨[], [], [], [], none⟩ = .ok doc ∧ doc.hiddenNotices .standard = [] ∧
      s.declaredNames = [("a" : CodeText), "f", "b"] ∧
      s.exports = [(("a" : CodeText), ("a" : CodeText)), ("f", "f"), ("b", "c"), ("b", "d")] ∧
      (doc.select .standard).memberNames = [("d" : CodeText)] := by
  intro text
  have hread : (parse text.toList 0 none).toOption.any fun s =>
      (s.declaredNames = [("a" : CodeText), "f", "b"] ∧
        s.exports = [(("a" : CodeText), ("a" : CodeText)), ("f", "f"), ("b", "c"), ("b", "d")]) ∧
        (Reading.start (TopLevel.read s) s).1.toOption.any fun d =>
          (assemble (.whole 3) .absent d ⟨[], [], [], [], none⟩).toOption.any fun doc =>
            (doc.hiddenNotices .standard).isEmpty ∧ (doc.select .standard).memberNames = [("d" : CodeText)] := by
    decide +kernel
  obtain ⟨s, hparse, hread⟩ := exists_ok_of_any hread
  obtain ⟨⟨hdeclared, hexports⟩, hread⟩ := of_decide_eq_true hread
  cases hrun : Reading.start (TopLevel.read s) s with
  | mk result p =>
    rw [hrun] at hread
    obtain ⟨d, rfl, hassemble⟩ := exists_ok_of_any hread
    obtain ⟨doc, hdoc, hmembers⟩ := exists_ok_of_any hassemble
    obtain ⟨hshown, hmembers⟩ := of_decide_eq_true hmembers
    exact ⟨s, d, p, doc, hparse, hrun, hdoc, List.isEmpty_iff.mp hshown, hdeclared, hexports, hmembers⟩

end ComponentDoc
