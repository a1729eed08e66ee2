import ComponentDoc.Proofs.Declaration.Outline
import ComponentDoc.Proofs.Declaration.Places

namespace ComponentDoc

open Script
open scoped List

def Script.Node.exportedConstants (statement : Node) : List Node :=
  ((statement.part .declaration).filter TopLevel.isConstant).flatMap fun declaration =>
    declaration.named.filter fun d => d.kind = .variableDeclarator

namespace Script.Source

variable (s : Source)

def topLevelNames (statement : Node) : List CodeText :=
  if statement.kind = .exportStatement then (statement.part .declaration).flatMap s.statementNames
  else s.statementNames statement

def declaredNames : List CodeText := s.root.named.flatMap s.topLevelNames

def reactiveName (statement : Node) : List CodeText :=
  if statement.kind = .labeledStatement then (TopLevel.reactiveTarget? s statement).toList.map s.nameOf else []

def reactiveNames : List CodeText := s.root.named.flatMap s.reactiveName

def specifierRenames (specifier : Node) : List (CodeText × CodeText) :=
  if specifier.kind = .exportSpecifier then
    (specifier.part .name).flatMap fun name => (specifier.part .otherName).map fun other =>
      (s.nameOf name, .ofChars (TopLevel.withoutQuotes (s.chars other)))
  else []

def clauseRenames (statement : Node) : List (CodeText × CodeText) :=
  if statement.kind = .exportStatement ∧ statement.child? .source = none then
    (statement.named.find? fun c => c.kind = .exportClause).toList.flatMap fun clause =>
      clause.named.flatMap s.specifierRenames
  else []

theorem clauseRenames_eq_nil {statement : Node}
    (h : ∀ clause, statement.named.find? (fun c => c.kind = .exportClause) = some clause →
      statement.child? .source = none → False) : s.clauseRenames statement = [] := by
  rw [clauseRenames]
  split
  · next hown =>
    cases hclause : statement.named.find? fun c => c.kind = .exportClause with
    | none => rfl
    | some clause => exact (h clause hclause hown.2).elim
  · rfl

def renames : List (CodeText × CodeText) := s.root.named.flatMap s.clauseRenames

/-- The other name of a binding; the last one that is given counts. -/
def exportedAs? (name : CodeText) : Option CodeText :=
  (s.renames.reverse.find? fun r => r.1 = name).map Prod.snd

/-- Every exported constant that is a function has a name and not a pattern. -/
def NamesFunctions : Prop :=
  ∀ statement ∈ s.root.named, ∀ d ∈ statement.exportedConstants, (TopLevel.functionValue? d).isSome →
    ∀ n ∈ d.part .name, n.kind = .identifier

end Script.Source

namespace Script.Node

theorem withoutParens_eq (n : Node) : n.withoutParens =
    if n.kind = .parenthesizedExpression then firstWithoutParens n.children else some n := by
  cases n
  rfl

theorem find?_not_comment {ns : List Node} {n : Node} (h : (ns.find? fun c => c.kind.isNamed) = some n)
    (hn : n.kind ≠ .comment) : (ns.find? fun c => c.kind.isNamed && c.kind ≠ .comment) = some n := by
  induction ns with
  | nil => simp at h
  | cons m ns ih =>
    rw [List.find?_cons] at h ⊢
    split at h
    · next hm =>
      obtain rfl := Option.some.inj h
      simp [hm, hn]
    · next hm =>
      rw [hm, Bool.false_and]
      exact ih h

theorem unparenthesized_of_withoutParens {n a : Node} (h : n.withoutParens = some a) (ha : a.kind ≠ .comment) :
    n.unparenthesized = some a ∧ n.kind ≠ .comment := by
  induction n using Node.treeInduction with
  | node n ih =>
    rw [withoutParens_eq] at h
    rw [unparenthesized_eq]
    split at h
    · next hkind =>
      rw [firstWithoutParens_eq] at h
      obtain ⟨m, hm, h⟩ := Option.bind_eq_some_iff.mp h
      obtain ⟨hinner, hcomment⟩ := ih m (List.mem_of_find?_eq_some hm) h
      rw [if_pos hkind, firstUnparenthesized_eq, find?_not_comment hm hcomment, Option.bind_some, hkind]
      exact ⟨hinner, by decide⟩
    · next hkind =>
      obtain rfl := Option.some.inj h
      exact ⟨if_neg hkind, ha⟩

end Script.Node

namespace TopLevel

open Reading

variable {s : Source}

theorem reactiveTarget?_of_assignment? {statement assignment target : Node}
    (hlabel : (statement.child? .label).map s.chars = some ['$'])
    (hassignment : assignment? (statement.child? .body) = some assignment)
    (htarget : ((assignment.child? .left).filter fun t => t.kind = .identifier) = some target) :
    reactiveTarget? s statement = some target := by
  obtain ⟨hbody, hkind⟩ := Option.filter_eq_some_iff.mp hassignment
  have hkind : assignment.kind = .assignmentExpression := by simpa using hkind
  obtain ⟨b, hb, hbody⟩ := Option.bind_eq_some_iff.mp hbody
  split at hbody
  · next hstatement =>
    obtain ⟨e, he, hparens⟩ := Option.bind_eq_some_iff.mp hbody
    obtain ⟨hinner, hcomment⟩ := Node.unparenthesized_of_withoutParens hparens (by rw [hkind]; decide)
    rw [Node.named, List.head?_filter] at he
    rw [reactiveTarget?, if_pos hlabel, hb, Option.filter_some, if_pos (by simpa using hstatement),
      Option.bind_some, Node.find?_not_comment he hcomment, Option.bind_some, hinner, Option.bind_some,
      if_pos hkind, htarget]
  · simp at hbody

/-- What findings are called: properties and functions have some of the names `declared`, computed properties
some of `reactive`, and other names are given as in `renames`. -/
structure CalledBy (declared reactive : List CodeText) (renames : List (CodeText × CodeText))
    (findings : List Finding) : Prop where
  data : (findings.filterMap Finding.data?).map (·.name) <+ declared
  functions : (findings.filterMap Finding.function?).map (·.name) <+ declared
  computed : (findings.filterMap Finding.computed?).map (·.name) <+ reactive
  expressions : ∀ c ∈ findings.filterMap Finding.computed?, ∃ e, c.reads = .expression e
  exported : findings.filterMap Finding.exported? = renames

theorem calledBy_nil (declared reactive : List CodeText) : CalledBy declared reactive [] [] where
  data := List.nil_sublist _
  functions := List.nil_sublist _
  computed := List.nil_sublist _
  expressions := nofun
  exported := rfl

theorem CalledBy.append {declared declared' reactive reactive' : List CodeText}
    {renames renames' : List (CodeText × CodeText)} {fs gs : List Finding} (hf : CalledBy declared reactive renames fs)
    (hg : CalledBy declared' reactive' renames' gs) :
    CalledBy (declared ++ declared') (reactive ++ reactive') (renames ++ renames') (fs ++ gs) where
  data := by
    rw [List.filterMap_append, List.map_append]
    exact hf.data.append hg.data
  functions := by
    rw [List.filterMap_append, List.map_append]
    exact hf.functions.append hg.functions
  computed := by
    rw [List.filterMap_append, List.map_append]
    exact hf.computed.append hg.computed
  expressions := by
    rw [List.filterMap_append]
    exact List.forall_mem_append.mpr ⟨hf.expressions, hg.expressions⟩
  exported := by rw [List.filterMap_append, hf.exported, hg.exported]

theorem ensures_gather_calledBy {f : Node → Reading (List Finding)} {declared reactive : Node → List CodeText}
    {renames : Node → List (CodeText × CodeText)} {ns : List Node}
    (h : ∀ n ∈ ns, (f n).Ensures (CalledBy (declared n) (reactive n) (renames n))) :
    (gather f ns).Ensures (CalledBy (ns.flatMap declared) (ns.flatMap reactive) (ns.flatMap renames)) := by
  induction ns with
  | nil => exact ensures_pure (calledBy_nil [] [])
  | cons n ns ih =>
    refine ensures_bind (h n List.mem_cons_self) fun fs hfs => ?_
    refine ensures_bind (ih fun m hm => h m (List.mem_cons_of_mem n hm)) fun gs hgs => ?_
    exact ensures_pure (hfs.append hgs)

theorem flatMap_nil {α β : Type} (l : List α) : (l.flatMap fun _ => ([] : List β)) = [] := by simp

theorem ensures_gather_declared {f : Node → Reading (List Finding)} {declared : Node → List CodeText}
    {ns : List Node} (h : ∀ n ∈ ns, (f n).Ensures (CalledBy (declared n) [] [])) :
    (gather f ns).Ensures (CalledBy (ns.flatMap declared) [] []) := by
  have hgather := ensures_gather_calledBy h
  rwa [flatMap_nil, flatMap_nil] at hgather

theorem ensures_readFunction (nameNode : Option Node) (fn : Node) (comment : Option Comment) :
    (readFunction s nameNode fn comment).Ensures (CalledBy (nameNode.toList.map s.nameOf) [] []) := by
  cases nameNode with
  | none => exact ensures_pure (calledBy_nil _ _)
  | some n =>
    refine ensures_then fun arguments => ensures_pure ?_
    exact ⟨List.nil_sublist _, List.Sublist.refl _, List.Sublist.refl _, nofun, rfl⟩

theorem ensures_readProperty_name (annotated : Option String) (initial : Option Node) (comment : Option Comment)
    (n : Node) : (readProperty s annotated initial comment n).Ensures fun f => CalledBy [s.nameOf n] [] [] [f] := by
  refine ensures_then fun type => ?_
  have hproperty (value : Option Literal) : CalledBy [s.nameOf n] [] []
      [.data { name := s.nameOf n, loc := s.locOf n, comment := comment, type := type, value := value }] :=
    ⟨List.Sublist.refl _, List.nil_sublist _, List.Sublist.refl _, nofun, rfl⟩
  cases initial with
  | none => exact ensures_pure (hproperty none)
  | some i => exact ensures_then fun value => ensures_pure (hproperty value)

theorem ensures_readDeclarator {constant : Bool} (comment : Option Comment) {d : Node}
    (hfunction : constant = true → (functionValue? d).isSome → ∀ n ∈ d.part .name, n.kind = .identifier) :
    (readDeclarator s constant comment d).Ensures (CalledBy (s.boundNames (d.child? .name)) [] []) := by
  unfold readDeclarator
  split
  · next fn hfn =>
    obtain ⟨hconstant, hfn⟩ := Option.ite_none_right_eq_some.mp hfn
    have hname : s.boundNames (d.child? .name) = (d.child? .name).toList.map s.nameOf := by
      cases hn : d.child? .name with
      | none => rfl
      | some n =>
        have hkind := hfunction hconstant (Option.isSome_iff_exists.mpr ⟨fn, hfn⟩) n (Option.mem_toList.mpr hn)
        rw [Source.boundNames, Option.elim_some, Node.bound_of_name (.inl hkind)]
        rfl
    rw [hname]
    exact ensures_readFunction _ _ _
  · dsimp only
    split
    · exact ensures_pure (calledBy_nil _ _)
    · next pattern hpattern =>
      rw [hpattern, Source.boundNames, Option.elim_some, List.map_eq_flatMap]
      refine ensures_gather_declared fun n _ => ?_
      exact ensures_bind (ensures_readProperty_name _ _ comment n) fun f hf => ensures_pure hf

theorem ensures_readVariables {declaration : Node} (statement : Node) (exported : Bool)
    (hfunction : exported = true → isConstant declaration → ∀ d ∈ declaration.named, d.kind = .variableDeclarator →
      (functionValue? d).isSome → ∀ n ∈ d.part .name, n.kind = .identifier) :
    (readVariables s statement declaration exported).Ensures (CalledBy (s.variableNames declaration) [] []) := by
  unfold readVariables
  split
  · exact ensures_pure (calledBy_nil _ _)
  · next hcounts =>
    refine ensures_then fun comment => ensures_gather_declared fun d hd => ?_
    obtain ⟨hnamed, hkind⟩ := List.mem_filter.mp hd
    refine ensures_readDeclarator comment fun hconstant => ?_
    exact hfunction (by simpa [hconstant] using hcounts) hconstant d hnamed (by simpa using hkind)

theorem CalledBy.mono {declared declared' reactive reactive' : List CodeText}
    {renames : List (CodeText × CodeText)} {fs : List Finding} (h : CalledBy declared reactive renames fs)
    (hdeclared : declared <+ declared') (hreactive : reactive <+ reactive') : CalledBy declared' reactive' renames fs :=
  { h with
    data := h.data.trans hdeclared
    functions := h.functions.trans hdeclared
    computed := h.computed.trans hreactive }

theorem ensures_readSpecifier (n : Node) : (readSpecifier s n).Ensures (CalledBy [] [] (s.specifierRenames n)) := by
  unfold readSpecifier Source.specifierRenames
  split
  · exact ensures_pure (calledBy_nil _ _)
  · next hkind =>
    rw [if_pos (not_not.mp hkind)]
    split
    · next name other hname hother =>
      refine ensures_then fun _ => ensures_pure ?_
      simp only [Node.part, hname, hother, Option.toList_some, List.flatMap_singleton, List.map_singleton]
      exact ⟨List.Sublist.refl _, List.Sublist.refl _, List.Sublist.refl _, List.forall_mem_nil _, rfl⟩
    · next hneither =>
      have hnone : ((n.part .name).flatMap fun name => (n.part .otherName).map fun other =>
          (s.nameOf name, CodeText.ofChars (withoutQuotes (s.chars other)))) = [] := by
        cases hname : n.child? .name with
        | none => simp [Node.part, hname]
        | some name =>
          cases hother : n.child? .otherName with
          | none => simp [Node.part, hother]
          | some other => exact (hneither name other hname hother).elim
      rw [hnone]
      exact ensures_pure (calledBy_nil _ _)

theorem ensures_readExported {statement declaration : Node}
    (hdeclaration : statement.child? .declaration = some declaration)
    (hfunctions : ∀ d ∈ statement.exportedConstants, (functionValue? d).isSome →
      ∀ n ∈ d.part .name, n.kind = .identifier) :
    (readExported s statement declaration).Ensures (CalledBy (s.statementNames declaration) [] []) := by
  have hvariables : (readVariables s statement declaration true).Ensures
      (CalledBy (s.variableNames declaration) [] []) := by
    refine ensures_readVariables statement true fun _ hconstant d hd hkind => hfunctions d ?_
    refine List.mem_flatMap.mpr ⟨declaration, ?_, List.mem_filter.mpr ⟨hd, by simpa using hkind⟩⟩
    exact List.mem_filter.mpr ⟨Option.mem_toList.mpr hdeclaration, hconstant⟩
  unfold readExported Source.statementNames
  cases declaration.kind
  case functionDeclaration | generatorFunctionDeclaration =>
    exact ensures_then fun comment => ensures_readFunction _ _ _
  case lexicalDeclaration | variableDeclaration => exact hvariables
  all_goals exact ensures_pure (calledBy_nil _ _)

theorem ensures_readExport {statement : Node} (hkind : statement.kind = .exportStatement)
    (hfunctions : ∀ d ∈ statement.exportedConstants, (functionValue? d).isSome →
      ∀ n ∈ d.part .name, n.kind = .identifier) :
    (readExport s statement).Ensures (CalledBy (s.topLevelNames statement) [] (s.clauseRenames statement)) := by
  unfold readExport
  dsimp only
  split
  · next clause hclause hsource =>
    have hrenames : s.clauseRenames statement = clause.named.flatMap s.specifierRenames := by
      rw [Source.clauseRenames, if_pos ⟨hkind, hsource⟩, hclause, Option.toList_some, List.flatMap_singleton]
    have hgather := ensures_gather_calledBy fun n (_ : n ∈ clause.named) => ensures_readSpecifier (s := s) n
    rw [flatMap_nil] at hgather
    rw [hrenames]
    exact hgather.imp fun fs hfs => hfs.mono (List.nil_sublist _) (List.nil_sublist _)
  · next hpast =>
    rw [s.clauseRenames_eq_nil hpast]
    split
    · exact ensures_then fun _ => ensures_pure (calledBy_nil _ _)
    · next declaration hdeclaration =>
      rw [Source.topLevelNames, if_pos hkind, Node.part, hdeclaration, Option.toList_some, List.flatMap_singleton]
      exact ensures_readExported hdeclaration hfunctions

theorem ensures_readReaction (statement : Node) (hkind : statement.kind = .labeledStatement) :
    (readReaction s statement).Ensures (CalledBy [] (s.reactiveName statement) []) := by
  unfold readReaction
  split
  · exact ensures_pure (calledBy_nil _ _)
  · next hlabel =>
    split
    · exact ensures_then fun _ => ensures_pure (calledBy_nil _ _)
    · next assignment hassignment =>
      split
      · exact ensures_then fun _ => ensures_pure (calledBy_nil _ _)
      · next target htarget =>
        have hname := reactiveTarget?_of_assignment? (not_not.mp hlabel) hassignment htarget
        rw [Source.reactiveName, if_pos hkind, hname]
        refine ensures_then fun comment => ensures_pure ?_
        refine ⟨List.Sublist.refl _, List.Sublist.refl _, List.Sublist.refl _, fun c hc => ?_, rfl⟩
        obtain rfl := List.mem_singleton.mp hc
        exact ⟨_, rfl⟩

theorem ensures_readStatement {statement : Node}
    (hfunctions : ∀ d ∈ statement.exportedConstants, (functionValue? d).isSome →
      ∀ n ∈ d.part .name, n.kind = .identifier) :
    (readStatement s statement).Ensures
      (CalledBy (s.topLevelNames statement) (s.reactiveName statement) (s.clauseRenames statement)) := by
  have hvariables (hkind : statement.kind.isVariables) : (readVariables s statement statement false).Ensures
      (CalledBy (s.topLevelNames statement) (s.reactiveName statement) (s.clauseRenames statement)) := by
    have hplain : s.topLevelNames statement = s.variableNames statement ∧ s.reactiveName statement = [] ∧
        s.clauseRenames statement = [] := by
      unfold Source.topLevelNames Source.reactiveName Source.clauseRenames Source.statementNames
      cases hk : statement.kind <;> simp_all [Kind.isVariables]
    rw [hplain.1, hplain.2.1, hplain.2.2]
    exact ensures_readVariables statement false (by simp)
  have hrenames (h : statement.kind ≠ .exportStatement) : s.clauseRenames statement = [] := if_neg fun hc => h hc.1
  unfold readStatement
  split
  case h_1 hkind =>
    rw [show s.reactiveName statement = [] from if_neg (by rw [hkind]; decide)]
    exact ensures_readExport hkind hfunctions
  case h_2 hkind | h_3 hkind => exact hvariables (by rw [hkind]; rfl)
  case h_4 hkind =>
    rw [hrenames (by rw [hkind]; decide)]
    exact (ensures_readReaction statement hkind).imp fun fs hfs => hfs.mono (List.nil_sublist _) (List.Sublist.refl _)
  case h_5 hexport _ _ _ =>
    rw [hrenames hexport]
    exact ensures_pure (calledBy_nil _ _)

theorem map_name_lendComments (data : List DataDeclaration) (met : List CodeText)
    (computed : List ComputedDeclaration) :
    (lendComments data met computed).map (·.name) = computed.map (·.name) := by
  have hplaces := congrArg (List.map Prod.fst) (map_place_lendComments data met computed)
  rwa [List.map_map, List.map_map] at hplaces

theorem mem_lendComments {data : List DataDeclaration} {met : List CodeText} {computed : List ComputedDeclaration}
    {c : ComputedDeclaration} (h : c ∈ lendComments data met computed) : ∃ c' ∈ computed, c.reads = c'.reads := by
  induction computed generalizing met with
  | nil => simp [lendComments] at h
  | cons c' computed ih =>
    rw [lendComments] at h
    obtain rfl | h := List.mem_cons.mp h
    · refine ⟨c', List.mem_cons_self, ?_⟩
      split <;> rfl
    · obtain ⟨c'', hmem, hreads⟩ := ih h
      exact ⟨c'', List.mem_cons_of_mem c' hmem, hreads⟩

end TopLevel

structure Declarations.NamedBy (s : Source) (d : Declarations) : Prop where
  data : d.data.map (·.name) <+ s.declaredNames
  functions : d.functions.map (·.name) <+ s.declaredNames
  computed : d.computed.map (·.name) <+ s.reactiveNames
  expressions : ∀ c ∈ d.computed, ∃ e, c.reads = .expression e
  publicName : ∀ name, d.publicName name = (s.exportedAs? name).getD name

theorem TopLevel.ensures_read_namedBy {s : Source} (h : s.NamesFunctions) :
    (read s).Ensures (Declarations.NamedBy s) := by
  refine Reading.ensures_then fun imports => ?_
  refine Reading.ensures_bind (ensures_gather_calledBy fun statement hstatement =>
    ensures_readStatement (h statement hstatement)) fun findings hfindings => ?_
  dsimp only
  rw [List.partition_eq_filter_filter]
  refine Reading.ensures_then fun _ => Reading.ensures_then fun events => Reading.ensures_then fun _ => ?_
  refine Reading.ensures_pure
    { data := ?_, functions := hfindings.functions, computed := ?_, expressions := fun c hc => ?_,
      publicName := fun name => ?_ }
  · exact (List.filter_sublist.map _).trans hfindings.data
  · rw [map_name_lendComments]
    exact hfindings.computed
  · obtain ⟨c', hc', hreads⟩ := mem_lendComments hc
    rw [hreads]
    exact hfindings.expressions c' hc'
  · rw [Declarations.publicName, Keyed.get?_foldl_set, hfindings.exported]
    rfl

end ComponentDoc
