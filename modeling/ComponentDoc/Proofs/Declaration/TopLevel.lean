import ComponentDoc.Proofs.Declaration.Legible
import ComponentDoc.Proofs.Declaration.Outline
import ComponentDoc.Script.Parse

namespace ComponentDoc

namespace TopLevel

open Script Reading

def Finding.outlined? : Finding → Option Outlined
  | data d => some (.data d.toDeclared)
  | computed d => some (.computed d.toDeclared)
  | function d => some (.function d.toDeclared)
  | exported .. => none

section Parts

variable {s : Source}

theorem functionValue?_isSome {d : Node} (hplain : (d.child? .value).all Node.opensPlainly) :
    (functionValue? d).isSome = isFunctionVariable d := by
  unfold functionValue? isFunctionVariable
  rw [Option.isSome_filter]
  congr 1
  cases hvalue : d.child? .value with
  | none => rfl
  | some v =>
    rw [hvalue, Option.all_some] at hplain
    exact Node.withoutParens_of_opensPlainly hplain

theorem reactiveTarget?_eq {statement : Node} (hkind : statement.kind = .labeledStatement)
    (hplain : opensPlainly s statement) :
    reactiveTarget? s statement =
      if (statement.child? .label).map s.chars = some ['$'] then
        (assignment? (statement.child? .body)).bind fun e =>
          (e.child? .left).filter fun t => t.kind = .identifier
      else none := by
  unfold reactiveTarget?
  split
  · next hlabel =>
    cases hbody : statement.child? .body with
    | none => rfl
    | some b =>
      by_cases hk : b.kind = .expressionStatement
      · have hopens : firstOpensPlainly b.children := by
          simpa [opensPlainly, hkind, hlabel, hbody, hk] using hplain
        have hfirst := firstWithoutParens_of_opensPlainly hopens
        rw [firstWithoutParens_eq, firstUnparenthesized_eq, ← List.head?_filter] at hfirst
        simp only [Option.filter_some, hk, decide_true, if_true, Option.bind_some, assignment?]
        rw [← hfirst, Node.named]
        cases ((b.children.filter fun n => n.kind.isNamed).head?).bind Node.withoutParens with
        | none => rfl
        | some a => by_cases ha : a.kind = .assignmentExpression <;> simp [Option.filter_some, ha]
      · simp [Option.filter_some, hk, assignment?]
  · rfl

theorem exportedDeclaration?_of_clause {statement clause : Node}
    (hclause : statement.named.find? (fun c => c.kind = .exportClause) = some clause)
    (hsource : statement.child? .source = none) : exportedDeclaration? statement = none := by
  refine if_pos ⟨List.any_eq_true.mpr (List.find?_isSome.mp ?_), hsource⟩
  rw [hclause]
  rfl

theorem exportedDeclaration?_of_not_clause {statement : Node}
    (h : ∀ clause, statement.named.find? (fun c => c.kind = .exportClause) = some clause →
      statement.child? .source = none → False) :
    exportedDeclaration? statement = statement.child? .declaration := by
  refine if_neg fun hlist => ?_
  obtain ⟨clause, hclause⟩ :=
    Option.isSome_iff_exists.mp (List.find?_isSome.mpr (List.any_eq_true.mp hlist.1))
  exact h clause hclause hlist.2

end Parts

section Findings

variable {s : Source} {index : CommentIndex} {comment : Option Comment}

theorem yields_readFunction {fn : Node} (h : ∀ t ∈ TypeSource.ofFunction s comment fn, t.IsReadable s)
    (nameNode : Option Node) :
    (readFunction s nameNode fn comment).Yields index fun bs index' =>
      bs.filterMap Finding.outlined? = nameNode.toList.map (fun n => .function (declared s comment n)) ∧
        index' = index := by
  cases nameNode with
  | none => exact yields_pure ⟨rfl, rfl⟩
  | some n =>
    refine yields_bind (yields_readArguments h _) fun _ index' hindex => ?_
    exact yields_pure ⟨rfl, hindex⟩

theorem yields_readProperty {t : TypeSource} (h : t.IsReadable s) (n : Node) :
    (readProperty s t.annotated t.initial comment n).Yields index fun b index' =>
      b.outlined? = some (.data (declared s comment n)) ∧ index' = index := by
  refine yields_bind (yields_typeOf h) fun _ index' hindex => ?_
  subst hindex
  cases hinitial : t.initial with
  | none => exact yields_pure ⟨rfl, rfl⟩
  | some i =>
    have hvalue : (ItemType.literalValue? s i).isOk :=
      isOk_map.mpr ((ItemType.resolve?_isOk_iff_both.mp h).2 i hinitial)
    refine yields_bind (yields_ofLiteral hvalue) fun _ index'' hvalue => ?_
    exact yields_pure ⟨rfl, hvalue.2⟩

theorem yields_readProperties {t : TypeSource} {ns : List Node} (h : ∀ _ ∈ ns, t.IsReadable s) :
    (gather (fun n => return [← readProperty s t.annotated t.initial comment n]) ns).Yields index
      fun bs index' => bs.filterMap Finding.outlined? = ns.map (fun n => .data (declared s comment n)) ∧
        index' = index := by
  rw [List.map_eq_flatMap]
  refine yields_gather_same fun n hn => ?_
  refine yields_bind (yields_readProperty (h n hn) n) fun b index' hb => ?_
  exact yields_pure ⟨by simp [hb.1], hb.2⟩

theorem yields_readDeclarator {constant : Bool} {d : Node}
    (h : ∀ t ∈ declaratorTypes s comment constant d, t.IsReadable s)
    (hplain : constant → (d.child? .value).all Node.opensPlainly)
    (hpattern : ∀ p ∈ d.part .name, p.isPattern false) :
    (readDeclarator s constant comment d).Yields index fun bs index' =>
      bs.filterMap Finding.outlined? = outlineDeclarator s constant comment d ∧ index' = index := by
  unfold declaratorTypes at h
  unfold readDeclarator outlineDeclarator
  split
  · next fn hread =>
    rw [hread] at h
    obtain ⟨rfl, hfn⟩ : constant = true ∧ functionValue? d = some fn := by
      cases constant with
      | false => simp at hread
      | true => exact ⟨rfl, hread⟩
    rw [← functionValue?_isSome (hplain rfl), hfn]
    exact yields_readFunction h _
  · next hnone =>
    rw [hnone] at h
    have hdata : (constant && isFunctionVariable d) = false := by
      cases constant with
      | false => rfl
      | true =>
        rw [← functionValue?_isSome (hplain rfl)]
        simpa using hnone
    have hpart : d.part .name = (d.child? .name).toList := rfl
    rw [hdata, hpart]
    rw [hpart] at hpattern
    dsimp only at h ⊢
    rw [hpart] at h
    cases hname : d.child? .name with
    | none => exact yields_pure ⟨rfl, rfl⟩
    | some pattern =>
      have hbound := Node.bound_eq_targets (hpattern pattern (by simp [hname]))
      rw [hname, Option.toList_some, List.flatMap_singleton] at h
      refine (yields_readProperties (List.forall_mem_map.mp h)).imp fun bs index' hbs => ⟨?_, hbs.2⟩
      rw [hbs.1, hbound]
      simp

end Findings

section Statements

variable {s : Source} {index : CommentIndex} {statement : Node}

theorem yields_ownComment (h : takesComment s statement) : (takeComment s statement).Yields index
    fun c index' => c = (ownComment s index statement).1 ∧ index' = (ownComment s index statement).2 := by
  unfold ownComment
  rw [if_pos h]
  exact (yields_takeComment s statement).imp fun _ _ htake => Prod.mk.inj htake

theorem yields_readSpecifier (n : Node) : (readSpecifier s n).Yields index fun bs index' =>
    bs.filterMap Finding.outlined? = [] ∧ index' = index := by
  unfold readSpecifier
  split
  · exact yields_pure ⟨rfl, rfl⟩
  · split
    · refine yields_bind (yields_note _) fun _ index' hindex => ?_
      exact yields_pure ⟨rfl, hindex⟩
    · exact yields_pure ⟨rfl, rfl⟩

theorem yields_readReaction (hkind : statement.kind = .labeledStatement)
    (hplain : opensPlainly s statement) :
    (readReaction s statement).Yields index fun bs index' =>
      bs.filterMap Finding.outlined? = outlineStatement s (ownComment s index statement).1 statement ∧
        index' = (ownComment s index statement).2 := by
  have htarget := reactiveTarget?_eq hkind hplain
  have htakes : takesComment s statement = (reactiveTarget? s statement).isSome := by
    simp only [takesComment, hkind]
  have hnothing (hnone : reactiveTarget? s statement = none) :
      ownComment s index statement = (none, index) := by
    simp [ownComment, htakes, hnone]
  simp only [outlineStatement, hkind]
  unfold readReaction
  split
  · next hlabel =>
    rw [if_neg hlabel] at htarget
    rw [hnothing htarget, htarget]
    exact yields_pure ⟨rfl, rfl⟩
  · next hlabel =>
    rw [if_pos (not_not.mp hlabel)] at htarget
    cases hassignment : assignment? (statement.child? .body) with
    | none =>
      rw [hassignment, Option.bind_none] at htarget
      rw [hnothing htarget, htarget]
      refine yields_bind (yields_note _) fun _ index' hindex' => ?_
      exact yields_pure ⟨rfl, hindex'⟩
    | some assignment =>
      rw [hassignment, Option.bind_some] at htarget
      dsimp only
      rw [← htarget]
      cases hnone : reactiveTarget? s statement with
      | none =>
        rw [hnothing hnone]
        refine yields_bind (yields_note _) fun _ index' hindex' => ?_
        exact yields_pure ⟨rfl, hindex'⟩
      | some target =>
        refine yields_bind (yields_ownComment (by rw [htakes, hnone]; rfl)) fun c index' hc => ?_
        obtain ⟨rfl, rfl⟩ := hc
        exact yields_pure ⟨rfl, rfl⟩

section Declared

variable (hpatterns : ∀ d ∈ s.root.preorder, d.kind = .variableDeclarator →
    ∀ p ∈ d.part .name, p.isPattern false)

include hpatterns

theorem yields_readVariables {declaration : Node} (hdeclaration : declaration ∈ s.root.preorder)
    {exported : Bool} (htakes : takesComment s statement = !(isConstant declaration && !exported))
    (htypes : ∀ t ∈ variablesTypes s (ownComment s index statement).1 exported declaration, t.IsReadable s)
    (hplain : isConstant declaration → exported →
      (declaration.children.filter fun d => d.kind = .variableDeclarator).all fun d =>
        (d.child? .value).all Node.opensPlainly) :
    (readVariables s statement declaration exported).Yields index fun bs index' =>
      bs.filterMap Finding.outlined? =
          outlineVariables s (ownComment s index statement).1 exported declaration ∧
        index' = (ownComment s index statement).2 := by
  unfold variablesTypes at htypes
  unfold readVariables outlineVariables
  split
  · next hskipped =>
    rw [hskipped] at htakes
    exact yields_pure ⟨rfl, by simp [ownComment, htakes]⟩
  · next hread =>
    rw [Bool.eq_false_iff.mpr hread] at htakes
    rw [if_neg hread] at htypes
    refine yields_bind (yields_ownComment htakes) fun c index' hc => ?_
    obtain ⟨rfl, rfl⟩ := hc
    have hfilter : (declaration.named.filter fun d => d.kind = .variableDeclarator) =
        declaration.children.filter fun d => d.kind = .variableDeclarator := by
      rw [Node.named, List.filter_filter]
      refine List.filter_congr fun d _ => ?_
      by_cases hk : d.kind = .variableDeclarator
      · rw [hk]
        rfl
      · simp [hk]
    rw [hfilter]
    refine yields_gather_same fun d hd => ?_
    have hconstant (hc : isConstant declaration) : exported = true := by
      cases exported with
      | true => rfl
      | false => simp [hc] at hread
    obtain ⟨hmem, hk⟩ := List.mem_filter.mp hd
    exact yields_readDeclarator (fun t ht => htypes t (List.mem_flatMap.mpr ⟨d, hd, ht⟩))
      (fun hc => List.all_eq_true.mp (hplain hc (hconstant hc)) d hd)
      (hpatterns d (Node.child_mem_preorder hdeclaration hmem) (by simpa using hk))

theorem yields_readExported {d : Node} (hmem : d ∈ s.root.preorder)
    (htakes : takesComment s statement = decide (d.kind ∈
      [.functionDeclaration, .generatorFunctionDeclaration, .lexicalDeclaration, .variableDeclaration]))
    (htypes : ∀ t ∈ exportedTypes s (ownComment s index statement).1 d, t.IsReadable s)
    (hplain : isConstant d → (d.children.filter fun d => d.kind = .variableDeclarator).all fun d =>
      (d.child? .value).all Node.opensPlainly) :
    (readExported s statement d).Yields index fun bs index' =>
      bs.filterMap Finding.outlined? = outlineExported s (ownComment s index statement).1 d ∧
        index' = (ownComment s index statement).2 := by
  unfold readExported
  split
  case h_1 hk | h_2 hk =>
    rw [hk] at htakes
    simp only [exportedTypes, hk] at htypes
    simp only [outlineExported, hk]
    refine yields_bind (yields_ownComment htakes) fun c index' hc => ?_
    obtain ⟨rfl, rfl⟩ := hc
    exact yields_readFunction htypes _
  case h_3 hk | h_4 hk =>
    rw [hk] at htakes
    simp only [exportedTypes, hk] at htypes
    simp only [outlineExported, hk]
    exact yields_readVariables hpatterns hmem (htakes.trans (by simp)) htypes fun hc _ => hplain hc
  case h_5 =>
    have hown : ownComment s index statement = (none, index) := by
      simp_all [ownComment]
    exact yields_pure ⟨by simp_all [outlineExported], by rw [hown]⟩

theorem yields_readExport (hstatement : statement ∈ s.root.preorder)
    (hkind : statement.kind = .exportStatement) (hplain : opensPlainly s statement)
    (htypes : ∀ t ∈ statementTypes s (ownComment s index statement).1 statement, t.IsReadable s) :
    (readExport s statement).Yields index fun bs index' =>
      bs.filterMap Finding.outlined? = outlineStatement s (ownComment s index statement).1 statement ∧
        index' = (ownComment s index statement).2 := by
  have hnothing (hnone : exportedDeclaration? statement = none) :
      ownComment s index statement = (none, index) := by
    simp [ownComment, takesComment, hkind, hnone]
  have hnames (clause : Node) (hnone : exportedDeclaration? statement = none) :
      (gather (readSpecifier s) clause.named).Yields index fun bs index' =>
        bs.filterMap Finding.outlined? = [] ∧ index' = (ownComment s index statement).2 := by
    rw [hnothing hnone]
    refine (yields_gather_same fun n _ => yields_readSpecifier n).imp fun bs index' hbs => ⟨?_, hbs.2⟩
    simp [hbs.1]
  simp only [opensPlainly, hkind] at hplain
  simp only [statementTypes, hkind] at htypes
  simp only [outlineStatement, hkind]
  unfold readExport
  cases hd : statement.child? .declaration with
  | none =>
    have hnone : exportedDeclaration? statement = none := by
      rw [exportedDeclaration?, hd, ite_self]
    rw [hnone, Option.elim_none]
    dsimp only
    split
    · exact hnames _ hnone
    · rw [hnothing hnone]
      refine yields_bind (yields_note _) fun _ index' hindex' => ?_
      exact yields_pure ⟨rfl, hindex'⟩
  | some d =>
    dsimp only
    split
    · next clause hclause hsource =>
      rw [exportedDeclaration?_of_clause hclause hsource, Option.elim_none]
      exact hnames clause (exportedDeclaration?_of_clause hclause hsource)
    · next hpast =>
      have hexported := (exportedDeclaration?_of_not_clause hpast).trans hd
      have hmem := Node.child_mem_preorder hstatement (Node.mem_of_child? hd)
      rw [hexported, Option.all_some, Bool.or_eq_true, Bool.not_eq_true'] at hplain
      rw [hexported, Option.elim_some] at htypes ⊢
      refine yields_readExported hpatterns hmem ?_ htypes fun hc => hplain.resolve_left (by simp [hc])
      simp only [takesComment, hkind, hexported, Option.any_some]

theorem yields_readStatement (hstatement : statement ∈ s.root.preorder) (hplain : opensPlainly s statement)
    (htypes : ∀ t ∈ statementTypes s (ownComment s index statement).1 statement, t.IsReadable s) :
    (readStatement s statement).Yields index fun bs index' =>
      bs.filterMap Finding.outlined? = outlineStatement s (ownComment s index statement).1 statement ∧
        index' = (ownComment s index statement).2 := by
  unfold readStatement
  split
  case h_1 hkind => exact yields_readExport hpatterns hstatement hkind hplain htypes
  case h_2 hkind | h_3 hkind =>
    simp only [statementTypes, hkind] at htypes
    simp only [outlineStatement, hkind]
    exact yields_readVariables hpatterns hstatement (by simp [takesComment, hkind]) htypes nofun
  case h_4 hkind => exact yields_readReaction hkind hplain
  case h_5 =>
    have hown : ownComment s index statement = (none, index) := by
      simp_all [ownComment, takesComment]
    rw [hown]
    exact yields_pure ⟨by simp_all [outlineStatement], rfl⟩

end Declared

end Statements

section Events

theorem yields_readEvent {s : Source} {index : CommentIndex} {call : Node × Node}
    (h : (s.stringArgument? call.1).isOk) (skipped : List Notice) :
    (readEvent s skipped call).Yields index fun _ _ => True := by
  refine yields_bind (yields_ofLiteral h) fun event index' _ => ?_
  cases event with
  | none =>
    refine yields_bind (yields_noteAll skipped) fun _ _ _ => ?_
    exact yields_pure trivial
  | some event =>
    refine yields_bind (yields_takeComment s call.2) fun _ _ _ => ?_
    exact yields_pure trivial

end Events

section Lists

variable (findings : List Finding)

theorem map_data? : (findings.filterMap Finding.data?).map (·.toDeclared) =
    (findings.filterMap Finding.outlined?).filterMap Outlined.data? := by
  rw [List.map_filterMap, List.filterMap_filterMap]
  congr
  funext f
  cases f <;> rfl

theorem map_computed? : (findings.filterMap Finding.computed?).map (·.toDeclared) =
    (findings.filterMap Finding.outlined?).filterMap Outlined.computed? := by
  rw [List.map_filterMap, List.filterMap_filterMap]
  congr
  funext f
  cases f <;> rfl

theorem map_function? : (findings.filterMap Finding.function?).map (·.toDeclared) =
    (findings.filterMap Finding.outlined?).filterMap Outlined.function? := by
  rw [List.map_filterMap, List.filterMap_filterMap]
  congr
  funext f
  cases f <;> rfl

theorem isComputed_iff {computed : List ComputedDeclaration} {name : CodeText} :
    isComputed computed name ↔ name ∈ (computed.map (·.toDeclared)).map (·.name) := by
  simp [isComputed]

theorem findSome?_absorbed (data : List DataDeclaration) {computed : List ComputedDeclaration}
    {name : CodeText} (hname : isComputed computed name) :
    ((data.filter fun d => isComputed computed d.name).findSome? fun d =>
      if d.name = name then d.comment else none) =
      (data.map (·.toDeclared)).findSome? fun d => if d.name = name then d.comment else none := by
  induction data with
  | nil => rfl
  | cons d data ih =>
    by_cases hd : isComputed computed d.name
    · rw [List.filter_cons, if_pos hd, List.map_cons, List.findSome?_cons, List.findSome?_cons, ih]
    · have hne : d.name ≠ name := fun heq => hd (heq ▸ hname)
      rw [List.filter_cons, if_neg hd, ih, List.map_cons, List.findSome?_cons, if_neg hne]

theorem map_lendComments (data : List DataDeclaration) (met : List CodeText)
    (computed : List ComputedDeclaration) : (lendComments data met computed).map (·.toDeclared) =
      (computed.map (·.toDeclared)).mapIdx fun i c =>
        if c.name ∈ met ∨ c.name ∈ ((computed.map (·.toDeclared)).take i).map (·.name) then c
        else
          let lent := data.findSome? fun d => if d.name = c.name then d.comment else none
          { c with comment := c.comment.or lent } := by
  induction computed generalizing met with
  | nil => rfl
  | cons c computed ih =>
    rw [lendComments, List.map_cons, List.map_cons, List.mapIdx_cons, ih]
    congr 1
    · by_cases hmet : c.name ∈ met <;> simp [hmet]
    · congr
      funext i d
      congr 1
      simp only [List.mem_cons, List.take_succ_cons, List.map_cons, eq_iff_iff]
      tauto

end Lists

theorem yields_read {s : Source} (h : s.IsLegible) (hplain : ∀ n ∈ s.root.named, opensPlainly s n)
    (hpatterns : ∀ d ∈ s.root.preorder, d.kind = .variableDeclarator →
      ∀ p ∈ d.part .name, p.isPattern false) :
    (read s).Yields (CommentIndex.ofSource s) fun d _ =>
      d.data.map (·.toDeclared) =
          (outlinedData s).filter (fun v => v.name ∉ (outlinedTargets s).map (·.name)) ∧
        d.computed.map (·.toDeclared) = outlinedComputed s ∧
        d.functions.map (·.toDeclared) = outlinedFunctions s := by
  refine yields_bind (yields_readImports h) fun _ index hindex => ?_
  subst hindex
  refine yields_bind (yields_gather (fun statement hstatement index htypes => yields_readStatement hpatterns
    (Node.child_mem_preorder s.root.self_mem_preorder (Node.mem_of_mem_named hstatement))
    (hplain statement hstatement) htypes) h.types) fun findings index hfindings => ?_
  have hfindings : findings.filterMap Finding.outlined? = outline s := hfindings
  have hdata : (findings.filterMap Finding.data?).map (·.toDeclared) = outlinedData s := by
    rw [map_data?, hfindings, outlinedData]
  have hcomputed : (findings.filterMap Finding.computed?).map (·.toDeclared) = outlinedTargets s := by
    rw [map_computed?, hfindings, outlinedTargets]
  have hfunctions : (findings.filterMap Finding.function?).map (·.toDeclared) = outlinedFunctions s := by
    rw [map_function?, hfindings, outlinedFunctions]
  dsimp only
  rw [List.partition_eq_filter_filter]
  refine yields_bind (yields_noteAll _) fun _ index _ => ?_
  -- Events come last, so it does not matter which comments they take.
  refine yields_bind (yields_gather_keeps (K := fun _ => True) (fun call hcall index _ =>
    yields_readEvent (h.events call hcall) _) trivial) fun _ index _ => ?_
  refine yields_bind yields_get fun _ index' _ => ?_
  refine yields_pure ⟨?_, ?_, hfunctions⟩
  · rw [← hdata, List.filter_map]
    congr 1
    refine List.filter_congr fun d _ => ?_
    rw [← hcomputed]
    simp only [Function.comp_apply, ← isComputed_iff, Bool.not_eq_true, Bool.decide_eq_false]
  · rw [map_lendComments, hcomputed, outlinedComputed, List.mapIdx_eq_mapIdx_iff]
    intro i hi
    have hname : isComputed (findings.filterMap Finding.computed?) (outlinedTargets s)[i].name := by
      rw [isComputed_iff, hcomputed]
      exact List.mem_map_of_mem (List.getElem_mem hi)
    simp only [List.not_mem_nil, false_or, findSome?_absorbed _ hname, hdata, lentComment]

theorem map_name_outlinedComputed (s : Source) :
    (outlinedComputed s).map (·.name) = (outlinedTargets s).map (·.name) := by
  refine List.ext_getElem (by simp [outlinedComputed]) fun i _ _ => ?_
  simp only [outlinedComputed, List.getElem_map, List.getElem_mapIdx]
  split <;> rfl

/-- Reading neither loses nor makes up declarations: a variable that is assigned reactively is given up
for that, and nothing else is. -/
theorem read_outline {s : Source} (h : s.IsLegible) (hplain : ∀ n ∈ s.root.named, opensPlainly s n)
    (hpatterns : ∀ d ∈ s.root.preorder, d.kind = .variableDeclarator →
      ∀ p ∈ d.part .name, p.isPattern false) :
    ∃ d p, Reading.start (read s) s = (.ok d, p) ∧
      d.data.map (·.toDeclared) =
        (outlinedData s).filter (fun v => v.name ∉ (outlinedTargets s).map (·.name)) ∧
      d.computed.map (·.toDeclared) = outlinedComputed s ∧
      d.functions.map (·.toDeclared) = outlinedFunctions s ∧
      (d.data.map (·.name)).Disjoint (d.computed.map (·.name)) := by
  obtain ⟨d, p, hrun, hdata, hcomputed, hfunctions⟩ :=
    yields_read h hplain hpatterns ⟨CommentIndex.ofSource s, [], []⟩ rfl
  refine ⟨d, p, hrun, hdata, hcomputed, hfunctions, fun name hname hname' => ?_⟩
  have hnames : d.computed.map (·.name) = (outlinedTargets s).map (·.name) := by
    rw [← map_name_outlinedComputed, ← hcomputed, List.map_map]
    rfl
  obtain ⟨v, hv, rfl⟩ := List.mem_map.mp hname
  have hkept := List.mem_map_of_mem (f := DataDeclaration.toDeclared) hv
  rw [hdata, List.mem_filter, ← hnames] at hkept
  exact of_decide_eq_true hkept.2 hname'

theorem read_outline_reactive :
    let text := "let { a, b: [c = 1, ...d] } = x;\n/** Sum. */\nlet total;\n$: total = a + c;\n$: total = d;\n" ++
      "const hidden = 1;\nexport const f = ((n) => n), g = 2;\nexport function h() { if (/* why */ a) g }"
    ∃ s d p, parse text.toList 0 none = .ok s ∧ Reading.start (read s) s = (.ok d, p) ∧
      d.data.map (·.name) = [("a" : CodeText), "c", "d", "g"] ∧
      d.computed.map (fun c => (c.name, c.comment.bind (·.description))) =
        [(("total" : CodeText), some "Sum."), ("total", none)] ∧
      d.functions.map (·.name) = [("f" : CodeText), "h"] := by
  intro text
  have hread : (parse text.toList 0 none).toOption.any fun s =>
      (s.IsLegible ∧ (∀ n ∈ s.root.named, opensPlainly s n) ∧
        ∀ d ∈ s.root.preorder, d.kind = .variableDeclarator → ∀ p ∈ d.part .name, p.isPattern false) ∧
      ((outlinedData s).filter fun v => v.name ∉ (outlinedTargets s).map (·.name)).map (·.name) =
        [("a" : CodeText), "c", "d", "g"] ∧
      (outlinedComputed s).map (fun c => (c.name, c.comment.bind (·.description))) =
        [(("total" : CodeText), some "Sum."), ("total", none)] ∧
      (outlinedFunctions s).map (·.name) = [("f" : CodeText), "h"] := by
    decide +kernel
  cases hparse : parse text.toList 0 none with
  | error e => simp [hparse, Except.toOption] at hread
  | ok s =>
    rw [hparse] at hread
    obtain ⟨⟨hlegible, hplain, hpatterns⟩, hdata, hcomputed, hfunctions⟩ := of_decide_eq_true hread
    obtain ⟨d, p, hrun, hdata', hcomputed', hfunctions', -⟩ := read_outline hlegible hplain hpatterns
    refine ⟨s, d, p, rfl, hrun, ?_, ?_, ?_⟩
    · rw [← hdata, ← hdata', List.map_map]
      rfl
    · rw [← hcomputed, ← hcomputed', List.map_map]
      rfl
    · rw [← hfunctions, ← hfunctions', List.map_map]
      rfl

/-- A comment that stands first in parentheses is taken for what stands in them: the function is read as
data, and the reactive assignment is not read. -/
theorem read_comment_in_parentheses :
    let text := "export const f = (/* c */ () => 1); $: (/* c */ x = f());"
    ∃ s d p, parse text.toList 0 none = .ok s ∧ Reading.start (read s) s = (.ok d, p) ∧
      (outlinedData s).map (·.name) = [] ∧ d.data.map (·.name) = [("f" : CodeText)] ∧
      (outlinedTargets s).map (·.name) = [("x" : CodeText)] ∧ d.computed.map (·.name) = [] ∧
      (outlinedFunctions s).map (·.name) = [("f" : CodeText)] ∧ d.functions.map (·.name) = [] := by
  intro text
  have hread : (parse text.toList 0 none).toOption.any fun s =>
      (Reading.start (read s) s).1.toOption.any fun d =>
        (outlinedData s).map (·.name) = [] ∧ d.data.map (·.name) = [("f" : CodeText)] ∧
        (outlinedTargets s).map (·.name) = [("x" : CodeText)] ∧ d.computed.map (·.name) = [] ∧
        (outlinedFunctions s).map (·.name) = [("f" : CodeText)] ∧ d.functions.map (·.name) = [] := by
    decide +kernel
  cases hparse : parse text.toList 0 none with
  | error e => simp [hparse, Except.toOption] at hread
  | ok s =>
    rw [hparse] at hread
    cases hrun : Reading.start (read s) s with
    | mk r p =>
      cases r with
      | error e => simp [hrun, Except.toOption] at hread
      | ok d =>
        simp only [Except.toOption, Option.any_some, hrun, decide_eq_true_eq] at hread
        exact ⟨s, d, p, rfl, hrun, hread⟩

end TopLevel

end ComponentDoc
