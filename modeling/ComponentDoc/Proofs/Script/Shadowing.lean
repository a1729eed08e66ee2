import ComponentDoc.Proofs.Script.RenamedScopes
import ComponentDoc.Proofs.Script.Variables

namespace ComponentDoc.Script

/-- The analysis sees that the name `x` of a parameter is hidden around the function `f`: it takes `f` for
a function, no default value of `f` mentions `x`, and `x` is not free where a node inside `f` binds it
anew. -/
structure Source.Hides (s : Source) (x : CodeText) (f : Node) : Prop where
  isFunction : f.kind.isFunction ∨ f.kind = .methodDefinition
  initials : ∀ i ∈ f.initials, ∀ m ∈ i.preorder, m.kind.isName → s.nameOf m ≠ x
  inner : ∀ c ∈ f.children, ∀ m ∈ c.preorder, x ∈ s.localNames m → x ∉ s.freeNames [] m

section WrittenOut

variable {s s' : Source} {r : Renaming} {parent : Kind} {n n' value : Node}

theorem freeNames_of_entry (hkind : n.kind = .pair ∨ n.kind = .pairPattern)
    (h : n.entryValue? = some value) (hvalue : value.kind.isNamed) :
    s.freeNames [] n = s.freeNames [] value := by
  obtain ⟨key, hcs, hkey, hbare, hfield⟩ := Node.entryValue?_eq_some_iff.mp h
  have href : n.kind.isReference = false := by rcases hkind with hk | hk <;> rw [hk] <;> rfl
  have hkeyNames : s.freeNames [] key = [] := Source.freeNames_of_isBare hbare []
  rw [Source.freeNames_eq_scopes href]
  rcases hkind with hk | hk
  · have hscopes : s.scopes n = ((n.part .key).filter fun k => k.kind = .computedPropertyName).map (([], ·)) ++
        (n.part .value).map (([], ·)) := by
      unfold Source.scopes
      simp [hk, Kind.isFunction]
    have hparts : n.part .key = [key] ∧ n.part .value = [value] := by
      simp [Node.part, Node.child?, hcs, hkey, hfield]
    rw [hscopes, hparts.1, hparts.2]
    by_cases hcomputed : key.kind = .computedPropertyName <;> simp [hcomputed, hkeyNames]
  · have hscopes : s.scopes n = n.named.map (([], ·)) := by
      unfold Source.scopes
      simp [hk, Kind.isFunction, Source.scopeNames]
    rw [hscopes, Node.named, hcs]
    by_cases hnamed : key.kind.isNamed <;> simp [hnamed, hvalue, hkeyNames]

theorem freeNames_of_isIdentifier {x : CodeText} (h : n.isIdentifier s x) : s.freeNames [] n = [x] := by
  obtain ⟨hkind, -, hname⟩ := Node.isIdentifier_iff.mp h
  rw [Source.freeNames_of_isReference (by rw [hkind]; rfl), hname]
  simp

theorem freeNames_of_named (hkind : n.kind = .assignmentPattern ∨ n.kind = .objectAssignmentPattern ∨
    n.kind = .shorthandPropertyIdentifierPattern) :
    s.freeNames [] n = n.named.flatMap (s.freeNames []) := by
  have href : n.kind.isReference = false := by rcases hkind with hk | hk | hk <;> rw [hk] <;> rfl
  have hscopes : s.scopes n = n.named.map (([], ·)) := by
    unfold Source.scopes
    rcases hkind with hk | hk | hk <;> simp [hk, Kind.isFunction, Source.scopeNames]
  rw [Source.freeNames_eq_scopes href, hscopes, List.flatMap_map]
  simp

theorem keeps_of_writtenOut (h : n.writtenOut s s' r parent n')
    (ih : ∀ d ∈ n.children, ∀ d', d.alike s s' r true d' →
      r.Keeps true (s.freeNames [] d) (s'.freeNames [] d')) :
    r.Keeps true (s.freeNames [] n) (s'.freeNames [] n') := by
  have hnew : r.Keeps true [] [r.new] := by simp [Renaming.Keeps]
  obtain ⟨-, -, value, hentry, h⟩ := Node.writtenOut_iff.mp h
  split at h
  · next hk =>
    obtain ⟨-, hk', hpattern, hinitial⟩ := h
    rw [freeNames_of_entry (.inr hk') hentry (by rw [hpattern]; rfl), freeNames_of_named (.inl hpattern),
      freeNames_of_named (.inr (.inl hk))]
    have hchildren : List.Forall₂ (fun d d' => d.kind.isNamed = d'.kind.isNamed ∧
        r.Keeps true (s.freeNames [] d) (s'.freeNames [] d')) n.children value.children := by
      have hmem := (List.forall₂_and_left (p := fun d => d ∈ n.children) _ _).mpr
        ⟨fun _ hd => hd, initialAlike_iff.mp hinitial⟩
      refine hmem.imp fun d d' ⟨hd, hdd'⟩ => ?_
      split at hdd'
      · obtain ⟨hshort, hleaf, -, -, hname⟩ := hdd'
        rw [hshort, (Node.isIdentifier_iff.mp hname).1, freeNames_of_isIdentifier hname,
          freeNames_of_named (.inr (.inr hshort)), Node.named, hleaf]
        exact ⟨rfl, hnew⟩
      · exact ⟨by rw [(Node.alike_iff.mp hdd').1], ih d hd d' hdd'⟩
    have hnamed := List.rel_filter (p := fun d => d.kind.isNamed) (q := fun d => d.kind.isNamed)
      (fun d d' hdd' => by simp only [hdd'.1]) hchildren
    exact Renaming.keeps_flatMap hnamed fun d _ d' hdd' => hdd'.2
  · obtain ⟨hform, hleaf, hold, hvalue⟩ := h
    have hnamed : value.kind.isNamed := by rw [(Node.isIdentifier_iff.mp hvalue).1]; rfl
    rcases Renaming.writesOut_iff.mp hform with ⟨-, hk, hk'⟩ | ⟨-, hk, hk'⟩
    · rw [freeNames_of_entry (.inl hk') hentry hnamed, freeNames_of_isIdentifier hvalue,
        Source.freeNames_of_isReference (by rw [hk]; rfl), hold]
      simp [Renaming.Keeps]
    · rw [freeNames_of_entry (.inr hk') hentry hnamed, freeNames_of_isIdentifier hvalue,
        freeNames_of_named (.inr (.inr hk)), Node.named, hleaf]
      exact hnew

end WrittenOut

section Trees

variable {s s' : Source} {r : Renaming}

theorem exists_name_of_alike {active : Bool} {n n' m' : Node} (h : n.alike s s' r active n')
    (hm' : m' ∈ n'.preorder) (hname : m'.kind.isName) :
    ∃ m ∈ n.preorder, m.kind.isName ∧ (s'.nameOf m' = s.nameOf m ∨ s.nameOf m = r.old) := by
  obtain ⟨hkind, -, htext, hchildren⟩ := Node.alike_iff.mp h
  rw [n'.preorder_eq, List.mem_cons, List.mem_flatMap] at hm'
  rcases hm' with rfl | ⟨c', hc', hm'⟩
  · rw [← hkind] at hname
    refine ⟨n, n.self_mem_preorder, hname, ?_⟩
    rw [htext (.inl hname), Renaming.apply]
    split
    · next hold => exact .inr hold.2
    · exact .inl rfl
  obtain ⟨c, hc, halike | ⟨-, hwritten⟩⟩ := exists_of_forall₂ hchildren hc'
  · obtain ⟨m, hm, hrest⟩ := exists_name_of_alike halike hm' hname
    exact ⟨m, Node.mem_preorder_of_mem hc hm, hrest⟩
  obtain ⟨-, -, value, hentry, hform⟩ := Node.writtenOut_iff.mp hwritten
  obtain ⟨key, hcs', -, hbare, -⟩ := Node.entryValue?_eq_some_iff.mp hentry
  have hvalue : m' = c' ∨ m' ∈ value.preorder := by
    rw [c'.preorder_eq, hcs'] at hm'
    simp only [List.mem_cons, List.flatMap_cons, List.flatMap_nil, List.append_nil, List.mem_append] at hm'
    rcases hm' with hm' | hm' | hm'
    · exact .inl hm'
    · simp [Node.isBare_iff.mp hbare m' hm'] at hname
    · exact .inr hm'
  split at hform
  · obtain ⟨-, hk', hpattern, hinitial⟩ := hform
    rcases hvalue with rfl | hvalue
    · simp [hk', Kind.isName] at hname
    rw [value.preorder_eq, List.mem_cons, List.mem_flatMap] at hvalue
    rcases hvalue with rfl | ⟨d', hd', hm'⟩
    · simp [hpattern, Kind.isName] at hname
    obtain ⟨d, hd, hdd'⟩ := exists_of_forall₂ (initialAlike_iff.mp hinitial) hd'
    split at hdd'
    · obtain ⟨hshort, -, hold, -, -⟩ := hdd'
      exact ⟨d, Node.mem_preorder_of_mem hc (Node.mem_preorder_of_mem hd d.self_mem_preorder),
        by rw [hshort]; rfl, .inr hold⟩
    · obtain ⟨m, hm, hrest⟩ := exists_name_of_alike hdd' hm' hname
      exact ⟨m, Node.mem_preorder_of_mem hc (Node.mem_preorder_of_mem hd hm), hrest⟩
  · obtain ⟨hwrites, -, hold, -⟩ := hform
    refine ⟨c, Node.mem_preorder_of_mem hc c.self_mem_preorder, ?_, .inr hold⟩
    rcases Renaming.writesOut_iff.mp hwrites with ⟨-, hk, -⟩ | ⟨-, hk, -⟩ <;> rw [hk] <;> rfl
termination_by sizeOf n
decreasing_by
  · exact Node.sizeOf_lt_of_mem hc
  · exact Nat.lt_trans (Node.sizeOf_lt_of_mem hd) (Node.sizeOf_lt_of_mem hc)

theorem keeps_of_scopes {active : Bool} {act : Option Field → Bool} {n n' : Node}
    (href : n.kind.isReference = false) (hkind : n.kind = n'.kind)
    (h : List.Forall₂ (AlikeChild s s' r act n.kind) n.children n'.children)
    (hact : ∀ part, act part = active ∨ part = some .name ∧
      (n.kind = .methodDefinition ∨ n.kind.isFunction ∧ active = true))
    (hregular : ∀ m ∈ n.preorder, m.isRegular)
    (hfresh : ∀ m ∈ n.preorder, m.kind.isName → s.nameOf m ≠ r.new)
    (ih : ∀ c ∈ n.preorder, sizeOf c < sizeOf n → ∀ c', c.alike s s' r active c' →
      r.Keeps active (s.freeNames [] c) (s'.freeNames [] c')) :
    r.Keeps active (s.freeNames [] n) (s'.freeNames [] n') := by
  have hchildren : ∀ c ∈ n.children, c.isRegular :=
    fun c hc => hregular c (Node.mem_preorder_of_mem hc c.self_mem_preorder)
  rw [Source.freeNames_eq_scopes href, Source.freeNames_eq_scopes (hkind ▸ href)]
  refine Renaming.keeps_flatMap
    (scopes_alike hkind h hact (hregular n n.self_mem_preorder) hchildren) fun x hx x' hxx' => ?_
  obtain ⟨hagrees, hnodes⟩ := hxx'
  have hmem : x.2 ∈ n.preorder := Source.mem_preorder_of_mem_scopes hx
  have hsize : sizeOf x.2 < sizeOf n := Source.sizeOf_lt_of_mem_scopes hx
  refine Renaming.keeps_filter ?_ (fun hnew => ?_) hagrees
  · rcases hnodes with halike | ⟨hactive, parent, hwritten⟩
    · exact ih x.2 hmem hsize x'.2 halike
    · subst hactive
      refine keeps_of_writtenOut hwritten fun d hd d' hdd' => ih d ?_ ?_ d' hdd'
      · exact Node.child_mem_preorder hmem hd
      · exact Nat.lt_trans (Node.sizeOf_lt_of_mem hd) hsize
  · obtain ⟨m, hm, href, hname⟩ := Source.exists_of_mem_freeNames hnew
    exact hfresh m (Node.mem_preorder_trans hmem hm) (Kind.isName_of_isReference href) hname

theorem keeps_of_reference {active : Bool} {n n' : Node} (href : n.kind.isReference)
    (h : n.alike s s' r active n') (hfresh : s.nameOf n ≠ r.new) :
    r.Keeps active (s.freeNames [] n) (s'.freeNames [] n') := by
  obtain ⟨hkind, -, htext, -⟩ := Node.alike_iff.mp h
  have hname := Kind.isName_of_isReference href
  rw [Source.freeNames_of_isReference href, Source.freeNames_of_isReference (hkind ▸ href),
    htext (.inl hname), hname, Bool.and_true]
  simp only [List.not_mem_nil, if_false]
  cases active with
  | false => simp [Renaming.Keeps, Renaming.apply]
  | true => by_cases hold : s.nameOf n = r.old <;> simp [Renaming.Keeps, Renaming.apply, hold, hfresh]

theorem not_isReference_of_function {n : Node} (h : n.kind.isFunction ∨ n.kind = .methodDefinition) :
    n.kind.isReference = false := by
  cases hk : n.kind <;> simp [hk, Kind.isFunction, Kind.isReference] at h ⊢

theorem mem_freeNames_of_function {n : Node} (h : n.kind.isFunction ∨ n.kind = .methodDefinition)
    {x : CodeText} : x ∈ s.freeNames [] n ↔
      (∃ i ∈ n.initials, x ∈ s.freeNames [] i) ∨
        x ∉ s.functionNames n ∧ ∃ b ∈ n.part .body, x ∈ s.freeNames [] b := by
  have hscopes : s.scopes n =
      n.initials.map (([], ·)) ++ (n.part .body).map ((s.functionNames n, ·)) := by
    rw [Source.scopes, if_pos h]
  rw [Source.freeNames_eq_scopes (not_isReference_of_function h), hscopes]
  simp only [List.flatMap_append, List.flatMap_map, List.mem_append, List.mem_flatMap, List.mem_filter,
    List.not_mem_nil, not_false_eq_true, decide_true, and_true, decide_eq_true_eq]
  refine or_congr_right ⟨?_, ?_⟩
  · rintro ⟨b, hb, hx, hnot⟩
    exact ⟨hnot, b, hb, hx⟩
  · rintro ⟨hnot, b, hb, hx⟩
    exact ⟨b, hb, hx, hnot⟩

theorem mem_functionNames_of_parameter {f : Node} {x : CodeText}
    (h : ∃ p ∈ f.params, x ∈ s.boundNames (some p)) : x ∈ s.functionNames f := by
  obtain ⟨p, hp, hx⟩ := h
  exact List.mem_append_left _ (List.mem_flatMap.mpr ⟨p, hp, hx⟩)

theorem Source.Hides.not_mem_freeNames {f : Node} {x : CodeText} (h : s.Hides x f)
    (hparameter : ∃ p ∈ f.params, x ∈ s.boundNames (some p)) : x ∉ s.freeNames [] f := by
  rw [mem_freeNames_of_function h.isFunction]
  rintro (⟨i, hi, hx⟩ | ⟨hnot, -⟩)
  · obtain ⟨m, hm, href, hname⟩ := Source.exists_of_mem_freeNames hx
    exact h.initials i hi m hm (Kind.isName_of_isReference href) hname
  · exact hnot (mem_functionNames_of_parameter hparameter)

section Owner

variable {f f' : Node} (h : f.alike s s' r false f') (howner : r.owns f) (hhides : s.Hides r.old f)

include howner hhides

theorem inPart_of_owner (part : Option Field) : r.inPart s false f part = decide (part ≠ some .name) := by
  have hfun : f.kind.opensFunction := by
    have hfunction := hhides.isFunction
    cases hk : f.kind <;> simp [hk, Kind.isFunction, Kind.opensFunction] at hfunction ⊢
  simp [Renaming.inPart, howner, hfun]

include h

theorem new_not_mem_freeNames (hparameter : ∃ p ∈ f.params, r.old ∈ s.boundNames (some p))
    (hregular : f.isRegular) (hfresh : ∀ m ∈ f.preorder, m.kind.isName → s.nameOf m ≠ r.new) :
    r.new ∉ s'.freeNames [] f' := by
  obtain ⟨hkind, -, -, hchildren⟩ := Node.alike_iff.mp h
  have hact : ∀ part, part ≠ some .name → r.inPart s false f part = true := fun part hpart => by
    rw [inPart_of_owner howner hhides, decide_eq_true hpart]
  rw [mem_freeNames_of_function (hkind ▸ hhides.isFunction)]
  rintro (⟨i', hi', hx⟩ | ⟨hnot, -⟩)
  · obtain ⟨i, hi, hii'⟩ := exists_of_forall₂ (initials_alike hchildren hact hregular) hi'
    obtain ⟨m', hm', href, hname'⟩ := Source.exists_of_mem_freeNames hx
    obtain ⟨m, hm, hname, hsame | hold⟩ := exists_name_of_alike hii' hm' (Kind.isName_of_isReference href)
    · refine hfresh m ?_ hname (hsame ▸ hname')
      obtain ⟨p, hp, hip⟩ := List.mem_filterMap.mp hi
      exact Node.mem_preorder_trans (Node.mem_preorder_of_mem_params hp)
        (Node.mem_preorder_of_mem (Node.mem_children_of_initial? hip) hm)
    · exact hhides.initials i hi m hm hname hold
  · obtain ⟨p, hp, hold⟩ := hparameter
    refine hnot (mem_functionNames_of_parameter ?_)
    obtain ⟨p', hp', -, hpp'⟩ := exists_of_forall₂ (params_alike hchildren hact hregular).flip hp
    have hbound : p'.bound.map s'.nameOf = (p.bound.map s.nameOf).map (r.apply true) := bound_alike hpp'
    refine ⟨p', hp', ?_⟩
    simp only [Source.boundNames, Option.elim_some] at hold ⊢
    rw [hbound]
    exact List.mem_map.mpr ⟨r.old, hold, by simp [Renaming.apply]⟩

end Owner

/-- What a renaming asks of the node `n` and all below: the new name is new, and what renames a parameter
has it, and hides it. -/
structure Renaming.Clear (s : Source) (r : Renaming) (n : Node) : Prop where
  fresh : ∀ m ∈ n.preorder, m.kind.isName → s.nameOf m ≠ r.new
  regular : ∀ m ∈ n.preorder, m.isRegular
  parameter : ∀ f ∈ n.preorder, r.owns f → ∃ p ∈ f.params, r.old ∈ s.boundNames (some p)
  hides : ∀ f ∈ n.preorder, r.owns f → s.Hides r.old f

theorem Renaming.Clear.of_mem {n m : Node} (h : r.Clear s n) (hm : m ∈ n.preorder) : r.Clear s m where
  fresh k hk := h.fresh k (Node.mem_preorder_trans hm hk)
  regular k hk := h.regular k (Node.mem_preorder_trans hm hk)
  parameter k hk := h.parameter k (Node.mem_preorder_trans hm hk)
  hides k hk := h.hides k (Node.mem_preorder_trans hm hk)

/-- The analysis sees all scopes at and below the node that bind `x`. -/
def Source.SeesScopes (s : Source) (x : CodeText) (n : Node) : Prop :=
  ∀ m ∈ n.preorder, x ∈ s.localNames m → x ∉ s.freeNames [] m

theorem new_not_mem {n : Node} (h : ∀ m ∈ n.preorder, m.kind.isName → s.nameOf m ≠ r.new) :
    r.new ∉ s.freeNames [] n := by
  intro hnew
  obtain ⟨m, hm, href, hname⟩ := Source.exists_of_mem_freeNames hnew
  exact h m hm (Kind.isName_of_isReference href) hname

theorem freeNames_keeps {active : Bool} {n n' : Node} (h : n.alike s s' r active n') (hclear : r.Clear s n)
    (hscopes : active = true → s.SeesScopes r.old n) :
    r.Keeps active (s.freeNames [] n) (s'.freeNames [] n') := by
  obtain ⟨hkind, -, -, hchildren⟩ := Node.alike_iff.mp h
  by_cases href : n.kind.isReference
  · exact keeps_of_reference href h (hclear.fresh n n.self_mem_preorder (Kind.isName_of_isReference href))
  rw [Bool.not_eq_true] at href
  -- The nodes that count for `n` may lie deeper than its children, so the induction is on the size.
  have ih (flag : Bool) (hflag : flag = true → ∀ c ∈ n.children, s.SeesScopes r.old c) :
      ∀ c ∈ n.preorder, sizeOf c < sizeOf n → ∀ c', c.alike s s' r flag c' →
        r.Keeps flag (s.freeNames [] c) (s'.freeNames [] c') := by
    intro c hc hsize c' hcc'
    refine freeNames_keeps hcc' (hclear.of_mem hc) fun hf => ?_
    rw [n.preorder_eq, List.mem_cons, List.mem_flatMap] at hc
    rcases hc with rfl | ⟨d, hd, hc⟩
    · exact absurd hsize (Nat.lt_irrefl _)
    · exact fun m hm => hflag hf d hd m (Node.mem_preorder_trans hc hm)
  have step (flag : Bool) (hflag : flag = true → ∀ c ∈ n.children, s.SeesScopes r.old c)
      (hact : ∀ part, r.inPart s active n part = flag ∨ part = some .name ∧
        (n.kind = .methodDefinition ∨ n.kind.isFunction ∧ flag = true)) :
      r.Keeps flag (s.freeNames [] n) (s'.freeNames [] n') :=
    keeps_of_scopes href hkind hchildren hact hclear.regular hclear.fresh (ih flag hflag)
  cases active with
  | true =>
    have hsees := hscopes rfl
    by_cases hlocal : r.old ∈ s.localNames n
    · -- The parameter is hidden in all parts that count, so nothing is renamed there.
      have hsame := step false (by simp) fun part => by
        simp only [Renaming.inPart, hlocal, not_true, decide_false, Bool.false_or, if_true,
          Bool.and_eq_false_iff, decide_eq_false_iff_not]
        by_cases hmethod : n.kind = .methodDefinition ∧ part = some .name
        · exact .inr ⟨hmethod.2, .inl hmethod.1⟩
        · exact .inl (not_and_or.mp hmethod)
      exact Renaming.keeps_of_eq hsame (fun _ => hsees n n.self_mem_preorder hlocal)
        fun _ => new_not_mem hclear.fresh
    · refine step true (fun _ c hc m hm => hsees m (Node.mem_preorder_of_mem hc hm)) fun part => .inl ?_
      simp [Renaming.inPart, hlocal]
  | false =>
    by_cases howner : r.owns n
    · -- The renaming begins here. It changes no free name, as the function leaves neither name free.
      have hhides := hclear.hides n n.self_mem_preorder howner
      have hparameter := hclear.parameter n n.self_mem_preorder howner
      have hkeeps := step true (fun _ c hc => hhides.inner c hc) fun part => by
        rw [inPart_of_owner howner hhides]
        by_cases hpart : part = some .name
        · exact .inr ⟨hpart, hhides.isFunction.symm.imp_right fun hf => ⟨hf, rfl⟩⟩
        · exact .inl (decide_eq_true hpart)
      exact Renaming.eq_of_keeps hkeeps (hhides.not_mem_freeNames hparameter)
        (new_not_mem_freeNames h howner hhides hparameter (hclear.regular n n.self_mem_preorder) hclear.fresh)
    · refine step false (by simp) fun part => .inl ?_
      simp [Renaming.inPart, howner]
termination_by sizeOf n
decreasing_by exact hsize

end Trees

namespace Source

variable {s : Source}

theorem seesScopes_of_isOrderly {n : Node} (h : n.IsOrderly) (hkeeps : ∀ m ∈ n.preorder, s.KeepsVariables m)
    (x : CodeText) : s.SeesScopes x n := by
  intro m hm hlocal hmem
  rw [freeNames_eq_freeUses_of_isOrderly (Node.isOrderly_of_mem_preorder h hm)] at hmem
  obtain ⟨u, hu, hfree, rfl⟩ := mem_freeUses_iff.mp hmem
  have hin : m ∈ u.around := by
    rcases Node.mem_uses_iff.mp hu with ⟨href, -⟩ | ⟨c, -, v, -, rfl⟩
    · have hinside : m.kind.bindsInside = false := by
        cases hk : m.kind <;> simp [hk, Kind.isReference, Kind.bindsInside] at href ⊢
      rw [localNames_eq_nil hinside] at hlocal
      exact absurd hlocal List.not_mem_nil
    · exact List.mem_append_right _ (List.mem_singleton_self m)
  rcases mem_own_or_hoisted hlocal with hown | hvariable
  · exact hfree m hin hown
  · obtain ⟨k, hk, hown⟩ := hkeeps m hm u hu m hin hvariable
    exact hfree k hk hown

theorem hides_of_isPlain {f : Node} (h : f.isPlain) (hfun : f.kind.opensFunction)
    (hkeeps : ∀ m ∈ f.preorder, s.KeepsVariables m) (x : CodeText) : s.Hides x f := by
  have hfunction : f.kind.isFunction ∨ f.kind = .methodDefinition := by
    have hstands := (Node.isPlainIn_iff.mp h).1
    cases hk : f.kind <;>
      simp [hk, Kind.opensFunction, Kind.isFunction, Kind.mayStand, Kind.isOtherDeclaration] at hfun hstands ⊢
  refine ⟨hfunction, fun i hi m hm hname => ?_, fun c hc => ?_⟩
  · obtain ⟨p, hp, hinitial⟩ := List.mem_filterMap.mp hi
    have hbare : i.isBare := by
      rcases (Node.isPlainIn_iff.mp h).2 with hbare | ⟨-, hroles⟩
      · refine Node.isBare_of_mem_preorder hbare (Node.mem_preorder_trans (Node.mem_preorder_of_mem_params hp) ?_)
        exact Node.mem_preorder_of_mem (Node.mem_children_of_initial? hinitial) i.self_mem_preorder
      · have hparameter := isParameter_of_mem_params hfunction hroles hp
        rw [Node.isParameter, hinitial, Bool.and_eq_true] at hparameter
        exact hparameter.2
    simp [Node.isBare_iff.mp hbare m hm] at hname
  · exact seesScopes_of_isOrderly (Node.isOrderly_of_mem (Node.isOrderly_of_isPlain h) hc)
      (fun m hm => hkeeps m (Node.mem_preorder_of_mem hc hm)) x

end Source

end ComponentDoc.Script
