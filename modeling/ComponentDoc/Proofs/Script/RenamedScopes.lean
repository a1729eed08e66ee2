import ComponentDoc.Proofs.Script.Renaming

/-!
What the analysis binds on the two sides of a renaming. Main statement: the nodes that count for a node
are alike on both sides, and the names that are bound there differ in the old and the new name only.
-/

namespace ComponentDoc.Script

theorem forall₂_map {α β : Type} {R : α → α → Prop} {P : β → β → Prop} {l l' : List α} {f f' : α → β}
    (h : List.Forall₂ R l l') (hf : ∀ a a', R a a' → P (f a) (f' a')) :
    List.Forall₂ P (l.map f) (l'.map f') := by
  rw [List.forall₂_map_left_iff, List.forall₂_map_right_iff]
  exact h.imp hf

theorem exists_of_forall₂ {α : Type} {R : α → α → Prop} {l l' : List α} {b : α}
    (h : List.Forall₂ R l l') (hb : b ∈ l') : ∃ a ∈ l, R a b := by
  induction h with
  | nil => simp at hb
  | @cons a b' l l' hR _ ih =>
    rcases List.mem_cons.mp hb with rfl | hb
    · exact ⟨a, List.mem_cons_self, hR⟩
    · obtain ⟨c, hc, hR⟩ := ih hb
      exact ⟨c, List.mem_cons_of_mem _ hc, hR⟩

namespace Renaming

variable {r : Renaming} {active : Bool}

/-- Names that are bound on the two sides of a renaming: they differ in the old and the new name only. -/
def Agrees (r : Renaming) (active : Bool) (names names' : List CodeText) : Prop :=
  ∀ x, (active = true → x ≠ r.old ∧ x ≠ r.new) → (x ∈ names' ↔ x ∈ names)

/-- Names that are free on the two sides of a renaming: they are the same, but where the parameter is
renamed itself. -/
def Keeps (r : Renaming) (active : Bool) (names names' : List CodeText) : Prop :=
  if active then (names'.filter fun x => x ≠ r.new) = names.filter fun x => x ≠ r.old
  else names' = names

theorem agrees_append {xs xs' ys ys' : List CodeText} (hx : r.Agrees active xs xs')
    (hy : r.Agrees active ys ys') : r.Agrees active (xs ++ ys) (xs' ++ ys') := by
  intro x h
  rw [List.mem_append, List.mem_append, hx x h, hy x h]

theorem agrees_apply {flag : Bool} (h : flag = true → active = true) (xs : List CodeText) :
    r.Agrees active xs (xs.map (r.apply flag)) := by
  intro x hx
  cases flag with
  | false => simp [apply]
  | true =>
    obtain ⟨hold, hnew⟩ := hx (h rfl)
    have happly (y : CodeText) : r.apply true y = x ↔ y = x := by
      unfold apply
      split
      · next hy => exact iff_of_false (fun h => hnew h.symm) (fun h => hold (h ▸ hy.2))
      · rfl
    simp [happly]

theorem agrees_flatMap {α : Type} {R : α → α → Prop} {l l' : List α} {f f' : α → List CodeText}
    (h : List.Forall₂ R l l') (hf : ∀ a ∈ l, ∀ a', R a a' → r.Agrees active (f a) (f' a')) :
    r.Agrees active (l.flatMap f) (l'.flatMap f') := by
  induction h with
  | nil => exact fun _ _ => Iff.rfl
  | @cons a a' l l' hR _ ih =>
    rw [List.flatMap_cons, List.flatMap_cons]
    exact agrees_append (hf a List.mem_cons_self a' hR) (ih fun b hb => hf b (List.mem_cons_of_mem _ hb))

theorem keeps_flatMap {α : Type} {R : α → α → Prop} {l l' : List α} {f f' : α → List CodeText}
    (h : List.Forall₂ R l l') (hf : ∀ a ∈ l, ∀ a', R a a' → r.Keeps active (f a) (f' a')) :
    r.Keeps active (l.flatMap f) (l'.flatMap f') := by
  induction h with
  | nil => cases active <;> rfl
  | @cons a a' l l' hR _ ih =>
    have hhead := hf a List.mem_cons_self a' hR
    have htail := ih fun b hb => hf b (List.mem_cons_of_mem _ hb)
    unfold Keeps at hhead htail ⊢
    cases active with
    | false => simp_all
    | true =>
      simp only [if_true] at hhead htail ⊢
      rw [List.flatMap_cons, List.flatMap_cons, List.filter_append, List.filter_append, hhead, htail]

theorem keeps_of_eq {xs xs' : List CodeText} (h : xs' = xs) (hold : active = true → r.old ∉ xs)
    (hnew : active = true → r.new ∉ xs) : r.Keeps active xs xs' := by
  subst h
  unfold Keeps
  cases active with
  | false => rfl
  | true =>
    rw [if_pos rfl, List.filter_eq_self.mpr, List.filter_eq_self.mpr]
    · exact fun x hx => decide_eq_true fun h => hold rfl (h ▸ hx)
    · exact fun x hx => decide_eq_true fun h => hnew rfl (h ▸ hx)

theorem eq_of_keeps {xs xs' : List CodeText} (h : r.Keeps true xs xs') (hold : r.old ∉ xs)
    (hnew : r.new ∉ xs') : xs' = xs := by
  have hxs' : (xs'.filter fun x => x ≠ r.new) = xs' :=
    List.filter_eq_self.mpr fun x hx => decide_eq_true fun hx' : x = r.new => hnew (hx' ▸ hx)
  have hxs : (xs.filter fun x => x ≠ r.old) = xs :=
    List.filter_eq_self.mpr fun x hx => decide_eq_true fun hx' : x = r.old => hold (hx' ▸ hx)
  rw [← hxs', ← hxs]
  exact h

theorem keeps_filter {xs xs' bound bound' : List CodeText} (h : r.Keeps active xs xs')
    (hnew : r.new ∉ xs) (hbound : r.Agrees active bound bound') :
    r.Keeps active (xs.filter fun x => x ∉ bound) (xs'.filter fun x => x ∉ bound') := by
  unfold Keeps at h ⊢
  cases active with
  | false =>
    have hxs : xs' = xs := h
    rw [if_neg (by simp), hxs]
    exact List.filter_congr fun x _ => by simp [hbound x (by simp)]
  | true =>
    have hxs : (xs'.filter fun x => x ≠ r.new) = xs.filter fun x => x ≠ r.old := h
    rw [if_pos rfl, List.filter_comm, hxs, List.filter_filter, List.filter_filter]
    refine List.filter_congr fun x hx => ?_
    have hne : x ≠ r.new := fun h => hnew (h ▸ hx)
    by_cases hold : x = r.old
    · simp [hold]
    · simp [hold, hbound x fun _ => ⟨hold, hne⟩]

end Renaming

namespace Kind

/-- A function or a declaration whose own name the analysis reads. -/
def hasOwnName : Kind → Bool
  | .arrowFunction | .functionExpression | .generatorFunction | .functionDeclaration
  | .generatorFunctionDeclaration | .classDeclaration => true
  | _ => false

end Kind

def Node.isRegular (n : Node) : Bool :=
  (n.part .parameters).all (fun ps => ps.kind = .formalParameters) &&
    n.params.all (fun p => !p.kind.bindsInside) &&
    (!n.kind.hasOwnName || (n.part .name).all fun own => own.children.isEmpty)

section Names

variable {s s' : Source} {r : Renaming} {active : Bool} {n n' : Node} {act : Option Field → Bool}

theorem AlikeChild.alike {parent : Kind} {c c' : Node} (h : AlikeChild s s' r act parent c c')
    (hobject : parent ≠ .object) (hpattern : parent ≠ .objectPattern) : c.alike s s' r (act c.field) c' := by
  refine h.resolve_right fun ⟨_, hwritten⟩ => ?_
  obtain ⟨-, -, value, -, hform⟩ := Node.writtenOut_iff.mp hwritten
  split at hform
  · exact hpattern hform.1
  · rcases Renaming.writesOut_iff.mp hform.1 with ⟨hk, -⟩ | ⟨hk, -⟩
    · exact hobject hk
    · exact hpattern hk

theorem AlikeChild.isNamed_eq {parent : Kind} {c c' : Node} (h : AlikeChild s s' r act parent c c') :
    c'.kind.isNamed = c.kind.isNamed := by
  rcases h with h | ⟨-, h⟩
  · rw [(Node.alike_iff.mp h).1]
  · obtain ⟨-, -, value, -, hform⟩ := Node.writtenOut_iff.mp h
    split at hform
    · next hk => rw [hk, hform.2.1]; rfl
    · rcases Renaming.writesOut_iff.mp hform.1 with ⟨-, hk, hk'⟩ | ⟨-, hk, hk'⟩ <;> rw [hk, hk'] <;> rfl

theorem named_alike (h : List.Forall₂ (AlikeChild s s' r act n.kind) n.children n'.children) :
    List.Forall₂ (AlikeChild s s' r act n.kind) n.named n'.named := by
  refine List.rel_filter (fun c c' hc => ?_) h
  simp only [hc.isNamed_eq]

theorem part_alike (h : List.Forall₂ (AlikeChild s s' r act n.kind) n.children n'.children) (f : Field) :
    List.Forall₂ (fun c c' => c.alike s s' r (act (some f)) c') (n.part f) (n'.part f) := by
  rw [Node.part, Node.part]
  rcases child?_alike h f with ⟨hc, hc'⟩ | ⟨c, c', hc, hc', halike⟩
  · rw [hc, hc']
    exact .nil
  · rw [hc, hc']
    exact .cons halike .nil

theorem part_names_agree (h : List.Forall₂ (AlikeChild s s' r act n.kind) n.children n'.children)
    {f : Field} (hact : act (some f) = true → active = true) (hleaf : ∀ c ∈ n.part f, c.children = []) :
    r.Agrees active ((n.part f).map s.nameOf) ((n'.part f).map s'.nameOf) := by
  rw [← List.flatMap_pure_eq_map, ← List.flatMap_pure_eq_map]
  refine Renaming.agrees_flatMap (part_alike h f) fun c hc c' hcc' => ?_
  have htext := (Node.alike_iff.mp hcc').2.2.1 (.inr (hleaf c hc))
  have hnames : [s'.nameOf c'] = [s.nameOf c].map (r.apply (act (some f) && c.kind.isName)) := by
    rw [htext, List.map_singleton]
  change r.Agrees active [s.nameOf c] [s'.nameOf c']
  rw [hnames]
  exact Renaming.agrees_apply (fun hflag => hact (Bool.and_eq_true _ _ ▸ hflag).1) _

theorem boundNames_agree {flag : Bool} (hflag : flag = true → active = true)
    (h : n.alike s s' r flag n') : r.Agrees active (s.boundNames (some n)) (s'.boundNames (some n')) := by
  have hbound : n'.bound.map s'.nameOf = _ := bound_alike h
  simp only [Source.boundNames, Option.elim_some, hbound]
  exact Renaming.agrees_apply hflag _

theorem child_boundNames_agree
    (h : List.Forall₂ (AlikeChild s s' r act n.kind) n.children n'.children) {f : Field}
    (hact : act (some f) = true → active = true) :
    r.Agrees active (s.boundNames (n.child? f)) (s'.boundNames (n'.child? f)) := by
  rcases child?_alike h f with ⟨hc, hc'⟩ | ⟨c, c', hc, hc', halike⟩
  · rw [hc, hc']
    exact fun _ _ => Iff.rfl
  · rw [hc, hc']
    exact boundNames_agree hact halike

theorem variableNames_agree {d d' : Node} (hkind : d.kind.isVariables) (h : d.alike s s' r active d') :
    r.Agrees active (s.variableNames d) (s'.variableNames d') := by
  have hchildren := (Node.alike_iff.mp h).2.2.2
  have hin (part : Option Field) : r.inPart s active d part = active :=
    inPart_eq (by cases hk : d.kind <;> simp [hk, Kind.isVariables, Kind.bindsInside] at hkind ⊢) part
  have hdeclarators : List.Forall₂ (fun v v' => v.alike s s' r active v')
      (d.named.filter fun v => v.kind = .variableDeclarator)
      (d'.named.filter fun v => v.kind = .variableDeclarator) := by
    refine List.rel_filter (fun v v' hv => ?_) ((named_alike hchildren).imp fun v v' hv => ?_)
    · simp only [(Node.alike_iff.mp hv).1]
    · have halike := hv.alike (by rintro hk; simp [hk, Kind.isVariables] at hkind)
        (by rintro hk; simp [hk, Kind.isVariables] at hkind)
      rwa [hin] at halike
  refine Renaming.agrees_flatMap hdeclarators fun v hv v' hvv' => ?_
  have hvk : v.kind = .variableDeclarator := by simpa using (List.mem_filter.mp hv).2
  refine child_boundNames_agree (Node.alike_iff.mp hvv').2.2.2 fun hact => ?_
  rwa [inPart_eq (by rw [hvk]; rfl)] at hact

theorem statementNames_agree {c c' : Node} (hregular : c.isRegular) (h : c.alike s s' r active c') :
    r.Agrees active (s.statementNames c) (s'.statementNames c') := by
  obtain ⟨hkind, -, -, hchildren⟩ := Node.alike_iff.mp h
  have hname (hown : c.kind.hasOwnName) : r.Agrees active ((c.part .name).map s.nameOf)
      ((c'.part .name).map s'.nameOf) := by
    refine part_names_agree hchildren (fun hact => ?_) fun own hmem => ?_
    · cases active with
      | true => rfl
      | false => simp [Renaming.inPart] at hact
    · simp only [Node.isRegular, Bool.and_eq_true, hown, Bool.not_true, Bool.false_or,
        List.all_eq_true] at hregular
      simpa using hregular.2 own hmem
  unfold Source.statementNames
  rw [← hkind]
  cases hk : c.kind
  case lexicalDeclaration | variableDeclaration => exact variableNames_agree (by rw [hk]; rfl) h
  case functionDeclaration | generatorFunctionDeclaration | classDeclaration =>
    exact hname (by rw [hk]; rfl)
  all_goals exact fun _ _ => Iff.rfl

theorem scopeNames_agree (hkind : n.kind = n'.kind)
    (h : List.Forall₂ (AlikeChild s s' r act n.kind) n.children n'.children)
    (hact : ∀ part, act part = active) (hregular : ∀ c ∈ n.children, c.isRegular) :
    r.Agrees active (s.scopeNames n) (s'.scopeNames n') := by
  unfold Source.scopeNames
  rw [← hkind]
  have hchild (f : Field) : r.Agrees active (s.boundNames (n.child? f)) (s'.boundNames (n'.child? f)) :=
    child_boundNames_agree h fun hf => by rwa [hact] at hf
  cases hk : n.kind
  case statementBlock =>
    refine Renaming.agrees_flatMap (named_alike h) fun c hc c' hcc' => ?_
    have halike := hcc'.alike (by simp [hk]) (by simp [hk])
    rw [hact] at halike
    exact statementNames_agree (hregular c (Node.mem_of_mem_named hc)) halike
  case forStatement =>
    refine Renaming.agrees_flatMap (R := fun i i' => i.alike s s' r active i') ?_ fun i hi i' hii' => ?_
    · refine List.rel_filter (fun i i' hii' => ?_) ?_
      · simp only [(Node.alike_iff.mp hii').1]
      · have hpart := part_alike h .initializer
        rwa [hact] at hpart
    · exact variableNames_agree (by simpa using (List.mem_filter.mp hi).2) hii'
  case forInStatement =>
    have hbinder : (n'.child? .binder).isSome = (n.child? .binder).isSome := by
      rcases child?_alike h .binder with ⟨hc, hc'⟩ | ⟨c, c', hc, hc', -⟩ <;> rw [hc, hc']
      rfl
    simp only [hbinder]
    split
    · exact hchild .left
    · exact fun _ _ => Iff.rfl
  case catchClause => exact hchild .parameter
  all_goals exact fun _ _ => Iff.rfl

section Functions

variable (h : List.Forall₂ (AlikeChild s s' r act n.kind) n.children n'.children)
  (hact : ∀ part, part ≠ some .name → act part = active) (hregular : n.isRegular)

include h hact hregular

theorem params_alike :
    List.Forall₂ (fun p p' => p.kind.bindsInside = false ∧ p.alike s s' r active p') n.params n'.params := by
  have hparams : ∀ p ∈ n.params, p.kind.bindsInside = false := by
    simp only [Node.isRegular, Bool.and_eq_true, List.all_eq_true, Bool.not_eq_true'] at hregular
    exact hregular.1.2
  refine (List.forall₂_and_left _ _).mpr ⟨hparams, ?_⟩
  unfold Node.params
  rcases child?_alike h .parameter with ⟨hc, hc'⟩ | ⟨c, c', hc, hc', halike⟩
  · rw [hc, hc']
    rcases child?_alike h .parameters with ⟨hps, hps'⟩ | ⟨ps, ps', hps, hps', halike⟩
    · rw [hps, hps']
      exact .nil
    · rw [hps, hps']
      have hlist : ps.kind = .formalParameters := by
        simp only [Node.isRegular, Bool.and_eq_true, List.all_eq_true, decide_eq_true_eq] at hregular
        exact hregular.1.1 ps (by simp [Node.part, hps])
      have hchildren := (Node.alike_iff.mp halike).2.2.2
      have hnamed : List.Forall₂ (fun p p' => p.alike s s' r active p') ps.named ps'.named := by
        refine (named_alike hchildren).imp fun p p' hpp' => ?_
        have hpp' := hpp'.alike (by simp [hlist]) (by simp [hlist])
        rwa [inPart_eq (by rw [hlist]; rfl), hact _ (by simp)] at hpp'
      exact List.rel_filter (fun p p' hpp' => by simp only [(Node.alike_iff.mp hpp').1]) hnamed
  · rw [hc, hc']
    rw [hact _ (by simp)] at halike
    exact .cons halike .nil

theorem initials_alike :
    List.Forall₂ (fun i i' => i.alike s s' r active i') n.initials n'.initials := by
  refine List.rel_filterMap (fun p p' hpp' => ?_) (params_alike h hact hregular)
  obtain ⟨hkind, halike⟩ := hpp'
  have hchildren := (Node.alike_iff.mp halike).2.2.2
  unfold Node.initial?
  rcases child?_alike hchildren .right with ⟨hc, hc'⟩ | ⟨c, c', hc, hc', hcc'⟩
  · rw [hc, hc', Option.none_or, Option.none_or]
    rcases child?_alike hchildren .value with ⟨hv, hv'⟩ | ⟨v, v', hv, hv', hvv'⟩
    · rw [hv, hv']
      exact .none
    · rw [hv, hv']
      rw [inPart_eq hkind] at hvv'
      exact .some hvv'
  · rw [hc, hc', Option.some_or, Option.some_or]
    rw [inPart_eq hkind] at hcc'
    exact .some hcc'

theorem params_agree :
    r.Agrees active (n.params.flatMap fun p => s.boundNames (some p))
      (n'.params.flatMap fun p => s'.boundNames (some p)) :=
  Renaming.agrees_flatMap (params_alike h hact hregular) fun _ _ _ hpp' =>
    boundNames_agree id hpp'.2

theorem functionNames_agree (hkind : n.kind = n'.kind)
    (hname : n.kind ≠ .methodDefinition → act (some .name) = true → active = true)
    (hown : n.kind = .methodDefinition ∨ n.kind.hasOwnName) :
    r.Agrees active (s.functionNames n) (s'.functionNames n') := by
  refine Renaming.agrees_append (params_agree h hact hregular) ?_
  rw [← hkind]
  split
  · exact fun _ _ => Iff.rfl
  · next hmethod =>
    refine part_names_agree h (hname hmethod) fun own hmem => ?_
    simp only [Node.isRegular, Bool.and_eq_true, hown.resolve_left hmethod, Bool.not_true, Bool.false_or,
      List.all_eq_true] at hregular
    simpa using hregular.2 own hmem

end Functions

variable (s s' r active) in
/-- What counts as names of a node on the two sides of a renaming. -/
def ScopeAlike (x x' : List CodeText × Node) : Prop :=
  r.Agrees active x.1 x'.1 ∧
    (x.2.alike s s' r active x'.2 ∨ active ∧ ∃ parent, x.2.writtenOut s s' r parent x'.2)

theorem scopes_alike (hkind : n.kind = n'.kind)
    (h : List.Forall₂ (AlikeChild s s' r act n.kind) n.children n'.children)
    (hact : ∀ part, act part = active ∨ part = some .name ∧
      (n.kind = .methodDefinition ∨ n.kind.isFunction ∧ active = true))
    (hregular : n.isRegular) (hregulars : ∀ c ∈ n.children, c.isRegular) :
    List.Forall₂ (ScopeAlike s s' r active) (s.scopes n) (s'.scopes n') := by
  have hother : ∀ part, part ≠ some .name → act part = active :=
    fun part hpart => (hact part).resolve_right fun h => hpart h.1
  have hpart {f : Field} (hf : f ≠ .name) (names names' : List CodeText) (hnames : r.Agrees active names names') :
      List.Forall₂ (ScopeAlike s s' r active) ((n.part f).map (names, ·)) ((n'.part f).map (names', ·)) := by
    have hpart := part_alike h f
    rw [hother _ (by simpa using hf)] at hpart
    exact forall₂_map hpart fun c c' hcc' => ⟨hnames, .inl hcc'⟩
  have hnone : r.Agrees active [] [] := fun _ _ => Iff.rfl
  unfold Source.scopes
  rw [← hkind]
  split
  · next hfun =>
    have hown : n.kind = .methodDefinition ∨ n.kind.hasOwnName := by
      rcases hfun with hf | hf
      · cases hk : n.kind <;> simp [hk, Kind.isFunction, Kind.hasOwnName] at hf ⊢
      · exact .inl hf
    have hnames := functionNames_agree h hother hregular hkind (fun hmethod hname => by
      rcases hact (some .name) with ha | ⟨-, ha⟩
      · rwa [ha] at hname
      · exact (ha.resolve_left hmethod).2) hown
    refine List.rel_append ?_ (hpart (by simp) _ _ hnames)
    exact forall₂_map (initials_alike h hother hregular) fun i i' hii' => ⟨hnone, .inl hii'⟩
  · next hfun =>
    split
    · refine List.rel_append ?_ (hpart (by simp) _ _ hnone)
      have hkeys := part_alike h .key
      rw [hother _ (by simp)] at hkeys
      have hcomputed := List.rel_filter (p := fun k => k.kind = .computedPropertyName)
        (q := fun k => k.kind = .computedPropertyName)
        (fun k k' hkk' => by simp only [(Node.alike_iff.mp hkk').1]) hkeys
      exact forall₂_map hcomputed fun k k' hkk' => ⟨hnone, .inl hkk'⟩
    · have hall : ∀ part, act part = active := fun part =>
        (hact part).resolve_right fun h => h.2.elim (fun hm => hfun (.inr hm)) fun hf => hfun (.inl hf.1)
      have hnames := scopeNames_agree hkind h hall hregulars
      refine forall₂_map (named_alike h) fun c c' hcc' => ⟨hnames, ?_⟩
      rcases hcc' with halike | ⟨hactive, hwritten⟩
      · exact .inl (by rwa [hall] at halike)
      · exact .inr ⟨by rwa [hall] at hactive, _, hwritten⟩

end Names

end ComponentDoc.Script
