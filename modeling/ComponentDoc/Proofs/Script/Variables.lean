import ComponentDoc.Proofs.Script.FreeUses

/-!
Variables that loops declare for the function around them. Main statement: where such a variable is used in its loop
only, it makes no difference whether it is bound in the function or in the loop.
-/

namespace ComponentDoc.Script

theorem Node.mem_uses_iff {n : Node} {u : Use} : u ∈ n.uses ↔
    n.kind.isReference ∧ u = ⟨n, []⟩ ∨ ∃ c ∈ n.children, ∃ v ∈ c.uses, u = ⟨v.node, v.around ++ [n]⟩ := by
  have hchild (c : Node) : c.usesWithin [n] = c.uses.map fun v => ⟨v.node, v.around ++ [n]⟩ :=
    c.usesWithin_append [] [n]
  rw [uses, usesWithin_eq, List.mem_append, List.mem_flatMap]
  refine or_congr ?_ (exists_congr fun c => and_congr_right fun _ => ?_)
  · split <;> simp_all
  · simp only [hchild, List.mem_map, eq_comm]

theorem Node.mem_preorder_of_mem_around {n m : Node} {u : Use} (hu : u ∈ n.uses) (hm : m ∈ u.around) :
    m ∈ n.preorder := by
  induction n using treeInduction generalizing u with
  | node n ih =>
    rcases mem_uses_iff.mp hu with ⟨-, rfl⟩ | ⟨c, hc, v, hv, rfl⟩
    · exact absurd hm List.not_mem_nil
    · rcases List.mem_append.mp hm with hm | hm
      · exact mem_preorder_of_mem hc (ih c hc hv hm)
      · exact List.mem_singleton.mp hm ▸ n.self_mem_preorder

namespace Source

variable {s : Source} {e n m p : Node} {u : Use} {x : CodeText}

theorem mem_targetNames_iff {patterns : List Node} :
    x ∈ s.targetNames patterns ↔ ∃ p ∈ patterns, x ∈ p.targets.map s.nameOf := by
  rw [targetNames, List.mem_flatMap]

theorem mem_own_or_hoisted (h : x ∈ s.localNames m) : x ∈ s.ownNames m ∨ x ∈ s.hoistedNames m := by
  cases hk : m.kind
  case forStatement =>
    simp only [localNames, ownNames, hk, List.mem_flatMap] at h ⊢
    obtain ⟨i, hi, hx⟩ := h
    refine .inl ⟨i, hi, ?_⟩
    split
    · next hki => simp [blockNames, hki] at hx
    · exact hx
  case forInStatement =>
    simp only [localNames, ownNames, hk] at h ⊢
    split at h
    · next hbinder =>
      obtain ⟨b, hb, -⟩ := (Option.any_eq_true _ _).mp hbinder
      exact .inl (by rwa [if_pos (by simp [hb])])
    · exact absurd h List.not_mem_nil
  case arrowFunction | functionExpression | generatorFunction | methodDefinition =>
    simp only [localNames, ownNames, hoistedNames, hk] at h ⊢
    exact List.mem_append.mp h
  all_goals exact .inl (by simpa only [ownNames, hk] using h)

theorem mem_localNames_of_mem_hoistedNames (h : x ∈ s.hoistedNames m) : x ∈ s.localNames m := by
  unfold hoistedNames at h
  split at h
  · next hfun =>
    unfold localNames
    cases hk : m.kind <;> simp only [hk, Kind.opensFunction, Bool.false_eq_true] at hfun ⊢ <;>
      exact List.mem_append_right _ h
  · exact absurd h List.not_mem_nil

theorem mem_local_or_hoisted (h : x ∈ s.ownNames m) :
    x ∈ s.localNames m ∨ x ∈ s.targetNames m.hoisted := by
  cases hk : m.kind
  case forStatement =>
    simp only [localNames, ownNames, hk, List.mem_flatMap] at h ⊢
    obtain ⟨i, hi, hx⟩ := h
    split at hx
    · next hki =>
      have hown : i.hoisted = i.declaratorPatterns ++ i.children.flatMap Node.hoisted := by
        rw [Node.hoisted_eq, hki, if_neg (by simp [Kind.opensFunction]), Node.variablePatterns, hki]
      obtain ⟨p, hp, hx⟩ := mem_targetNames_iff.mp hx
      refine .inr (mem_targetNames_iff.mpr ⟨p, ?_, hx⟩)
      rw [Node.hoisted_eq, hk, if_neg (by simp [Kind.opensFunction]), List.mem_append, List.mem_flatMap]
      exact .inr ⟨i, (Node.mem_part hi).1, hown ▸ List.mem_append_left _ hp⟩
    · exact .inl ⟨i, hi, hx⟩
  case forInStatement =>
    simp only [localNames, ownNames, hk] at h ⊢
    split at h
    · next hbinder =>
      obtain ⟨b, hb⟩ := Option.isSome_iff_exists.mp hbinder
      by_cases hvar : b.kind = .varWord
      · have hpatterns : m.variablePatterns = m.part .left := by simp [Node.variablePatterns, hk, hb, hvar]
        obtain ⟨p, hp, hx⟩ := mem_targetNames_iff.mp h
        refine .inr (mem_targetNames_iff.mpr ⟨p, ?_, hx⟩)
        rw [Node.hoisted_eq, hk, if_neg (by simp [Kind.opensFunction]), hpatterns]
        exact List.mem_append_left _ hp
      · exact .inl (by rwa [if_pos (by simp [hb, hvar])])
    · exact absurd h List.not_mem_nil
  case arrowFunction | functionExpression | generatorFunction | methodDefinition =>
    simp only [localNames, ownNames, hk] at h ⊢
    exact .inl (List.mem_append_left _ h)
  all_goals exact .inl (by simpa only [ownNames, hk] using h)

theorem mem_body_of_mem_hoisted {c : Node} (h : n.IsOrderly) (hbare : ¬ n.isBare) (hfun : n.kind.opensFunction)
    (hc : c ∈ n.children) (hp : p ∈ c.hoisted) (htargets : p.targets ≠ []) : c ∈ n.part .body := by
  obtain ⟨hstands, hadmits, hroles⟩ := (h.cases hbare).resolve_right (by
    cases hk : n.kind <;> simp [hk, Kind.opensFunction, Kind.targetPart?] at hfun ⊢)
  have hfunction : n.kind.isFunction ∨ n.kind = .methodDefinition := by
    cases hk : n.kind <;>
      simp [hk, Kind.opensFunction, Kind.isFunction, Kind.mayStand, Kind.isOtherDeclaration] at hfun hstands ⊢
  obtain ⟨front, hfront⟩ := exists_fronts hfunction hadmits
  have hnone (hbinder : c.isTargets ∨ c.isParameters ∨ c.isOwnName) : False :=
    htargets (Node.targets_of_mem_hoisted hbinder hp)
  have hholds := hroles c hc
  rw [Kind.role_of_function hfunction] at hholds
  cases hfield : c.field with
  | none =>
    rw [hfield] at hholds
    exact (hnone (.inl (Node.isTargets_iff.mpr (.inl hholds)))).elim
  | some f =>
    have hmem : f ∈ front ++ [.body] := hfront.parts ▸ List.mem_filterMap.mpr ⟨c, hc, hfield⟩
    rw [hfield] at hholds
    by_cases hbody : f = .body
    · subst hbody
      exact Node.mem_part_of_nodup hfront.nodup hc hfield
    · have hfront' : f ∈ front := by simpa [hbody] using hmem
      refine (hnone ?_).elim
      rcases hfront.cases with rfl | rfl | rfl <;>
        simp only [List.mem_cons, List.not_mem_nil, or_false] at hfront'
      · subst hfront'
        exact .inl (Node.isTargets_of_isParameter hholds)
      · subst hfront'
        exact .inr (.inl hholds)
      · rcases hfront' with rfl | rfl
        · exact .inr (.inr hholds)
        · exact .inr (.inl hholds)

theorem hoisted_or_bound (h : e.IsOrderly) (hu : u ∈ e.uses) (hm : m ∈ u.around) (hp : p ∈ m.hoisted)
    (hx : x ∈ p.targets.map s.nameOf) : p ∈ e.hoisted ∨ ∃ f ∈ u.around, x ∈ s.hoistedNames f := by
  induction e using Node.treeInduction generalizing u with
  | node e ih =>
    rcases Node.mem_uses_iff.mp hu with ⟨-, rfl⟩ | ⟨c, hc, v, hv, rfl⟩
    · exact absurd hm List.not_mem_nil
    rcases List.mem_append.mp hm with hm | hm
    · rcases ih c hc (Node.isOrderly_of_mem h hc) hv hm with hp | ⟨f, hf, hx⟩
      · have hbare : ¬ e.isBare := by
          intro hbare
          have htargets := Node.targets_of_isBare (Node.isBare_of_mem_preorder hbare
            (Node.mem_preorder_of_mem hc (Node.mem_preorder_of_mem_hoisted hp)))
          simp [htargets] at hx
        cases hfun : e.kind.opensFunction with
        | true =>
          refine .inr ⟨e, by simp, ?_⟩
          have hbody := mem_body_of_mem_hoisted h hbare hfun hc hp fun hnil => by simp [hnil] at hx
          rw [hoistedNames, if_pos hfun]
          exact mem_targetNames_iff.mpr ⟨p, List.mem_flatMap.mpr ⟨c, hbody, hp⟩, hx⟩
        | false =>
          refine .inl ?_
          have hblock : e.kind ≠ .classStaticBlock := by
            intro hk
            have hcases := h.cases hbare
            simp [hk, Kind.admits, Kind.targetPart?] at hcases
          rw [Node.hoisted_eq, if_neg (by simp [hfun, hblock])]
          exact List.mem_append_right _ (List.mem_flatMap.mpr ⟨c, hc, hp⟩)
      · exact .inr ⟨f, List.mem_append_left _ hf, hx⟩
    · obtain rfl := List.mem_singleton.mp hm
      exact .inl hp

/-- What uses a variable of a loop stands in the loop, or in something else that binds its name. -/
def KeepsVariables (s : Source) (n : Node) : Prop :=
  ∀ u ∈ n.uses, ∀ f ∈ u.around, s.nameOf u.node ∈ s.hoistedNames f →
    ∃ m ∈ u.around, s.nameOf u.node ∈ s.ownNames m

instance (s : Source) (n : Node) : Decidable (s.KeepsVariables n) :=
  inferInstanceAs (Decidable (∀ u ∈ n.uses, ∀ f ∈ u.around, _ → _))

theorem isFree_iff_ownNames (h : e.isPlain) (hhoisted : e.hoisted = []) (hkeeps : s.KeepsVariables e)
    (hu : u ∈ e.uses) : s.IsFree u ↔ s.IsFreeFor s.ownNames u := by
  constructor
  · intro hfree m hm hx
    rcases mem_local_or_hoisted hx with hlocal | hvariable
    · exact hfree m hm hlocal
    · obtain ⟨p, hp, hx⟩ := mem_targetNames_iff.mp hvariable
      rcases hoisted_or_bound (Node.isOrderly_of_isPlain h) hu hm hp hx with hp | ⟨f, hf, hx⟩
      · exact absurd (hhoisted ▸ hp) List.not_mem_nil
      · exact hfree f hf (mem_localNames_of_mem_hoistedNames hx)
  · intro hfree m hm hx
    rcases mem_own_or_hoisted hx with hown | hvariable
    · exact hfree m hm hown
    · obtain ⟨k, hk, hown⟩ := hkeeps u hu m hm hvariable
      exact hfree k hk hown

theorem keepsVariables_of_forall (h : ∀ m ∈ n.preorder, m.variablePatterns = []) : s.KeepsVariables n := by
  intro u hu f hf hx
  have hnone : s.hoistedNames f = [] := by
    have hhoisted (c : Node) (hc : c ∈ n.preorder) : c.hoisted = [] := by
      induction c using Node.treeInduction with
      | node c ih =>
        rw [Node.hoisted_eq, h c hc, List.nil_append, ite_eq_left_iff]
        exact fun _ => List.flatMap_eq_nil_iff.mpr fun d hd => ih d hd (Node.child_mem_preorder hc hd)
    have hbody : (f.part .body).flatMap Node.hoisted = [] := List.flatMap_eq_nil_iff.mpr fun b hb =>
      hhoisted b (Node.child_mem_preorder (Node.mem_preorder_of_mem_around hu hf) (Node.mem_part hb).1)
    rw [hoistedNames, hbody, targetNames, List.flatMap_nil, ite_self]
  exact absurd (hnone ▸ hx) List.not_mem_nil

end Source

end ComponentDoc.Script
