import ComponentDoc.Proofs.Script.FreeNames
import ComponentDoc.Proofs.Script.Plain

/-!
The analysis of scopes where the binders are plain. Main statement: the free names that it finds are those of the uses
that no node around them binds, where loops keep the variables that they declare.
-/

namespace ComponentDoc.Script

namespace Source

variable {s : Source}

theorem freeUses_of_isBare {names : Node → List CodeText} {n : Node} (h : n.isBare) : s.freeUses names n = [] := by
  rw [List.eq_nil_iff_forall_not_mem]
  intro x hx
  obtain ⟨m, hm, href, -⟩ := exists_of_mem_freeUses hx
  exact absurd (Kind.isName_of_isReference href) (by simp [Node.isBare_iff.mp h m hm])

theorem mem_targetNames_of_mem_freeUses {names : Node → List CodeText} {p : Node} {x : CodeText} (hp : p.isTargets)
    (hx : x ∈ s.freeUses names p) : x ∈ p.targets.map s.nameOf := by
  rcases Node.isTargets_iff.mp hp with hbare | hpattern
  · simp [freeUses_of_isBare hbare] at hx
  · obtain ⟨m, hm, href, rfl⟩ := exists_of_mem_freeUses hx
    have hbound := Node.mem_targets_of_isPlain hpattern hm (Kind.isName_of_isReference href)
    exact List.mem_map_of_mem hbound

theorem bound_eq_targets_of_isTargets {p : Node} (h : p.isTargets) : p.bound = p.targets := by
  rcases Node.isTargets_iff.mp h with hbare | hpattern
  · rw [Node.bound_of_isBare hbare, Node.targets_of_isBare hbare]
  · exact Node.bound_eq_targets hpattern

theorem boundNames_eq {n : Node} {f : Field} (h : ∀ p ∈ n.part f, p.isTargets) :
    s.boundNames (n.child? f) = s.targetNames (n.part f) := by
  rw [targetNames, Node.part] at *
  cases hc : n.child? f with
  | none => rfl
  | some p => simp [boundNames, bound_eq_targets_of_isTargets (h p (by simp [hc]))]

theorem variableNames_eq {d : Node} {head : Bool} (hkind : d.kind = .lexicalDeclaration ∨ d.kind = .variableDeclaration)
    (h : d.isPlainIn head) : s.variableNames d = s.targetNames d.declaratorPatterns := by
  have hnamed : (d.named.filter fun v => v.kind = .variableDeclarator) =
      d.children.filter fun v => v.kind = .variableDeclarator := by
    rw [Node.named, List.filter_filter]
    refine List.filter_congr fun v _ => ?_
    cases hk : v.kind <;> rfl
  rw [variableNames, hnamed, Node.declaratorPatterns, targetNames, List.flatMap_assoc]
  refine List.flatMap_congr fun v hv => boundNames_eq fun p hp => ?_
  obtain ⟨hmem, hv⟩ := List.mem_filter.mp hv
  have hvk : v.kind = .variableDeclarator := by simpa using hv
  have hrole : d.kind.role v.field = .inside := by rcases hkind with hk | hk <;> simp [hk, Kind.role]
  have hplain : v.isPlain := Node.isPlain_of_role h hmem hrole (by simp [hvk, Kind.isOtherDeclaration])
  rw [Node.part, Option.mem_toList] at hp
  have hfield : p.field = some .name := by simpa using List.find?_some hp
  exact Node.isTargets_of_role hplain (Node.mem_of_child? hp) (by simp [hvk, hfield, Kind.role])

theorem statementNames_eq {c : Node} (h : c.isPlain) : s.statementNames c = s.blockNames c := by
  have hother := (Node.isPlainIn_iff.mp h).1
  unfold statementNames blockNames
  split
  · next hk => rw [hk, variableNames_eq (.inl hk) h]
  · next hk => simp [hk, Kind.mayStand, Kind.isOtherDeclaration] at hother
  · next hk => simp [hk, Kind.mayStand, Kind.isOtherDeclaration] at hother
  · next hk => simp [hk, Kind.mayStand, Kind.isOtherDeclaration] at hother
  · next hk => simp [hk, Kind.mayStand, Kind.isOtherDeclaration] at hother
  · split <;> simp_all [Kind.mayStand, Kind.isOtherDeclaration]

theorem headNames_eq {i : Node} (h : i.isPlainIn true) : (if i.kind.isVariables then s.variableNames i else []) =
    if i.kind = .variableDeclaration then s.targetNames i.declaratorPatterns else s.blockNames i := by
  have hstands := (Node.isPlainIn_iff.mp h).1
  unfold blockNames
  cases hk : i.kind <;> simp [hk, Kind.mayStand, Kind.isOtherDeclaration, Kind.isVariables] at hstands ⊢
  case lexicalDeclaration => exact variableNames_eq (.inl hk) h
  case variableDeclaration => exact variableNames_eq (.inr hk) h

theorem scopeNames_eq {n : Node} (h : n.IsOrderly) (hbare : ¬ n.isBare)
    (hfun : n.kind.opensFunction = false) : s.scopeNames n = s.ownNames n := by
  cases hbinds : n.kind.bindsInside with
  | false => rw [scopeNames_eq_nil hbinds, ownNames_eq_nil hbinds]
  | true =>
    obtain ⟨-, hadmits, hroles⟩ : n.kind.mayStand true ∧ n.kind.admits n.children ∧
        ∀ c ∈ n.children, (n.kind.role c.field).Holds c := by
      refine (h.cases hbare).resolve_right ?_
      cases hk : n.kind <;> simp [hk, Kind.bindsInside, Kind.targetPart?] at hbinds ⊢
    have hpart {f : Field} {p : Node} (hp : p ∈ n.part f) : (n.kind.role (some f)).Holds p := by
      obtain ⟨hmem, hfield⟩ := Node.mem_part hp
      exact hfield ▸ hroles p hmem
    cases hk : n.kind <;> simp [hk, Kind.bindsInside, Kind.opensFunction] at hbinds hfun
    case statementBlock =>
      simp only [scopeNames, ownNames, localNames, hk, Node.named, flatMap_filter]
      refine List.flatMap_congr fun c hc => ?_
      have hplain : c.isPlain := by simpa [hk, Kind.role, Role.Holds] using hroles c hc
      cases hnamed : c.kind.isNamed with
      | true => exact statementNames_eq hplain
      | false =>
        unfold blockNames
        cases hc : c.kind <;> simp [hc, Kind.isNamed, Kind.isToken] at hnamed ⊢
    case forStatement =>
      simp only [scopeNames, ownNames, hk, flatMap_filter]
      refine List.flatMap_congr fun i hi => headNames_eq ?_
      have hholds := hpart hi
      rwa [hk] at hholds
    case forInStatement =>
      have htargets : ∀ p ∈ n.part .left, p.isTargets := fun p hp => by
        have hholds := hpart hp
        rwa [hk] at hholds
      simp only [scopeNames, ownNames, hk, boundNames_eq htargets]
    case catchClause =>
      simp only [scopeNames, ownNames, localNames, hk]
      refine boundNames_eq fun p hp => ?_
      have hholds := hpart hp
      rwa [hk] at hholds
    all_goals simp [hk, Kind.admits] at hadmits

theorem freeNames_eq_children {n : Node} (h : n.IsOrderly) (hbare : ¬ n.isBare)
    (href : n.kind.isReference = false) (hfun : n.kind.opensFunction = false) (hpair : n.kind ≠ .pair)
    (ih : ∀ c ∈ n.children, s.freeNames [] c = s.freeUses s.ownNames c) :
    s.freeNames [] n = s.freeUses s.ownNames n := by
  have hscopes : s.scopes n = n.named.map (s.scopeNames n, ·) := by
    unfold scopes
    cases hk : n.kind <;> simp [hk, Kind.isFunction, Kind.opensFunction] at hfun hpair ⊢
  rw [freeNames_eq_scopes href, hscopes, List.flatMap_map, freeUses_eq href, Node.named, flatMap_filter]
  refine List.flatMap_congr fun c hc => ?_
  cases hnamed : c.kind.isNamed with
  | true => simp [ih c hc, scopeNames_eq h hbare hfun]
  | false =>
    have hbareChild : c.isBare := by
      by_contra hnot
      have hcases := (Node.isOrderly_of_mem h hc).cases hnot
      cases hk : c.kind <;>
        simp [hk, Kind.isNamed, Kind.isToken, Kind.admits, Kind.targetPart?] at hnamed hcases
    simp [freeUses_of_isBare hbareChild]

theorem freeNames_eq_pair {n : Node} (hkind : n.kind = .pair)
    (hparts : n.children.filterMap Node.field = [.key, .value])
    (hroles : ∀ c ∈ n.children, (n.kind.role c.field).Holds c)
    (ih : ∀ c ∈ n.children, s.freeNames [] c = s.freeUses s.ownNames c) :
    s.freeNames [] n = s.freeUses s.ownNames n := by
  have href : n.kind.isReference = false := by rw [hkind]; rfl
  have hlocal : s.ownNames n = [] := ownNames_eq_nil (by rw [hkind]; rfl)
  have hscopes : s.scopes n = ((n.part .key).filter fun k => k.kind = .computedPropertyName).map (([], ·)) ++
      (n.part .value).map (([], ·)) := by
    unfold scopes
    simp [hkind, Kind.isFunction]
  have hbare : ∀ c ∈ n.children, c.field = none → s.freeUses s.ownNames c = [] := by
    intro c hc hf
    have hholds := hroles c hc
    rw [hkind, hf] at hholds
    exact freeUses_of_isBare hholds
  have hkey : ∀ k ∈ n.part .key,
      (if k.kind = .computedPropertyName then s.freeNames [] k else []) = s.freeUses s.ownNames k := by
    intro k hk
    obtain ⟨hmem, hf⟩ := Node.mem_part hk
    have hholds := hroles k hmem
    rw [hkind, hf] at hholds
    rcases hholds with hbare | ⟨hcomputed, -⟩
    · simp [freeNames_of_isBare hbare, freeUses_of_isBare hbare]
    · rw [if_pos hcomputed, ih k hmem]
  rw [freeNames_eq_scopes href, freeUses_eq href, hscopes, hlocal]
  simp only [List.not_mem_nil, not_false_eq_true, decide_true, List.filter_true]
  rw [Node.flatMap_children (by rw [hparts]; decide) hbare, hparts]
  simp only [List.flatMap_append, List.flatMap_map, flatMap_filter, List.flatMap_cons, List.flatMap_nil,
    List.append_nil, decide_eq_true_eq, List.not_mem_nil, not_false_eq_true, decide_true,
    List.filter_true]
  congr 1
  · exact List.flatMap_congr hkey
  · exact List.flatMap_congr fun v hv => ih v (Node.mem_part hv).1

structure Fronts (n : Node) (front : List Field) : Prop where
  parts : n.children.filterMap Node.field = front ++ [.body]
  cases : front = [.parameter] ∨ front = [.parameters] ∨ front = [.name, .parameters]
  arrow : n.kind = .arrowFunction → .name ∉ front

theorem Fronts.nodup {n : Node} {front : List Field} (h : Fronts n front) :
    (n.children.filterMap Node.field).Nodup := by
  rcases h.cases with hf | hf | hf <;> rw [h.parts, hf] <;> decide

theorem Fronts.name_eq_nil {n : Node} {front : List Field} (h : Fronts n front)
    (hk : n.kind = .arrowFunction) : n.part .name = [] :=
  Node.part_eq_nil (by simp [h.parts, h.arrow hk])

theorem exists_fronts {n : Node} (hfun : n.kind.isFunction ∨ n.kind = .methodDefinition)
    (hadmits : n.kind.admits n.children) : ∃ front, Fronts n front := by
  cases hk : n.kind <;> simp [hk, Kind.isFunction] at hfun <;>
    simp only [hk, Kind.admits, List.mem_cons, List.not_mem_nil, or_false, Bool.and_eq_true,
      decide_eq_true_eq] at hadmits
  case methodDefinition => exact ⟨[.name, .parameters], hadmits.1, by decide, by simp [hk]⟩
  case arrowFunction =>
    rcases hadmits with hparts | hparts
    · exact ⟨[.parameter], hparts, by decide, fun _ => by decide⟩
    · exact ⟨[.parameters], hparts, by decide, fun _ => by decide⟩
  all_goals
    rcases hadmits with hparts | hparts
    · exact ⟨[.parameters], hparts, by decide, fun _ => by decide⟩
    · exact ⟨[.name, .parameters], hparts, by decide, by simp [hk]⟩

section Functions

variable {n : Node} (hfun : n.kind.isFunction ∨ n.kind = .methodDefinition)
  (hroles : ∀ c ∈ n.children, (n.kind.role c.field).Holds c)

include hfun hroles

theorem isParameter_of_part {c : Node} (hc : c ∈ n.part .parameter) : c.isParameter := by
  have hholds := hroles c (Node.mem_part hc).1
  rwa [(Node.mem_part hc).2, Kind.role_of_function hfun] at hholds

theorem isParameters_of_part {c : Node} (hc : c ∈ n.part .parameters) : c.isParameters := by
  have hholds := hroles c (Node.mem_part hc).1
  rwa [(Node.mem_part hc).2, Kind.role_of_function hfun] at hholds

theorem isParameter_of_mem_params {p : Node} (hp : p ∈ n.params) : p.isParameter := by
  unfold Node.params at hp
  split at hp
  · next q hq =>
    obtain rfl := List.mem_singleton.mp hp
    exact isParameter_of_part hfun hroles (Option.mem_toList.mpr hq)
  · split at hp
    · next ps hps =>
      have hmem := Node.mem_of_mem_named (List.mem_filter.mp hp).1
      exact Node.isParameter_of_mem (isParameters_of_part hfun hroles (Option.mem_toList.mpr hps)) hmem
    · simp at hp

theorem mem_targetNames_params {c : Node} {x : CodeText}
    (hc : c ∈ n.part .parameter ∨ n.part .parameter = [] ∧ c ∈ n.part .parameters)
    (hx : x ∈ s.freeUses s.ownNames c) : x ∈ s.targetNames n.params := by
  rcases hc with hc | ⟨hnone, hc⟩
  · have htargets := Node.isTargets_of_isParameter (isParameter_of_part hfun hroles hc)
    have hparams : n.params = [c] := by
      rw [Node.part, Option.mem_toList] at hc
      simp [Node.params, hc]
    rw [targetNames, hparams, List.flatMap_singleton]
    exact mem_targetNames_of_mem_freeUses htargets hx
  · have hlist := isParameters_of_part hfun hroles hc
    have hkind : c.kind = .formalParameters := by
      rw [Node.isParameters, Bool.and_eq_true, decide_eq_true_eq] at hlist
      exact hlist.1
    rw [freeUses_eq (by rw [hkind]; rfl), List.mem_flatMap] at hx
    obtain ⟨p, hp, hx⟩ := hx
    have hx := (List.mem_filter.mp hx).1
    have htargets := Node.isTargets_of_isParameter (Node.isParameter_of_mem hlist hp)
    have hparam : p ∈ n.params := by
      have hpattern := (Node.isTargets_iff.mp htargets).resolve_left
        fun hbare => by simp [freeUses_of_isBare hbare] at hx
      rw [Node.part, Option.mem_toList] at hc
      rw [Node.part, Option.toList_eq_nil_iff] at hnone
      simp only [Node.params, hnone, hc, List.mem_filter, Node.named, hp, true_and, decide_eq_true_eq]
      cases hpart : p.kind.targetPart? with
      | none =>
        rcases (Node.isPattern_of_not_part hpart hpattern).1 with hk | hk <;>
          simp [hk, Kind.isNamed, Kind.isToken]
      | some part => cases hk : p.kind <;> simp [hk, Kind.targetPart?, Kind.isNamed, Kind.isToken] at hpart ⊢
    exact List.mem_flatMap.mpr ⟨p, hparam, mem_targetNames_of_mem_freeUses htargets hx⟩

omit hroles in
theorem ownNames_of_function (harrow : n.kind = .arrowFunction → n.part .name = []) :
    s.ownNames n = s.targetNames n.params ++
      if n.kind = .methodDefinition then [] else (n.part .name).map s.nameOf := by
  unfold ownNames
  cases hk : n.kind <;> simp [hk, Kind.isFunction, Kind.bindsOwnName] at hfun harrow ⊢
  exact harrow

theorem functionNames_eq (harrow : n.kind = .arrowFunction → n.part .name = []) :
    s.functionNames n = s.ownNames n := by
  rw [ownNames_of_function hfun harrow, functionNames, targetNames]
  congr 1
  refine List.flatMap_congr fun p hp => ?_
  have htargets := Node.isTargets_of_isParameter (isParameter_of_mem_params hfun hroles hp)
  simp [boundNames, bound_eq_targets_of_isTargets htargets]

theorem freeNames_of_mem_initials {i : Node} (hi : i ∈ n.initials) : s.freeNames [] i = [] := by
  obtain ⟨p, hp, hi⟩ := List.mem_filterMap.mp hi
  have hparameter := isParameter_of_mem_params hfun hroles hp
  rw [Node.isParameter, hi, Bool.and_eq_true] at hparameter
  exact freeNames_of_isBare hparameter.2 []

/-- The name that a function has for itself is bound in it; that of a method is no name at all. -/
theorem mem_ownNames_of_name (hadmits : n.kind.admits n.children)
    (harrow : n.kind = .arrowFunction → n.part .name = []) {c : Node} (hc : c ∈ n.part .name) {x : CodeText}
    (hx : x ∈ s.freeUses s.ownNames c) : x ∈ s.ownNames n := by
  have hown := hroles c (Node.mem_part hc).1
  rw [(Node.mem_part hc).2, Kind.role_of_function hfun] at hown
  simp only [Role.Holds, Node.isOwnName, Bool.or_eq_true, Bool.and_eq_true, decide_eq_true_eq,
    List.isEmpty_iff] at hown
  have hname := hown.resolve_left fun hb => by simp [freeUses_of_isBare hb] at hx
  rw [freeUses_of_reference (by rw [hname.1]; rfl) hname.2, List.mem_singleton] at hx
  rw [ownNames_of_function hfun harrow, if_neg]
  · exact List.mem_append_right _ (hx ▸ List.mem_map_of_mem hc)
  · intro hk
    rw [hk, Kind.admits, Bool.and_eq_true, List.all_eq_true] at hadmits
    have hb := hadmits.2 c (Node.mem_part hc).1
    rw [(Node.mem_part hc).2] at hb
    exact Node.not_name_of_isBare (by simpa using hb) (.inl hname.1)

theorem mem_ownNames_of_front (hadmits : n.kind.admits n.children) {front : List Field}
    (hfront : Fronts n front) {f : Field} (hf : f ∈ front) {c : Node} (hc : c ∈ n.part f) {x : CodeText}
    (hx : x ∈ s.freeUses s.ownNames c) : x ∈ s.ownNames n := by
  have harrow := hfront.name_eq_nil
  have hparams (hc : c ∈ n.part .parameter ∨ n.part .parameter = [] ∧ c ∈ n.part .parameters) :
      x ∈ s.ownNames n := by
    rw [ownNames_of_function hfun harrow]
    exact List.mem_append_left _ (mem_targetNames_params hfun hroles hc hx)
  have hnone (h : .parameter ∉ front) : n.part .parameter = [] :=
    Node.part_eq_nil (by simp [hfront.parts, h])
  rcases hfront.cases with rfl | rfl | rfl
  · obtain rfl := List.mem_singleton.mp hf
    exact hparams (.inl hc)
  · obtain rfl := List.mem_singleton.mp hf
    exact hparams (.inr ⟨hnone (by decide), hc⟩)
  · simp only [List.mem_cons, List.not_mem_nil, or_false] at hf
    rcases hf with rfl | rfl
    · exact mem_ownNames_of_name hfun hroles hadmits harrow hc hx
    · exact hparams (.inr ⟨hnone (by decide), hc⟩)

theorem freeNames_eq_function (hadmits : n.kind.admits n.children)
    (ih : ∀ c ∈ n.children, s.freeNames [] c = s.freeUses s.ownNames c) :
    s.freeNames [] n = s.freeUses s.ownNames n := by
  have href : n.kind.isReference = false := by
    cases hk : n.kind <;> simp [hk, Kind.isFunction, Kind.isReference] at hfun ⊢
  obtain ⟨front, hfront⟩ := exists_fronts hfun hadmits
  have hnames := functionNames_eq (s := s) hfun hroles hfront.name_eq_nil
  have hscopes : s.scopes n =
      n.initials.map (([], ·)) ++ (n.part .body).map ((s.functionNames n, ·)) := by
    rw [scopes, if_pos hfun]
  have hinitials :
      (n.initials.flatMap fun i => (s.freeNames [] i).filter fun x => x ∉ ([] : List CodeText)) = [] :=
    List.flatMap_eq_nil_iff.mpr fun i hi => by simp [freeNames_of_mem_initials hfun hroles hi]
  have hbare : ∀ c ∈ n.children, c.field = none →
      ((s.freeUses s.ownNames c).filter fun x => x ∉ s.ownNames n) = [] := by
    intro c hc hf
    have hholds := hroles c hc
    rw [hf, Kind.role_of_function hfun] at hholds
    rw [freeUses_of_isBare hholds, List.filter_nil]
  have hbound : ∀ f ∈ front, ((n.part f).flatMap fun c =>
      (s.freeUses s.ownNames c).filter fun x => x ∉ s.ownNames n) = [] := by
    intro f hf
    rw [List.flatMap_eq_nil_iff]
    intro c hc
    rw [List.filter_eq_nil_iff]
    intro x hx
    rw [decide_eq_true_eq, not_not]
    exact mem_ownNames_of_front hfun hroles hadmits hfront hf hc hx
  rw [freeNames_eq_scopes href, hscopes, freeUses_eq href, Node.flatMap_children hfront.nodup hbare,
    hfront.parts]
  rw [List.flatMap_append, List.flatMap_append, List.flatMap_eq_nil_iff.mpr hbound, List.flatMap_map,
    List.flatMap_map, hnames, hinitials]
  simp only [List.nil_append, List.flatMap_singleton]
  exact List.flatMap_congr fun b hb => by rw [ih b (Node.mem_part hb).1]

end Functions

theorem freeNames_eq_freeUses_of_isOrderly {n : Node} (h : n.IsOrderly) :
    s.freeNames [] n = s.freeUses s.ownNames n := by
  induction n using Node.treeInduction with
  | node n ih =>
    have ih : ∀ c ∈ n.children, s.freeNames [] c = s.freeUses s.ownNames c :=
      fun c hc => ih c hc (Node.isOrderly_of_mem h hc)
    by_cases hbare : n.isBare
    · rw [freeNames_of_isBare hbare, freeUses_of_isBare hbare]
    have hcases := h.cases hbare
    cases href : n.kind.isReference with
    | true =>
      have hleaf : n.children = [] := by
        cases hk : n.kind <;>
          simp [hk, Kind.isReference, Kind.mayStand, Kind.isOtherDeclaration, Kind.admits, Kind.targetPart?]
            at href hcases
        · exact hcases.elim And.left id
        · exact hcases.1
      rw [freeNames_of_isReference href, freeUses_of_reference href hleaf]
      simp
    | false =>
      cases hfun : n.kind.opensFunction with
      | true =>
        obtain ⟨hother, hadmits, hroles⟩ := hcases.resolve_right (by
          cases hk : n.kind <;> simp [hk, Kind.opensFunction, Kind.targetPart?] at hfun ⊢)
        refine freeNames_eq_function ?_ hroles hadmits ih
        cases hk : n.kind <;>
          simp [hk, Kind.opensFunction, Kind.isFunction, Kind.mayStand, Kind.isOtherDeclaration] at hfun hother ⊢
      | false =>
        by_cases hpair : n.kind = .pair
        · obtain ⟨-, hadmits, hroles⟩ := hcases.resolve_right (by simp [hpair, Kind.targetPart?])
          rw [hpair] at hadmits
          exact freeNames_eq_pair hpair (by simpa [Kind.admits] using hadmits) hroles ih
        · exact freeNames_eq_children h hbare href hfun hpair ih

theorem freeNames_eq_freeUses {n : Node} (h : n.isPlain) : s.freeNames [] n = s.freeUses s.ownNames n :=
  freeNames_eq_freeUses_of_isOrderly (Node.isOrderly_of_isPlain h)

end Source

end ComponentDoc.Script
