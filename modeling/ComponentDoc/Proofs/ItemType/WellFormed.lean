import ComponentDoc.Proofs.ItemType.Degradation
import ComponentDoc.Proofs.Script.Parse

namespace ComponentDoc

open Script

namespace ItemType

/-- A named type has its name as its text; the type of a literal has the name of the kind of its value, and has the
value; a union has two alternatives or more. -/
inductive WellFormed : ItemType → Prop
  | named {name : String} : name ≠ "" → WellFormed (.simple .named name name none)
  | const (v : Literal) : WellFormed (.simple .const v.typeName v.typeName (some v))
  | union {text : String} {alternatives : List ItemType} : 2 ≤ alternatives.length →
      (∀ t ∈ alternatives, WellFormed t) → WellFormed (.compound .union text alternatives none)

mutual

/-- The most unions that are met on a way from the type to a part of it that has no parts. -/
def unionDepth : ItemType → Nat
  | .simple kind _ _ _ => if kind = .union then 1 else 0
  | .compound kind _ alternatives _ => (if kind = .union then 1 else 0) + unionDepthAll alternatives

def unionDepthAll : List ItemType → Nat
  | [] => 0
  | t :: rest => max t.unionDepth (unionDepthAll rest)

end

theorem unionDepthAll_le_iff {ts : List ItemType} {levels : Nat} :
    unionDepthAll ts ≤ levels ↔ ∀ t ∈ ts, t.unionDepth ≤ levels := by
  induction ts with
  | nil => simp [unionDepthAll]
  | cons t ts ih => rw [unionDepthAll, Nat.max_le, ih, List.forall_mem_cons]

/-- The type is well formed, and no more than `levels` unions are nested in it. -/
structure FormedWithin (levels : Nat) (t : ItemType) : Prop where
  wellFormed : t.WellFormed
  unionDepth_le : t.unionDepth ≤ levels

variable {levels : Nat} {t : ItemType}

theorem FormedWithin.mono {more : Nat} (h : FormedWithin levels t) (hle : levels ≤ more) : FormedWithin more t :=
  { h with unionDepth_le := h.unionDepth_le.trans hle }

theorem formedWithin_named {name : String} (h : name ≠ "") : FormedWithin levels (.named name) :=
  ⟨.named h, Nat.zero_le _⟩

theorem formedWithin_any : FormedWithin levels .any := formedWithin_named (by decide)

theorem formedWithin_const (v : Literal) : FormedWithin levels (.const v) := ⟨.const v, Nat.zero_le _⟩

theorem formedWithin_union {text : String} {types : List ItemType} (hmany : 2 ≤ types.length)
    (h : ∀ t ∈ types, FormedWithin levels t) : FormedWithin (levels + 1) (.union text types) := by
  refine ⟨.union hmany fun t ht => (h t ht).wellFormed, ?_⟩
  have hdepth := unionDepthAll_le_iff.mpr fun t ht => (h t ht).unionDepth_le
  rw [unionDepth, if_pos rfl]
  omega

end ItemType

namespace TypeExpression

open ItemType

variable {levels : Nat} {text : List Char} {t : ItemType}

theorem formedWithin_readSingle (hne : text ≠ []) (h : readSingle text = .ok t) : FormedWithin levels t := by
  obtain ⟨found, -, hfound⟩ := bind_eq_ok.mp h
  cases found with
  | some v =>
    cases hfound
    exact formedWithin_const v
  | none =>
    cases hfound
    split
    · exact formedWithin_any
    · exact formedWithin_named (by simpa using hne)

theorem ne_nil_of_mem_alternatives {a : List Char} (h : a ∈ alternatives text) : a ≠ [] := by
  simpa using (List.mem_filter.mp h).2

theorem formedWithin_read (h : read levels text = .ok (some t)) : FormedWithin levels t := by
  induction levels generalizing text t with
  | zero =>
    by_cases hempty : normalize text = []
    · rw [read, if_pos hempty] at h
      cases h
    · rw [read_zero hempty] at h
      cases h
      exact formedWithin_any
  | succ levels ih =>
    by_cases hempty : normalize text = []
    · rw [read, if_pos hempty] at h
      cases h
    · rcases halternatives : alternatives (normalize text) with _ | ⟨first, _ | ⟨second, rest⟩⟩
      · rw [read, if_neg hempty] at h
        simp only [halternatives] at h
        cases h
      · rw [read_single hempty halternatives] at h
        split at h
        · exact (ih h).mono (Nat.le_succ levels)
        · obtain ⟨t', hread, ht⟩ := map_eq_ok.mp h
          cases ht
          exact formedWithin_readSingle (ne_nil_of_mem_alternatives (halternatives ▸ List.mem_cons_self)) hread
      · rw [read_many hempty halternatives] at h
        obtain ⟨types, hmap, ht⟩ := map_eq_ok.mp h
        cases ht
        obtain ⟨_, -, hsecond⟩ := getElem?_of_mapM hmap (i := 1) rfl
        refine formedWithin_union (List.getElem?_eq_some_iff.mp hsecond).1 fun t ht => ?_
        obtain ⟨a, ha, hread⟩ := (mem_mapM_iff hmap).mp ht
        obtain ⟨found, hfound, rfl⟩ := map_eq_ok.mp hread
        cases found with
        | none => exact formedWithin_any
        | some t => exact ih hfound

end TypeExpression

namespace ItemType

section InitialValues

variable {s : Source} {n : Node} {t : ItemType} {levels : Nat}
    (hnamed : ∀ m ∈ s.root.preorder, m.kind = .newExpression →
  ∀ c ∈ m.child? .constructed, c.kind = .identifier ∨ c.kind = .memberExpression → s.chars c ≠ [])

include hnamed

theorem formedWithin_ofBare (hn : n ∈ s.root.preorder) (h : ofBare s n = .ok (some t)) : FormedWithin levels t := by
  rcases ofBare_cases h with ⟨v, rfl⟩ | ⟨name, hname, rfl⟩ | ⟨hnew, hconstructed⟩
  · exact formedWithin_const v
  · have hne : ∀ name ∈ shownNames, name ≠ "" := by decide
    exact formedWithin_named (hne name hname)
  · unfold ofConstructed at hconstructed
    split at hconstructed
    · next c hc =>
      split at hconstructed
      · next hkind =>
        cases hconstructed
        have hne := hnamed n hn hnew c hc hkind
        exact formedWithin_named (by simpa [Source.textOf] using hne)
      · cases hconstructed
    · cases hconstructed

theorem formedWithin_ofExpression (hn : n ∈ s.root.preorder) (h : ofExpression s n = .ok (some t)) :
    FormedWithin levels t := by
  unfold ofExpression at h
  split at h
  · next m hm =>
    exact formedWithin_ofBare hnamed (Node.mem_preorder_trans hn (Node.mem_preorder_of_withoutParens hm)) h
  · cases h

omit hnamed in
theorem eq_of_combine {declared inferred : Option ItemType} (h : combine declared inferred = some t) :
    declared = some t ∨ inferred = some t := by
  unfold combine at h
  split at h
  · split at h
    · exact .inr h
    · exact .inl h
  · exact .inl h
  · exact .inr h

theorem formedWithin_resolve? {annotated : Option String} {initial : Option Node}
    (hinitial : ∀ n ∈ initial, n ∈ s.root.preorder) (h : resolve? s annotated initial = .ok (some t)) :
    FormedWithin (TypeExpression.maxDepth + 1) t := by
  obtain ⟨declared, inferred, hdeclared, hinferred, hagreed⟩ := eq_combine_of_resolve? h
  rcases eq_of_combine hagreed.symm with rfl | rfl
  · cases annotated with
    | none => cases hdeclared
    | some text => exact TypeExpression.formedWithin_read hdeclared
  · cases initial with
    | none => cases hinferred
    | some n => exact formedWithin_ofExpression hnamed (hinitial n rfl) hinferred

end InitialValues

end ItemType

namespace Reading

/-- The type of an item is well formed, and so is what is read of a text with some levels left. -/
theorem typeOf_formed {s : Source} (hnamed : ∀ m ∈ s.root.preorder, m.kind = .newExpression →
    ∀ c ∈ m.child? .constructed, c.kind = .identifier ∨ c.kind = .memberExpression → s.chars c ≠ []) :
    (∀ levels written t, TypeExpression.read levels written = .ok (some t) →
      t.WellFormed ∧ t.unionDepth ≤ levels) ∧
    ∀ annotated (initial : Option Node), (∀ n ∈ initial, n ∈ s.root.preorder) → ∀ subject p t p',
      (ExceptT.run (typeOf s subject annotated initial)).run p = (.ok t, p') →
        t.WellFormed ∧ t.unionDepth ≤ TypeExpression.maxDepth + 1 := by
  constructor
  · intro levels written t h
    obtain ⟨hformed, hdepth⟩ := TypeExpression.formedWithin_read h
    exact ⟨hformed, hdepth⟩
  · intro annotated initial hinitial subject p t p' hrun
    obtain ⟨hformed, hdepth⟩ : ItemType.FormedWithin (TypeExpression.maxDepth + 1) t := by
      rcases unresolved_typeOf hrun with ⟨hresolve, -⟩ | ⟨-, rfl, -⟩
      · exact ItemType.formedWithin_resolve? hnamed hinitial hresolve
      · exact ItemType.formedWithin_any
    exact ⟨hformed, hdepth⟩

/-- A member that constructs gives a name, and a union in an alternative may take both levels that are left. -/
theorem typeOf_formed_member :
    let text := "let a = new geo.Point();"
    let written := "(1 | 'b') | null"
    ∃ s n p' t u, Script.parse text.toList 0 none = .ok s ∧ n ∈ s.root.preorder ∧
      (∀ m ∈ s.root.preorder, m.kind = .newExpression → ∀ c ∈ m.child? .constructed,
        c.kind = .identifier ∨ c.kind = .memberExpression → s.chars c ≠ []) ∧
      (ExceptT.run (typeOf s "a" none (some n))).run ⟨[], [], []⟩ = (.ok t, p') ∧
      t.kind = .named ∧ t.name? = some "geo.Point" ∧ t.WellFormed ∧
      TypeExpression.read 2 written.toList = .ok (some u) ∧ u.WellFormed ∧ u.unionDepth ≤ 2 := by
  intro text written
  have hread : (Script.parse text.toList 0 none).toOption.any fun s =>
      (s.root.preorder.find? fun n => n.kind = .newExpression).any fun n =>
        ((ExceptT.run (typeOf s "a" none (some n))).run ⟨[], [], []⟩).1.toOption.any fun t =>
          t.kind = .named ∧ t.name? = some "geo.Point" := by
    decide +kernel
  have hwritten : (TypeExpression.read 2 written.toList).toOption.any fun u => u.isSome := by decide +kernel
  obtain ⟨s, hs, hread⟩ := exists_ok_of_any hread
  obtain ⟨n, hn, hread⟩ := (Option.any_eq_true _ _).mp hread
  have hinitial : ∀ m ∈ some n, m ∈ s.root.preorder := by
    rintro m ⟨⟩
    exact List.mem_of_find?_eq_some hn
  generalize hrun : (ExceptT.run (typeOf s "a" none (some n))).run ⟨[], [], []⟩ = after at hread
  obtain ⟨result, p'⟩ := after
  obtain ⟨t, rfl, hname⟩ := exists_ok_of_any hread
  obtain ⟨hkind, hname⟩ := of_decide_eq_true hname
  obtain ⟨found, hfound, hsome⟩ := exists_ok_of_any hwritten
  obtain ⟨u, rfl⟩ := Option.isSome_iff_exists.mp hsome
  have hnamed := constructed_of_parse hs
  obtain ⟨hreads, hitem⟩ := typeOf_formed hnamed
  exact ⟨s, n, p', t, u, hs, hinitial n rfl, hnamed, hrun, hkind, hname,
    (hitem none (some n) hinitial _ _ _ p' hrun).1, hfound, hreads 2 _ u hfound⟩

end Reading

end ComponentDoc
