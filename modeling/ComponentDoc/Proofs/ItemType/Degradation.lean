import ComponentDoc.Proofs.Declaration.Reading
import ComponentDoc.Proofs.ItemType.Printing
import ComponentDoc.Proofs.ItemType.Resolution
import ComponentDoc.Script.Parse

/-!
Types of which nothing is known. Main statement: an item whose type is such a type, or a union with one in it, is
recorded unless the type came about silently: from an expression that is nested too deeply, from an alternative that
says nothing, or from a constructor of that name.
-/

namespace ComponentDoc

open Script

namespace ItemType

/-- The type of which nothing is known, or a union in which it stands at any depth. -/
inductive HasAny : ItemType → Prop
  | here : HasAny .any
  | within {text : String} {types : List ItemType} {t : ItemType} : t ∈ types → HasAny t → HasAny (.union text types)

theorem hasAny_named_iff {name : String} : HasAny (.named name) ↔ name = "any" := by
  constructor
  · intro h
    cases h
    rfl
  · rintro rfl
    exact .here

inductive IsForm : ItemType → Prop
  | named (name : String) : IsForm (.named name)
  | const (v : Literal) : IsForm (.const v)
  | union (text : String) (types : List ItemType) : IsForm (.union text types)

theorem not_hasAny_const (v : Literal) : ¬HasAny (.const v) := nofun

theorem hasAny_union_iff {text : String} {types : List ItemType} :
    HasAny (.union text types) ↔ ∃ t ∈ types, HasAny t := by
  constructor
  · intro h
    cases h with
    | within hmem h => exact ⟨_, hmem, h⟩
  · rintro ⟨t, hmem, h⟩
    exact .within hmem h

end ItemType

namespace TypeExpression

open ItemType

/-- The text says nothing: there is nothing in it but bars, blanks, and brackets around all of it. -/
def isVacant : Nat → List Char → Bool
  | levels, text =>
    let text := normalize text
    if text = [] then true
    else
      match levels with
      | 0 => false
      | levels + 1 =>
        match alternatives text with
        | [] => true
        | [single] => isWrapped '(' ')' single && isVacant levels (unwrap single)
        | _ => false

def vacancies : Nat → List Char → List (List Char)
  | levels, text =>
    let text := normalize text
    if text = [] then []
    else
      match levels with
      | 0 => []
      | levels + 1 =>
        match alternatives text with
        | [] => []
        | [single] => if isWrapped '(' ')' single then vacancies levels (unwrap single) else []
        | many => many.flatMap fun a => if isVacant levels a then [a] else vacancies levels a

/-- In a union something is not looked at, or says nothing. -/
def Degrades (levels : Nat) (text : List Char) : Prop := unread levels text ≠ [] ∨ vacancies levels text ≠ []

variable {levels : Nat} {text single : List Char} {t : ItemType} {found : Option ItemType}

theorem literal?_of_isAny (h : isAny text) : literal? text = .ok none := by
  simp only [isAny, Bool.or_eq_true, decide_eq_true_eq] at h
  rcases h with (rfl | rfl) | rfl <;> rfl

theorem hasAny_readSingle_iff (h : readSingle text = .ok t) : HasAny t ↔ isAny text := by
  obtain ⟨found, hliteral, hfound⟩ := bind_eq_ok.mp h
  cases found with
  | some v =>
    cases hfound
    refine iff_of_false (not_hasAny_const v) fun hany => ?_
    rw [literal?_of_isAny hany] at hliteral
    cases hliteral
  | none =>
    cases hfound
    by_cases hany : isAny text
    · rw [if_pos hany]
      exact iff_of_true .here hany
    · rw [if_neg hany, hasAny_named_iff]
      refine iff_of_false (fun hname => hany ?_) hany
      have htext : text = "any".toList := by rw [← hname, String.toList_ofList]
      simp [isAny, htext]

structure IsRead (levels : Nat) (text : List Char) (found : Option ItemType) : Prop where
  eq_none_iff : found = none ↔ isVacant levels text
  hasAny_iff : (∃ t ∈ found, HasAny t) ↔ Degrades levels text ∨ ∃ e ∈ singles levels text, isAny e

theorem isRead_empty (h : normalize text = []) : IsRead levels text none := by
  constructor
  · cases levels <;> simp [isVacant, h]
  · cases levels <;> simp [Degrades, unread, vacancies, singles, h]

theorem isRead_blank (h : alternatives (normalize text) = []) : IsRead (levels + 1) text none := by
  constructor
  · simp [isVacant, h]
  · simp [Degrades, unread, vacancies, singles, h]

theorem isRead_unread (h : normalize text ≠ []) : IsRead 0 text (some .any) := by
  constructor
  · simp [isVacant, h]
  · simp [Degrades, unread, h, HasAny.here]

section Single

variable (h : normalize text ≠ []) (hsingle : alternatives (normalize text) = [single])

include h hsingle

theorem isRead_single (hwrapped : isWrapped '(' ')' single = false) (hread : readSingle single = .ok t) :
    IsRead (levels + 1) text (some t) := by
  constructor
  · simp [isVacant, h, hsingle, hwrapped]
  · simp [Degrades, unread, vacancies, singles, h, hsingle, hwrapped, hasAny_readSingle_iff hread]

theorem isRead_wrapped (hwrapped : isWrapped '(' ')' single) (hread : IsRead levels (unwrap single) found) :
    IsRead (levels + 1) text found := by
  obtain ⟨hnone, hany⟩ := hread
  constructor
  · rw [hnone]
    simp [isVacant, h, hsingle, hwrapped]
  · rw [hany]
    simp [Degrades, unread, vacancies, singles, h, hsingle, hwrapped]

end Single

section Union

variable {first second : List Char} {rest : List (List Char)} {types : List ItemType} (h : normalize text ≠ [])
  (hmany : alternatives (normalize text) = first :: second :: rest)

include h hmany

theorem singles_many : singles (levels + 1) text = (first :: second :: rest).flatMap (singles levels) := by
  rw [singles, if_neg h]
  simp only [hmany]

theorem unread_many (hread : ∀ a ∈ first :: second :: rest, (read levels a).isOk) :
    unread (levels + 1) text = (first :: second :: rest).flatMap (unread levels) := by
  have hall : (first :: second :: rest).takeWhile (fun a => (read levels a).isOk) = first :: second :: rest :=
    List.takeWhile_eq_self_iff.mpr hread
  rw [unread, if_neg h]
  simp only [hmany]
  rw [hall, List.take_of_length_le (Nat.le_succ _)]

theorem vacancies_many : vacancies (levels + 1) text =
    (first :: second :: rest).flatMap fun a => if isVacant levels a then [a] else vacancies levels a := by
  rw [vacancies, if_neg h]
  simp only [hmany]

theorem degrades_many_iff (hread : ∀ a ∈ first :: second :: rest, (read levels a).isOk) :
    Degrades (levels + 1) text ↔ ∃ a ∈ first :: second :: rest, isVacant levels a ∨ Degrades levels a := by
  rw [Degrades, unread_many h hmany hread, vacancies_many h hmany]
  simp only [ne_eq, List.flatMap_eq_nil_iff, not_forall, exists_prop, ← exists_or, ← and_or_left]
  refine exists_congr fun a => and_congr_right fun _ => ?_
  by_cases hvacant : isVacant levels a
  · simp [hvacant]
  · simp [hvacant, Degrades]

theorem isRead_many
    (hmap : ((first :: second :: rest).mapM fun a => (read levels a).map fun t => t.getD .any) = .ok types)
    (ih : ∀ a found, read levels a = .ok found → IsRead levels a found) :
    IsRead (levels + 1) text (some (.union (String.ofList (normalize text)) types)) := by
  have hok : ∀ a ∈ first :: second :: rest, (read levels a).isOk := by
    have hall : ((first :: second :: rest).mapM fun a => (read levels a).map fun t => t.getD .any).isOk := by
      rw [hmap]
      rfl
    intro a ha
    exact isOk_map.mp (isOk_mapM.mp hall a ha)
  -- An alternative that says nothing counts as the type of which nothing is known.
  have halternative : ∀ a ∈ first :: second :: rest,
      (∃ t, ((read levels a).map fun t => t.getD .any) = .ok t ∧ HasAny t) ↔
        (isVacant levels a ∨ Degrades levels a) ∨ ∃ e ∈ singles levels a, isAny e := by
    intro a ha
    obtain ⟨found, hfound⟩ := isOk_iff.mp (hok a ha)
    obtain ⟨hnone, hany⟩ := ih a found hfound
    rw [hfound, ← hnone, or_assoc, ← hany]
    cases found <;> simp [Except.map, HasAny.here]
  constructor
  · simp [isVacant, h, hmany]
  · have hunion : (∃ t ∈ some (ItemType.union (String.ofList (normalize text)) types), HasAny t) ↔
        ∃ a ∈ first :: second :: rest, ∃ t, ((read levels a).map fun t => t.getD .any) = .ok t ∧ HasAny t := by
      simp only [Option.mem_some_iff, exists_eq_left', hasAny_union_iff, mem_mapM_iff hmap]
      constructor
      · rintro ⟨t, ⟨a, ha, ht⟩, hany⟩
        exact ⟨a, ha, t, ht, hany⟩
      · rintro ⟨a, ha, t, ht, hany⟩
        exact ⟨t, ⟨a, ha, ht⟩, hany⟩
    rw [hunion, degrades_many_iff h hmany hok, singles_many h hmany]
    simp only [List.mem_flatMap]
    constructor
    · rintro ⟨a, ha, ht⟩
      rcases (halternative a ha).mp ht with hdegrades | ⟨e, he, hany⟩
      · exact .inl ⟨a, ha, hdegrades⟩
      · exact .inr ⟨e, ⟨a, ha, he⟩, hany⟩
    · rintro (⟨a, ha, hdegrades⟩ | ⟨e, ⟨a, ha, he⟩, hany⟩)
      · exact ⟨a, ha, (halternative a ha).mpr (.inl hdegrades)⟩
      · exact ⟨a, ha, (halternative a ha).mpr (.inr ⟨e, he, hany⟩)⟩

end Union

/-- A type is read from a text that says something, and it has a part of which nothing is known for one of three
reasons. -/
theorem isRead_of_read (h : read levels text = .ok found) : IsRead levels text found := by
  induction levels generalizing text found with
  | zero =>
    by_cases hempty : normalize text = []
    · rw [read, if_pos hempty] at h
      cases h
      exact isRead_empty hempty
    · rw [read_zero hempty] at h
      cases h
      exact isRead_unread hempty
  | succ levels ih =>
    by_cases hempty : normalize text = []
    · rw [read, if_pos hempty] at h
      cases h
      exact isRead_empty hempty
    · rcases halternatives : alternatives (normalize text) with _ | ⟨first, _ | ⟨second, rest⟩⟩
      · rw [read, if_neg hempty] at h
        simp only [halternatives] at h
        cases h
        exact isRead_blank halternatives
      · rw [read_single hempty halternatives] at h
        split at h
        · next hwrapped => exact isRead_wrapped hempty halternatives hwrapped (ih h)
        · next hwrapped =>
          obtain ⟨t, hread, rfl⟩ := map_eq_ok.mp h
          exact isRead_single hempty halternatives (Bool.eq_false_iff.mpr hwrapped) hread
      · rw [read_many hempty halternatives] at h
        obtain ⟨types, hmap, rfl⟩ := map_eq_ok.mp h
        exact isRead_many hempty halternatives hmap fun a found => ih

theorem isForm_read (h : read levels text = .ok (some t)) : IsForm t := by
  induction levels generalizing text t with
  | zero =>
    by_cases hempty : normalize text = []
    · rw [read, if_pos hempty] at h
      cases h
    · rw [read_zero hempty] at h
      cases h
      exact .named "any"
  | succ levels ih =>
    by_cases hempty : normalize text = []
    · rw [read, if_pos hempty] at h
      cases h
    · rcases halternatives : alternatives (normalize text) with _ | ⟨first, _ | ⟨second, rest⟩⟩
      · rw [read, if_neg hempty] at h
        simp only [halternatives] at h
        cases h
      · rw [read_single hempty halternatives] at h
        split at h
        · exact ih h
        · obtain ⟨t', hread, ht⟩ := map_eq_ok.mp h
          cases ht
          rcases readSingle_eq_ok hread with ⟨v, -, rfl⟩ | ⟨name, rfl⟩
          · exact .const v
          · exact .named name
      · rw [read_many hempty halternatives] at h
        obtain ⟨types, -, ht⟩ := map_eq_ok.mp h
        cases ht
        exact .union _ types

end TypeExpression

namespace ItemType

variable {s : Source} {n : Node} {t : ItemType} {found declared inferred : Option ItemType}

/-- What the node makes is made by a constructor whose name is that of the type of which nothing is known. -/
def MakesAny (s : Source) (n : Node) : Prop :=
  n.kind = .newExpression ∧
    ∃ c ∈ n.child? .constructed, (c.kind = .identifier ∨ c.kind = .memberExpression) ∧ s.textOf c = "any"

def shownNames : List String := ["boolean", "string", "undefined", "array", "object", "RegExp", "function"]

theorem ofUnary_cases (h : ofUnary s n = .ok (some t)) : (∃ v, t = .const v) ∨ t = .named "boolean" := by
  have hboolean {operator : List Char} (h : (if operator = ['!'] then some (.named "boolean") else none) = some t) :
      t = .named "boolean" := by
    split at h
    · exact (Option.some.inj h).symm
    · cases h
  unfold ofUnary at h
  dsimp only at h
  split at h
  · split at h
    · obtain ⟨v, -, hv⟩ := map_eq_ok.mp h
      exact .inl ⟨_, (Option.some.inj hv).symm⟩
    · exact .inr (hboolean (Except.ok.inj h))
  · exact .inr (hboolean (Except.ok.inj h))

theorem ofBare_cases (h : ofBare s n = .ok (some t)) :
    (∃ v, t = .const v) ∨ (∃ name ∈ shownNames, t = .named name) ∨
      n.kind = .newExpression ∧ ofConstructed s n = some t := by
  unfold ofBare at h
  cases hkind : n.kind
  all_goals rw [hkind] at h
  case newExpression => exact .inr (.inr ⟨rfl, Except.ok.inj h⟩)
  case unaryExpression => exact (ofUnary_cases h).imp_right fun ht => .inl ⟨"boolean", by decide, ht⟩
  case number =>
    obtain ⟨v, -, hv⟩ := map_eq_ok.mp h
    exact .inl ⟨_, (Option.some.inj hv).symm⟩
  case string | templateString =>
    obtain ⟨v, -, hv⟩ := map_eq_ok.mp h
    cases v with
    | none => exact .inr (.inl ⟨"string", by decide, (Option.some.inj hv).symm⟩)
    | some v => exact .inl ⟨_, (Option.some.inj hv).symm⟩
  all_goals cases h
  all_goals first
    | exact .inl ⟨_, rfl⟩
    | exact .inr (.inl ⟨_, by decide, rfl⟩)

theorem hasAny_ofConstructed_iff : (∃ t ∈ ofConstructed s n, HasAny t) ↔
    ∃ c ∈ n.child? .constructed, (c.kind = .identifier ∨ c.kind = .memberExpression) ∧ s.textOf c = "any" := by
  unfold ofConstructed
  cases n.child? .constructed with
  | none => simp
  | some c =>
    by_cases hkind : c.kind = .identifier ∨ c.kind = .memberExpression
    · simp [hkind, hasAny_named_iff]
    · simp [hkind]

theorem hasAny_ofBare_iff (h : ofBare s n = .ok found) : (∃ t ∈ found, HasAny t) ↔ MakesAny s n := by
  by_cases hnew : n.kind = .newExpression
  · have hfound : ofConstructed s n = found := by
      unfold ofBare at h
      rw [hnew] at h
      exact Except.ok.inj h
    rw [← hfound, hasAny_ofConstructed_iff, MakesAny, and_iff_right hnew]
  · refine iff_of_false ?_ fun hmakes => hnew hmakes.1
    rintro ⟨t, rfl, hany⟩
    rcases ofBare_cases h with ⟨v, rfl⟩ | ⟨name, hname, rfl⟩ | ⟨hkind, -⟩
    · exact not_hasAny_const v hany
    · obtain rfl := hasAny_named_iff.mp hany
      exact absurd hname (by decide)
    · exact hnew hkind

theorem hasAny_ofExpression_iff (h : ofExpression s n = .ok found) :
    (∃ t ∈ found, HasAny t) ↔ ∃ m ∈ n.withoutParens, MakesAny s m := by
  unfold ofExpression at h
  cases hbare : n.withoutParens with
  | none =>
    rw [hbare] at h
    cases h
    simp
  | some m =>
    rw [hbare] at h
    rw [hasAny_ofBare_iff h]
    simp

theorem isForm_ofBare (h : ofBare s n = .ok (some t)) : IsForm t := by
  rcases ofBare_cases h with ⟨v, rfl⟩ | ⟨name, -, rfl⟩ | ⟨-, hconstructed⟩
  · exact .const v
  · exact .named name
  · unfold ofConstructed at hconstructed
    split at hconstructed
    · split at hconstructed
      · cases hconstructed
        exact .named _
      · cases hconstructed
    · cases hconstructed

theorem isForm_ofExpression (h : ofExpression s n = .ok (some t)) : IsForm t := by
  unfold ofExpression at h
  split at h
  · exact isForm_ofBare h
  · cases h

theorem hasAny_combine_iff (hdeclared : ∀ t ∈ declared, IsForm t) (hinferred : ∀ t ∈ inferred, IsForm t) :
    (∃ t ∈ combine declared inferred, HasAny t) ↔
      (∃ t ∈ declared, HasAny t) ∨ declared = none ∧ ∃ t ∈ inferred, HasAny t := by
  unfold combine
  split
  · next d i =>
    split
    · next hagree =>
      obtain ⟨hconst, hnamed, hname⟩ := hagree
      cases hinferred i rfl with
      | named | union => cases hconst
      | const v =>
        cases hdeclared d rfl with
        | const | union => cases hnamed
        | named name =>
          have hany : v.typeName ≠ "any" := by cases v <;> simp [Literal.typeName]
          obtain rfl : name = v.typeName := Option.some.inj hname
          simp [hasAny_named_iff, not_hasAny_const, hany]
    · simp
  · simp
  · simp

/-- Something is written, but it does not tell the type or a part of it, and nothing is recorded: an expression is
nested too deeply, an alternative says nothing, or the constructor of what is made has the name of the type of which
nothing is known. -/
def DegradesSilently (s : Source) (annotated : Option String) (initial : Option Node) : Prop :=
  (∃ text ∈ annotated, TypeExpression.Degrades (TypeExpression.levelsAt 0) text.toList) ∨
    (∀ text ∈ annotated, TypeExpression.isVacant (TypeExpression.levelsAt 0) text.toList) ∧
      ∃ n ∈ initial, ∃ m ∈ n.withoutParens, MakesAny s m

/-- No alternative that is looked at is written as the type of which nothing is known. -/
def WritesNoAny (annotated : Option String) : Prop :=
  ∀ text ∈ annotated, ∀ e ∈ TypeExpression.singles (TypeExpression.levelsAt 0) text.toList,
    TypeExpression.isAny e = false

variable {annotated : Option String} {initial : Option Node}

theorem eq_combine_of_resolve? (h : resolve? s annotated initial = .ok found) : ∃ declared inferred,
    annotated.elim (.ok none) (fun text => TypeExpression.read (TypeExpression.levelsAt 0) text.toList) = .ok declared ∧
      initial.elim (.ok none) (ofExpression s) = .ok inferred ∧ found = combine declared inferred := by
  cases annotated <;> cases initial
  all_goals
    obtain ⟨declared, hdeclared, h⟩ := bind_eq_ok.mp h
    obtain ⟨inferred, hinferred, h⟩ := bind_eq_ok.mp h
    cases h
    exact ⟨declared, inferred, hdeclared, hinferred, rfl⟩

theorem hasAny_resolve?_iff (h : resolve? s annotated initial = .ok found) (hwritten : WritesNoAny annotated) :
    (∃ t ∈ found, HasAny t) ↔ DegradesSilently s annotated initial := by
  obtain ⟨declared, inferred, hdeclared, hinferred, rfl⟩ := eq_combine_of_resolve? h
  have hannotated : ((∃ t ∈ declared, HasAny t) ↔
        ∃ text ∈ annotated, TypeExpression.Degrades (TypeExpression.levelsAt 0) text.toList) ∧
      (declared = none ↔ ∀ text ∈ annotated, TypeExpression.isVacant (TypeExpression.levelsAt 0) text.toList) := by
    cases annotated with
    | none =>
      cases hdeclared
      simp
    | some text =>
      obtain ⟨hnone, hany⟩ := TypeExpression.isRead_of_read hdeclared
      have hnot : ¬∃ e ∈ TypeExpression.singles (TypeExpression.levelsAt 0) text.toList, TypeExpression.isAny e := by
        rintro ⟨e, he, h⟩
        exact absurd h (Bool.eq_false_iff.mp (hwritten text rfl e he))
      rw [hany, hnone, or_iff_left hnot]
      simp
  have hinitial : (∃ t ∈ inferred, HasAny t) ↔ ∃ n ∈ initial, ∃ m ∈ n.withoutParens, MakesAny s m := by
    cases initial with
    | none =>
      cases hinferred
      simp
    | some n =>
      rw [hasAny_ofExpression_iff hinferred]
      simp
  have hforms : (∀ t ∈ declared, IsForm t) ∧ ∀ t ∈ inferred, IsForm t := by
    constructor
    · rintro t rfl
      cases annotated with
      | none => cases hdeclared
      | some text => exact TypeExpression.isForm_read hdeclared
    · rintro t rfl
      cases initial with
      | none => cases hinferred
      | some n => exact isForm_ofExpression hinferred
  rw [hasAny_combine_iff hforms.1 hforms.2, hannotated.1, hannotated.2, hinitial, DegradesSilently]

end ItemType

namespace Reading

variable {s : Source} {subject : CodeText} {annotated : Option String} {initial : Option Node} {p p' : Progress}
  {t : ItemType}

theorem run_noteAll (ns : List Notice) (p : Progress) :
    (ExceptT.run (noteAll ns)).run p = (.ok (), { p with notices := p.notices ++ ns }) := by
  induction ns generalizing p with
  | nil =>
    rw [List.append_nil]
    rfl
  | cons n ns ih =>
    refine (ih { p with notices := p.notices ++ [n] }).trans ?_
    rw [List.append_assoc]
    rfl

theorem unresolved_typeOf (hrun : (ExceptT.run (typeOf s subject annotated initial)).run p = (.ok t, p')) :
    (ItemType.resolve? s annotated initial = .ok (some t) ∧ p'.unresolved = p.unresolved) ∨
      (ItemType.resolve? s annotated initial = .ok none ∧ t = .any ∧
        p'.unresolved = p.unresolved ++ [⟨subject, (initial.map s.textOf).or annotated⟩]) := by
  unfold typeOf at hrun
  rw [ExceptT.run_bind, StateT.run_bind, run_noteAll] at hrun
  cases hresolve : ItemType.resolve? s annotated initial with
  | error e =>
    rw [hresolve] at hrun
    cases hrun
  | ok found =>
    rw [hresolve] at hrun
    cases found with
    | some t' =>
      cases hrun
      exact .inl ⟨rfl, rfl⟩
    | none =>
      cases hrun
      exact .inr ⟨rfl, rfl, rfl⟩

theorem typeOf_of_degradesSilently (hwritten : ItemType.WritesNoAny annotated)
    (hsilent : ItemType.DegradesSilently s annotated initial)
    (hrun : (ExceptT.run (typeOf s subject annotated initial)).run p = (.ok t, p')) :
    t.HasAny ∧ p'.unresolved = p.unresolved := by
  rcases unresolved_typeOf hrun with ⟨hresolve, hsame⟩ | ⟨hresolve, -, -⟩
  · obtain ⟨u, hu, hany⟩ := (ItemType.hasAny_resolve?_iff hresolve hwritten).mpr hsilent
    exact ⟨Option.some.inj hu ▸ hany, hsame⟩
  · obtain ⟨u, hu, -⟩ := (ItemType.hasAny_resolve?_iff hresolve hwritten).mpr hsilent
    cases hu

/-- One item is recorded or none. Where the type has a part of which nothing is known the item is recorded, or else
the type came about silently, and never both; where it has none nothing is recorded. -/
theorem typeOf_records (hwritten : ItemType.WritesNoAny annotated)
    (hrun : (ExceptT.run (typeOf s subject annotated initial)).run p = (.ok t, p')) :
    ∃ recorded, p'.unresolved = p.unresolved ++ recorded ∧
      (recorded = [] ∨ recorded = [⟨subject, (initial.map s.textOf).or annotated⟩]) ∧
      (t.HasAny ↔ recorded ≠ [] ∨ ItemType.DegradesSilently s annotated initial) ∧
      (ItemType.DegradesSilently s annotated initial → recorded = []) := by
  have hsilent := fun hsilent => (typeOf_of_degradesSilently hwritten hsilent hrun).2
  rcases unresolved_typeOf hrun with ⟨hresolve, hsame⟩ | ⟨-, rfl, hadded⟩
  · have hany := ItemType.hasAny_resolve?_iff hresolve hwritten
    refine ⟨[], ?_, .inl rfl, ?_, fun _ => rfl⟩
    · rw [hsame, List.append_nil]
    · simpa using hany
  · refine ⟨_, hadded, .inr rfl, ?_, fun h => ?_⟩
    · exact iff_of_true .here (.inl (List.cons_ne_nil _ _))
    · have hsame := hadded.symm.trans (hsilent h)
      simp at hsame

/-- Nothing is said by braces with nothing between them, nor by a call. -/
theorem typeOf_records_call :
    let text := "let a = f();"
    let written := "\x7b\x7d"
    ∃ s n t p', Script.parse text.toList 0 none = .ok s ∧ n ∈ s.root.preorder ∧ n.kind = .callExpression ∧
      ItemType.WritesNoAny (some written) ∧
      (ExceptT.run (typeOf s "a" (some written) (some n))).run ⟨[], [], []⟩ = (.ok t, p') ∧
      p'.unresolved = [⟨"a", some "f()"⟩] ∧ t.HasAny ∧ ¬ItemType.DegradesSilently s (some written) (some n) := by
  intro text written
  have hread : (Script.parse text.toList 0 none).toOption.any fun s =>
      (s.root.preorder.find? fun n => n.kind = .callExpression).any fun n =>
        let after := (ExceptT.run (typeOf s "a" (some written) (some n))).run ⟨[], [], []⟩
        after.1.isOk && decide (after.2.unresolved = [⟨"a", some "f()"⟩]) := by
    decide +kernel
  obtain ⟨s, hs, hread⟩ := exists_ok_of_any hread
  obtain ⟨n, hn, hread⟩ := (Option.any_eq_true _ _).mp hread
  obtain ⟨hok, hunresolved⟩ := Bool.and_eq_true_iff.mp hread
  have hkind : n.kind = .callExpression := by simpa using List.find?_some hn
  have hwritten : ItemType.WritesNoAny (some written) := by
    rintro text ⟨⟩
    decide +kernel
  generalize hrun : (ExceptT.run (typeOf s "a" (some written) (some n))).run ⟨[], [], []⟩ = after at hok hunresolved
  obtain ⟨result, p'⟩ := after
  obtain ⟨t, rfl⟩ := isOk_iff.mp hok
  have hunresolved := of_decide_eq_true hunresolved
  obtain ⟨recorded, hrecorded, -, hany, hsilent⟩ := typeOf_records hwritten hrun
  have hne : recorded ≠ [] := by
    rintro rfl
    rw [hunresolved] at hrecorded
    cases hrecorded
  exact ⟨s, n, t, p', hs, List.mem_of_find?_eq_some hn, hkind, hwritten, hrun, hunresolved, hany.mpr (.inl hne),
    fun h => hne (hsilent h)⟩

/-- Parentheses around parentheses are not looked at, and that is not recorded. -/
theorem typeOf_silent :
    let written := "(((((string)))))"
    ∃ s t p', Script.parse "let a;".toList 0 none = .ok s ∧ ItemType.WritesNoAny (some written) ∧
      (ExceptT.run (typeOf s "a" (some written) none)).run ⟨[], [], []⟩ = (.ok t, p') ∧ t.HasAny ∧
      p'.unresolved = [] := by
  intro written
  have hread : (Script.parse "let a;".toList 0 none).toOption.any fun s =>
      ((ExceptT.run (typeOf s "a" (some written) none)).run ⟨[], [], []⟩).1.isOk := by
    decide +kernel
  have hwritten : ItemType.WritesNoAny (some written) := by
    rintro text ⟨⟩
    decide +kernel
  have hunread : TypeExpression.unread (TypeExpression.levelsAt 0) written.toList ≠ [] := by
    decide +kernel
  obtain ⟨s, hs, hok⟩ := exists_ok_of_any hread
  have hsilent : ItemType.DegradesSilently s (some written) none := .inl ⟨written, rfl, .inl hunread⟩
  generalize hrun : (ExceptT.run (typeOf s "a" (some written) none)).run ⟨[], [], []⟩ = after at hok
  obtain ⟨result, p'⟩ := after
  obtain ⟨t, rfl⟩ := isOk_iff.mp hok
  obtain ⟨hany, hsame⟩ := typeOf_of_degradesSilently hwritten hsilent hrun
  exact ⟨s, t, p', hs, hwritten, hrun, hany, hsame⟩

end Reading

end ComponentDoc
