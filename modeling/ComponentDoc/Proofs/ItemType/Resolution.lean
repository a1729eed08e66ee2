import ComponentDoc.Proofs.Declaration.Reading
import ComponentDoc.Proofs.ItemType.Expression
import ComponentDoc.Proofs.Script.Parse

namespace ComponentDoc

open Script

/-- A number with too many digits, or a string that escapes a code point beyond the last one. -/
def Script.Node.IsValueless (n : Node) (s : Source) : Prop :=
  n.kind = .number ∧ NumberLiteral.isTooLong (s.chars n) ∨
    (n.kind = .string ∨ n.kind = .templateString ∧ ∀ c ∈ n.children, c.kind ≠ .templateSubstitution) ∧
      Escape.HasBeyond (inner (s.chars n))

namespace ItemType

def magnitude? (s : Source) (n : Node) : Option Node :=
  (n.child? .argument).filter fun a =>
    a.kind = .number && [['+'], ['-']].contains ((n.child? .operator).elim [] s.chars)

/-- The expression whose value may show in an initial value: parentheses around it and a sign in front of it
are seen through. -/
def literal? (s : Source) (n : Node) : Option Node :=
  n.withoutParens.bind fun m => if m.kind = .unaryExpression then magnitude? s m else some m

section InitialValues

variable {s : Source} {n : Node} (hnumbers : ∀ m ∈ s.root.preorder, m.kind = .number → IsNumber (s.chars m))

theorem stringValue?_isOk_iff (hkind : n.kind = .string ∨ n.kind = .templateString) :
    (stringValue? s n).isOk ↔ ¬n.IsValueless s := by
  unfold stringValue? Node.IsValueless
  rcases hkind with hkind | hkind
  · rw [if_pos hkind, isOk_map, unescape_isOk_iff]
    simp [hkind]
  · rw [if_neg (by simp [hkind]), if_pos hkind]
    split
    · next hany =>
      obtain ⟨c, hc, hsubstitution⟩ : ∃ c ∈ n.children, c.kind = .templateSubstitution := by simpa using hany
      refine iff_of_true rfl ?_
      simp only [hkind, reduceCtorEq, false_and, false_or, true_and]
      exact fun hbeyond => hbeyond.1 c hc hsubstitution
    · next hany =>
      rw [isOk_map, unescape_isOk_iff]
      have hplain : ∀ c ∈ n.children, c.kind ≠ .templateSubstitution := by simpa using hany
      simp only [hkind, reduceCtorEq, false_and, false_or, true_and, and_iff_right hplain]

include hnumbers

theorem number_isOk_iff (hn : n ∈ s.root.preorder) (hkind : n.kind = .number) :
    (NumberLiteral.parse (s.chars n)).isOk ↔ ¬n.IsValueless s := by
  obtain ⟨hnumeral, hstray⟩ := hnumbers n hn hkind
  rw [hnumeral.parse_isOk_iff, Node.IsValueless]
  simp [hkind, hstray]

theorem ofUnary_isOk_iff (hn : n ∈ s.root.preorder) :
    (ofUnary s n).isOk ↔ ∀ m, magnitude? s n = some m → ¬m.IsValueless s := by
  unfold ofUnary magnitude?
  cases hargument : n.child? .argument with
  | none => exact iff_of_true rfl (by simp)
  | some argument =>
    have hmem := Node.child_mem_preorder hn (Node.mem_of_child? hargument)
    dsimp only
    split
    · next hsigned =>
      rw [isOk_map, number_isOk_iff hnumbers hmem hsigned.1]
      simp [hsigned]
    · next hsigned =>
      refine iff_of_true rfl fun m hm => ?_
      obtain ⟨rfl, hsign⟩ := Option.filter_eq_some_iff.mp hm |>.imp_left Option.some.inj
      exact absurd (by simpa using hsign) hsigned

theorem ofBare_isOk_iff (hn : n ∈ s.root.preorder) (hunary : n.kind ≠ .unaryExpression) :
    (ofBare s n).isOk ↔ ¬n.IsValueless s := by
  unfold ofBare
  cases hkind : n.kind
  case number => exact isOk_map.trans (number_isOk_iff hnumbers hn hkind)
  case string => exact isOk_map.trans (stringValue?_isOk_iff (.inl hkind))
  case templateString => exact isOk_map.trans (stringValue?_isOk_iff (.inr hkind))
  case unaryExpression => exact absurd hkind hunary
  all_goals exact iff_of_true rfl (by simp [Node.IsValueless, hkind])

theorem ofExpression_isOk_iff (hn : n ∈ s.root.preorder) :
    (ofExpression s n).isOk ↔ ∀ m, literal? s n = some m → ¬m.IsValueless s := by
  unfold ofExpression literal?
  cases hbare : n.withoutParens with
  | none => exact iff_of_true rfl nofun
  | some m =>
    have hm := Node.mem_preorder_trans hn (Node.mem_preorder_of_withoutParens hbare)
    dsimp only [Option.bind_some]
    by_cases hunary : m.kind = .unaryExpression
    · have hsigned : ofBare s m = ofUnary s m := by
        unfold ofBare
        rw [hunary]
      rw [hsigned, if_pos hunary, ofUnary_isOk_iff hnumbers hm]
    · rw [ofBare_isOk_iff hnumbers hm hunary, if_neg hunary]
      simp

omit hnumbers in
theorem resolve?_isOk_iff_both {annotated : Option String} {initial : Option Node} :
    (resolve? s annotated initial).isOk ↔
      (∀ text, annotated = some text → (TypeExpression.read (TypeExpression.levelsAt 0) text.toList).isOk) ∧
        ∀ n, initial = some n → (ofExpression s n).isOk := by
  cases annotated with
  | none =>
    cases initial with
    | none => exact iff_of_true rfl ⟨nofun, nofun⟩
    | some n => exact (isOk_map (f := combine none)).trans (by simp)
  | some text =>
    cases initial with
    | none => exact (isOk_map (f := fun t => combine t none)).trans (by simp)
    | some n =>
      simp only [Option.some.injEq, forall_eq']
      rw [isOk_iff (x := TypeExpression.read _ _), ← exists_and_right]
      refine isOk_bind.trans (exists_congr fun t => and_congr_right fun _ => ?_)
      exact isOk_map (f := combine t)

theorem resolve?_isOk_iff {annotated : Option String} {initial : Option Node}
    (hinitial : ∀ n, initial = some n → n ∈ s.root.preorder) :
    (resolve? s annotated initial).isOk ↔
      (∀ text, annotated = some text →
        ∀ t ∈ TypeExpression.singles (TypeExpression.levelsAt 0) text.toList, ¬TypeExpression.IsValueless t) ∧
      ∀ n, initial = some n → ∀ m, literal? s n = some m → ¬m.IsValueless s := by
  rw [resolve?_isOk_iff_both]
  refine and_congr ?_ ?_
  · exact forall₂_congr fun text _ => TypeExpression.read_isOk_iff _ _
  · exact forall₂_congr fun n hn => ofExpression_isOk_iff hnumbers (hinitial n hn)

end InitialValues

end ItemType

namespace Reading

theorem typeOf_isOk_iff {s : Source} {subject : CodeText} {annotated : Option String} {initial : Option Node}
    {p : Progress} :
    ((ExceptT.run (typeOf s subject annotated initial)).run p).1.isOk ↔
      (ItemType.resolve? s annotated initial).isOk := by
  constructor
  · intro h
    cases hresolve : ItemType.resolve? s annotated initial with
    | ok t => rfl
    | error e =>
      unfold typeOf at h
      rw [hresolve] at h
      obtain ⟨_, p', hrun, -⟩ := yields_noteAll _ p rfl
      rw [ExceptT.run_bind, StateT.run_bind, hrun] at h
      cases h
  · intro h
    obtain ⟨t, p', hrun, -⟩ := yields_typeOf h p rfl
    rw [hrun]
    rfl

/-- What is written as a number or in quotes has a value, and an item has a type, unless a code point beyond
the last one is escaped, there are no digits behind the mark of a base, or there are too many of them. A line
may end behind a number, but not behind the letter of a big integer. -/
theorem typeOf_resolves {s : Source} (hnumbers : ∀ m ∈ s.root.preorder, m.kind = .number → IsNumber (s.chars m))
    {annotated : Option String} {initial : Option Node} (hinitial : ∀ n, initial = some n → n ∈ s.root.preorder)
    (subject : CodeText) (p : Progress) :
    (((ExceptT.run (typeOf s subject annotated initial)).run p).1.isOk ↔
      (∀ written, annotated = some written →
        ∀ t ∈ TypeExpression.singles (TypeExpression.levelsAt 0) written.toList, ¬TypeExpression.IsValueless t) ∧
      ∀ n, initial = some n → ∀ m, ItemType.literal? s n = some m → ¬m.IsValueless s) ∧
    (∀ quoted body, TypeExpression.quotation? quoted = some body →
      ((unescape body).isOk ↔ ¬Escape.HasBeyond body)) ∧
    ∀ literal, NumberLiteral.isNumeral literal →
      ((NumberLiteral.parse literal).isOk ↔ NumberLiteral.lacksDigits literal = false ∧
        NumberLiteral.isTooLong literal = false ∧ NumberLiteral.hasStrayLetter literal = false) := by
  refine ⟨?_, fun _ body _ => unescape_isOk_iff body, fun _ => NumberLiteral.parse_isOk_iff⟩
  rw [typeOf_isOk_iff]
  exact ItemType.resolve?_isOk_iff hnumbers hinitial

theorem typeOf_resolves_string :
    let text := "let a = '\\u\x7b10FFFF\x7d', b = 0x1F;"
    let written := "(0x1F | 'b') | null"
    ∃ s n p, Script.parse text.toList 0 none = .ok s ∧
      (∀ m ∈ s.root.preorder, m.kind = .number → IsNumber (s.chars m)) ∧ n ∈ s.root.preorder ∧ n.kind = .string ∧
      ((ExceptT.run (typeOf s "a" (some written) (some n))).run p).1.isOk ∧
      TypeExpression.singles (TypeExpression.levelsAt 0) written.toList = ["0x1F", "'b'", "null"].map String.toList ∧
      (∀ t ∈ ["0x1F", "'b'", "null"].map String.toList, ¬TypeExpression.IsValueless t) ∧ ¬n.IsValueless s := by
  intro text written
  have hread : (Script.parse text.toList 0 none).toOption.any fun s =>
      (s.root.preorder.find? fun n => n.kind = .string).any fun n =>
        ((ExceptT.run (typeOf s "a" (some written) (some n))).run ⟨[], [], []⟩).1.isOk := by
    decide +kernel
  have hsingles : TypeExpression.singles (TypeExpression.levelsAt 0) written.toList =
      ["0x1F", "'b'", "null"].map String.toList := by
    decide +kernel
  obtain ⟨s, hs, hread⟩ := (Option.any_eq_true _ _).mp hread
  obtain ⟨n, hn, hok⟩ := (Option.any_eq_true _ _).mp hread
  have hkind : n.kind = .string := by simpa using List.find?_some hn
  have hself : ItemType.literal? s n = some n := by
    rw [ItemType.literal?, Node.withoutParens_eq_self (by simp [hkind]), Option.bind_some, if_neg (by simp [hkind])]
  have hparse : Script.parse text.toList 0 none = .ok s := by
    cases h : Script.parse text.toList 0 none <;> simp_all [Except.toOption]
  have hmem : n ∈ s.root.preorder := List.mem_of_find?_eq_some hn
  have hinitial : ∀ m, some n = some m → m ∈ s.root.preorder := fun m hm => Option.some.inj hm ▸ hmem
  have hnumbers := isNumber_of_parse hparse
  obtain ⟨hannotated, hvalue⟩ := (typeOf_resolves hnumbers hinitial "a" ⟨[], [], []⟩).1.mp hok
  rw [← hsingles]
  exact ⟨s, n, _, hparse, hnumbers, hmem, hkind, hok, rfl, hannotated written rfl, hvalue n rfl n hself⟩

/-- Only a low line stands behind the mark of a base, and a code point beyond the last one is escaped. -/
theorem typeOf_without_value :
    let text := "let a;"
    let escape := "\\u\x7b110000\x7d"
    NumberLiteral.isNumeral "0x_".toList ∧ (NumberLiteral.parse "0x_".toList).isOk = false ∧
      TypeExpression.quotation? ("'" ++ escape ++ "'").toList = some escape.toList ∧
      (unescape escape.toList).isOk = false ∧
      ∃ s, Script.parse text.toList 0 none = .ok s ∧ ∀ written ∈ ["0x_", "'" ++ escape ++ "'"],
        ((ExceptT.run (typeOf s "a" (some written) none)).run ⟨[], [], []⟩).1.isOk = false := by
  intro text escape
  have hread : (Script.parse text.toList 0 none).toOption.any fun s => ∀ written ∈ ["0x_", "'" ++ escape ++ "'"],
      ((ExceptT.run (typeOf s "a" (some written) none)).run ⟨[], [], []⟩).1.isOk = false := by
    decide +kernel
  obtain ⟨s, hs, hread⟩ := (Option.any_eq_true _ _).mp hread
  have hparse : Script.parse text.toList 0 none = .ok s := by
    cases h : Script.parse text.toList 0 none <;> simp_all [Except.toOption]
  refine ⟨?_, ?_, ?_, ?_, s, hparse, of_decide_eq_true hread⟩
  all_goals decide +kernel

end Reading

end ComponentDoc
