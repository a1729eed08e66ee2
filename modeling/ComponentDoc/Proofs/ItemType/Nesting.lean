import ComponentDoc.ItemType.Expression
import Mathlib.Data.List.Basic

namespace ComponentDoc.TypeExpression

def brackets : List (Char × Char) := [('(', ')'), ('[', ']'), ('{', '}'), ('<', '>')]

def closerOf? (c : Char) : Option Char := brackets.lookup c

/-- What is still to be closed after the character `c`, the innermost bracket first. -/
def pendingAfter? (pending : List Char) (previous : Option Char) (c : Char) : Option (List Char) :=
  match closerOf? c with
  | some closer => some (closer :: pending)
  | none =>
    if isClosing c ∧ ¬(c = '>' ∧ previous = some '=') then
      if pending.head? = some c then some pending.tail else none
    else some pending

/-- What is still to be closed after a text; none if something is closed that is not open. -/
def stillOpen? (pending : List Char) (previous : Option Char) : List Char → Option (List Char)
  | [] => some pending
  | c :: rest => (pendingAfter? pending previous c).bind fun after => stillOpen? after (some c) rest

/-- Every bracket is closed by its like. -/
def IsNested (text : List Char) : Prop := stillOpen? [] none text = some []

instance (text : List Char) : Decidable (IsNested text) := inferInstanceAs (Decidable (_ = _))

variable {c opener closer : Char} {pending after base : List Char} {previous : Option Char}
  {text inner rest : List Char}

section Step

theorem mem_brackets (h : closerOf? opener = some closer) : (opener, closer) ∈ brackets := by
  obtain ⟨before, after, he, -⟩ := List.lookup_eq_some_iff.mp h
  rw [he]
  exact List.mem_append_cons_self

theorem isOpening_eq (c : Char) : isOpening c = (closerOf? c).isSome := by
  simp only [closerOf?, brackets, List.lookup_cons, List.lookup_nil, isOpening]
  repeat' split
  all_goals simp_all

theorem closerOf?_injective {a b : Char} (ha : closerOf? a = some closer) (hb : closerOf? b = some closer) : a = b := by
  have hunique : ∀ x ∈ brackets, ∀ y ∈ brackets, x.2 = y.2 → x.1 = y.1 := by decide
  exact hunique _ (mem_brackets ha) _ (mem_brackets hb) rfl

theorem isClosing_of_closerOf? (h : closerOf? opener = some closer) : isClosing closer ∧ closerOf? closer = none := by
  have hcloses : ∀ x ∈ brackets, isClosing x.2 ∧ closerOf? x.2 = none := by decide
  exact hcloses _ (mem_brackets h)

theorem pendingAfter?_cases (h : pendingAfter? pending previous c = some after) :
    (∃ closer, closerOf? c = some closer ∧ after = closer :: pending) ∨
      (closerOf? c = none ∧ isClosing c ∧ ¬(c = '>' ∧ previous = some '=') ∧ pending = c :: after) ∨
      (closerOf? c = none ∧ ¬(isClosing c ∧ ¬(c = '>' ∧ previous = some '=')) ∧ after = pending) := by
  unfold pendingAfter? at h
  split at h
  · next closer hcloser => exact .inl ⟨closer, hcloser, (Option.some.inj h).symm⟩
  · next hcloser =>
    split at h
    · next hcloses =>
      split at h
      · next hhead =>
        obtain ⟨tail, rfl⟩ := List.head?_eq_some_iff.mp hhead
        cases h
        exact .inr (.inl ⟨hcloser, hcloses.1, hcloses.2, rfl⟩)
      · cases h
    · next hcloses => exact .inr (.inr ⟨hcloser, hcloses, (Option.some.inj h).symm⟩)

theorem pendingAfter?_append (base : List Char) (h : pendingAfter? pending previous c = some after) :
    pendingAfter? (pending ++ base) previous c = some (after ++ base) := by
  rcases pendingAfter?_cases h with ⟨closer, hcloser, rfl⟩ | ⟨hcloser, hcloses, harrow, rfl⟩ | ⟨hcloser, hcloses, rfl⟩
  · simp [pendingAfter?, hcloser]
  · simp [pendingAfter?, hcloser, hcloses, harrow]
  · simp only [pendingAfter?, hcloser, if_neg hcloses]

theorem pendingAfter?_bar : pendingAfter? pending previous '|' = some pending := rfl

end Step

section StillOpen

theorem stillOpen?_cons_iff : stillOpen? pending previous (c :: text) = some after ↔
    ∃ next, pendingAfter? pending previous c = some next ∧ stillOpen? next (some c) text = some after :=
  Option.bind_eq_some_iff

theorem getLast?_cons_or : (c :: text).getLast?.or previous = text.getLast?.or (some c) := by
  cases hl : text.getLast? <;> simp [List.getLast?_cons, hl]

theorem stillOpen?_append_iff : stillOpen? pending previous (text ++ rest) = some after ↔
    ∃ next, stillOpen? pending previous text = some next ∧
      stillOpen? next (text.getLast?.or previous) rest = some after := by
  induction text generalizing pending previous with
  | nil => simp [stillOpen?]
  | cons c text ih =>
    simp only [List.cons_append, stillOpen?_cons_iff, ih, getLast?_cons_or]
    constructor
    · rintro ⟨next, hnext, last, hlast, hrest⟩
      exact ⟨last, ⟨next, hnext, hlast⟩, hrest⟩
    · rintro ⟨last, ⟨next, hnext, hlast⟩, hrest⟩
      exact ⟨next, hnext, last, hlast, hrest⟩

theorem stillOpen?_around (base : List Char) (h : stillOpen? pending previous text = some after) :
    stillOpen? (pending ++ base) previous text = some (after ++ base) := by
  induction text generalizing pending previous with
  | nil =>
    cases h
    rfl
  | cons c text ih =>
    obtain ⟨next, hnext, htext⟩ := stillOpen?_cons_iff.mp h
    exact stillOpen?_cons_iff.mpr ⟨next ++ base, pendingAfter?_append base hnext, ih htext⟩

theorem stillOpen?_previous {other : Option Char} (h : previous ≠ some '=') (h' : other ≠ some '=') :
    stillOpen? pending previous text = stillOpen? pending other text := by
  cases text with
  | nil => rfl
  | cons c text => simp [stillOpen?, pendingAfter?, h, h']

theorem IsNested.stillOpen (h : IsNested text) (hp : previous ≠ some '=') :
    stillOpen? pending previous text = some pending := by
  rw [stillOpen?_previous hp (by decide : none ≠ some '=')]
  exact stillOpen?_around pending h

theorem stillOpen?_outermost (h : stillOpen? (pending ++ [closer]) previous text = some []) :
    ∃ before rest, text = before ++ closer :: rest ∧ stillOpen? pending previous before = some [] := by
  induction text generalizing pending previous with
  | nil => simp [stillOpen?] at h
  | cons c text ih =>
    obtain ⟨next, hnext, htext⟩ := stillOpen?_cons_iff.mp h
    have hinside (inner : List Char) (hnext : next = inner ++ [closer])
        (hinner : pendingAfter? pending previous c = some inner) :
        ∃ before rest, c :: text = before ++ closer :: rest ∧ stillOpen? pending previous before = some [] := by
      subst hnext
      obtain ⟨before, rest, rfl, hbefore⟩ := ih htext
      exact ⟨c :: before, rest, rfl, stillOpen?_cons_iff.mpr ⟨inner, hinner, hbefore⟩⟩
    rcases pendingAfter?_cases hnext with ⟨mark, hmark, rfl⟩ | ⟨hmark, hcloses, harrow, hpop⟩ | ⟨hmark, hcloses, rfl⟩
    · exact hinside (mark :: pending) rfl (by simp [pendingAfter?, hmark])
    · cases pending with
      | nil =>
        obtain ⟨rfl, rfl⟩ := List.cons.inj hpop
        exact ⟨[], text, rfl, rfl⟩
      | cons d pending =>
        obtain ⟨rfl, rfl⟩ := List.cons.inj hpop
        exact hinside pending rfl (by simp [pendingAfter?, hmark, hcloses, harrow])
    · exact hinside pending rfl (by simp only [pendingAfter?, hmark, if_neg hcloses])

end StillOpen

section Wrapping

variable (hc : closerOf? opener = some closer)

include hc

theorem exists_enclosed (h : IsNested (opener :: text)) :
    ∃ inner rest, text = inner ++ closer :: rest ∧ IsNested inner := by
  obtain ⟨next, hnext, htext⟩ := stillOpen?_cons_iff.mp h
  obtain rfl : [closer] = next := by simpa [pendingAfter?, hc] using hnext
  replace htext : stillOpen? ([] ++ [closer]) (some opener) text = some [] := htext
  obtain ⟨inner, rest, he, hinner⟩ := stillOpen?_outermost htext
  refine ⟨inner, rest, he, ?_⟩
  have hopener : opener ≠ '=' := by
    rintro rfl
    exact absurd (mem_brackets hc) (by simp [brackets])
  rwa [IsNested, stillOpen?_previous (by decide) (by simpa using hopener : some opener ≠ some '=')]

variable (hgt : closer ≠ '>')

include hgt

theorem staysOpen_append (depth : Nat) (h : stillOpen? pending previous text = some after) :
    staysOpen opener closer (pending.count closer + depth + 1) (text ++ rest) =
      staysOpen opener closer (after.count closer + depth + 1) rest := by
  induction text generalizing pending previous with
  | nil =>
    cases h
    rfl
  | cons c text ih =>
    obtain ⟨next, hnext, htext⟩ := stillOpen?_cons_iff.mp h
    rw [← ih htext, List.cons_append, staysOpen]
    obtain ⟨hclosing, hnone⟩ := isClosing_of_closerOf? hc
    rcases pendingAfter?_cases hnext with ⟨mark, hmark, rfl⟩ | ⟨hmark, hcloses, harrow, rfl⟩ | ⟨hmark, hcloses, rfl⟩
    · by_cases hopener : c = opener
      · subst hopener
        obtain rfl : mark = closer := Option.some.inj (hmark.symm.trans hc)
        rw [if_pos rfl, List.count_cons_self]
        congr 1
        omega
      · have hmark' : mark ≠ closer := fun he => hopener (closerOf?_injective (he ▸ hmark) hc)
        have hcloser : c ≠ closer := by
          rintro rfl
          exact absurd (hnone.symm.trans hmark) (by simp)
        rw [if_neg hopener, if_neg hcloser, List.count_cons_of_ne hmark']
    · have hopener : c ≠ opener := by
        rintro rfl
        exact absurd (hmark.symm.trans hc) (by simp)
      rw [if_neg hopener]
      by_cases hcloser : c = closer
      · subst hcloser
        rw [if_pos rfl, List.count_cons_self]
        have hdepth : (next.count c + 1 + depth + 1 == 1) = false := by simp
        rw [hdepth, Bool.false_and, Bool.not_false, Bool.true_and]
        congr 1
        omega
      · rw [if_neg hcloser, List.count_cons_of_ne hcloser]
    · have hopener : c ≠ opener := by
        rintro rfl
        exact absurd (hmark.symm.trans hc) (by simp)
      have hcloser : c ≠ closer := by
        rintro rfl
        exact hcloses ⟨hclosing, fun harrow => hgt harrow.1⟩
      rw [if_neg hopener, if_neg hcloser]

theorem isWrapped_enclosed (h : IsNested inner) :
    isWrapped opener closer (opener :: inner ++ closer :: rest) = rest.isEmpty := by
  have hne : closer ≠ opener := by
    rintro rfl
    exact absurd ((isClosing_of_closerOf? hc).2.symm.trans hc) (by simp)
  have hopen : staysOpen opener closer 1 (inner ++ closer :: rest) = rest.isEmpty := by
    refine (staysOpen_append hc hgt 0 h).trans ?_
    cases rest <;> simp [staysOpen, hne]
  have hwrapped : isWrapped opener closer (opener :: inner ++ closer :: rest) =
      ((opener :: inner ++ closer :: rest).getLast? == some closer && rest.isEmpty) := by
    rw [isWrapped, List.cons_append, List.head?_cons, beq_self_eq_true, Bool.true_and, staysOpen, if_pos rfl, hopen]
  rw [hwrapped]
  cases rest with
  | nil => rw [List.getLast?_concat, beq_self_eq_true, Bool.true_and]
  | cons c rest => rw [List.isEmpty_cons, Bool.and_false]

theorem isWrapped_iff_of_nested (h : IsNested text) :
    isWrapped opener closer text = true ↔ ∃ inner, text = opener :: inner ++ [closer] ∧ IsNested inner := by
  constructor
  · intro hwrapped
    have hhead : text.head? = some opener := by simp_all [isWrapped]
    obtain ⟨tail, rfl⟩ := List.head?_eq_some_iff.mp hhead
    obtain ⟨inner, rest, rfl, hinner⟩ := exists_enclosed hc h
    obtain rfl := List.isEmpty_iff.mp ((isWrapped_enclosed hc hgt hinner).symm.trans hwrapped)
    exact ⟨inner, rfl, hinner⟩
  · rintro ⟨inner, rfl, hinner⟩
    exact isWrapped_enclosed hc hgt hinner

theorem isWrapped_append (h : IsNested text) (htext : text ≠ []) (hrest : rest ≠ []) :
    isWrapped opener closer (text ++ rest) = false := by
  obtain ⟨d, tail, rfl⟩ := List.exists_cons_of_ne_nil htext
  by_cases hd : d = opener
  · subst hd
    obtain ⟨inner, more, rfl, hinner⟩ := exists_enclosed hc h
    have hwrapped : isWrapped d closer (d :: inner ++ closer :: (more ++ rest)) = (more ++ rest).isEmpty :=
      isWrapped_enclosed hc hgt hinner
    rw [List.cons_append, List.append_assoc, List.cons_append]
    exact hwrapped.trans (by simp [hrest])
  · simp [isWrapped, hd]

end Wrapping

section Cutting

def BarsEnclosed (pending : List Char) (previous : Option Char) (text : List Char) : Prop :=
  ∀ before after, text = before ++ '|' :: after → stillOpen? pending previous before ≠ some []

theorem BarsEnclosed.step {next : List Char} (h : BarsEnclosed pending previous (c :: text))
    (hnext : pendingAfter? pending previous c = some next) :
    (c = '|' → pending ≠ []) ∧ BarsEnclosed next (some c) text := by
  constructor
  · rintro rfl rfl
    exact h [] text rfl rfl
  · rintro before after rfl hbefore
    exact h (c :: before) after rfl (stillOpen?_cons_iff.mpr ⟨next, hnext, hbefore⟩)

theorem next_eq {next : List Char} (hquote : isQuote c = false) (h : pendingAfter? pending previous c = some next) :
    SplitState.next ⟨pending.length, none, previous⟩ c = ⟨next.length, none, some c⟩ := by
  have hopening := isOpening_eq c
  rcases pendingAfter?_cases h with ⟨mark, hmark, rfl⟩ | ⟨hmark, hcloses, harrow, rfl⟩ | ⟨hmark, hcloses, rfl⟩
  · simp [SplitState.next, hquote, hopening, hmark]
  · simp [SplitState.next, hquote, hopening, hmark, hcloses, SplitState.isArrowHead, harrow]
  · have hno : (isClosing c && !(c == '>' && previous == some '=')) = false := by simpa using hcloses
    simp only [SplitState.next, hquote, hopening, hmark, SplitState.isArrowHead, hno]
    rfl

theorem cuts_eq (pending : List Char) :
    SplitState.cuts ⟨pending.length, none, previous⟩ (· == '|') c = (c == '|' && pending.isEmpty) := by
  by_cases hc : c = '|'
  · subst hc
    cases pending <;> simp [SplitState.cuts, isQuote, isOpening, isClosing]
  · have hbar : (c == '|') = false := by simpa using hc
    simp [SplitState.cuts, hbar]

theorem partsFrom_append (hquotes : ∀ c ∈ text, isQuote c = false)
    (h : stillOpen? pending previous text = some after) (hbars : BarsEnclosed pending previous text) :
    partsFrom (· == '|') ⟨pending.length, none, previous⟩ (text ++ rest) =
      text.foldr consPart (partsFrom (· == '|') ⟨after.length, none, text.getLast?.or previous⟩ rest) := by
  induction text generalizing pending previous with
  | nil =>
    cases h
    rfl
  | cons c text ih =>
    obtain ⟨next, hnext, htext⟩ := stillOpen?_cons_iff.mp h
    obtain ⟨hquote, hquotes⟩ := List.forall_mem_cons.mp hquotes
    obtain ⟨hbar, hbars⟩ := hbars.step hnext
    have hcut : (c == '|' && pending.isEmpty) = false := by simpa using hbar
    rw [List.cons_append, partsFrom, cuts_eq pending, hcut, next_eq hquote hnext, ih hquotes htext hbars,
      getLast?_cons_or]
    rfl

theorem foldr_consPart (part : List Char) (parts : List (List Char)) :
    text.foldr consPart (part :: parts) = (text ++ part) :: parts := by
  induction text with
  | nil => rfl
  | cons c text ih => rw [List.foldr_cons, ih]; rfl

structure IsPart (text : List Char) : Prop where
  noQuote : ∀ c ∈ text, isQuote c = false
  nested : IsNested text
  barsEnclosed : BarsEnclosed [] none text

theorem IsPart.partsFrom_append (h : IsPart text) (hp : previous ≠ some '=') (rest : List Char) :
    ∃ last, partsFrom (· == '|') ⟨0, none, previous⟩ (text ++ rest) =
      text.foldr consPart (partsFrom (· == '|') ⟨0, none, last⟩ rest) := by
  have hbars : BarsEnclosed [] previous text := by
    intro before after he hbefore
    rw [stillOpen?_previous hp (by decide : none ≠ some '=')] at hbefore
    exact h.barsEnclosed before after he hbefore
  exact ⟨_, TypeExpression.partsFrom_append h.noQuote (h.nested.stillOpen hp) hbars⟩

theorem partsFrom_intercalate {part : List Char} {parts : List (List Char)} (h : ∀ p ∈ part :: parts, IsPart p)
    (hp : previous ≠ some '=') :
    partsFrom (· == '|') ⟨0, none, previous⟩ (List.intercalate ['|'] (part :: parts)) = part :: parts := by
  induction parts generalizing part previous with
  | nil =>
    obtain ⟨last, he⟩ := (h part List.mem_cons_self).partsFrom_append hp []
    rw [List.intercalate_singleton, ← List.append_nil part, he, partsFrom, foldr_consPart, List.append_nil]
  | cons second parts ih =>
    obtain ⟨hpart, hparts⟩ := List.forall_mem_cons.mp h
    obtain ⟨last, he⟩ := hpart.partsFrom_append hp ('|' :: List.intercalate ['|'] (second :: parts))
    have hnext : SplitState.next ⟨0, none, last⟩ '|' = ⟨0, none, some '|'⟩ :=
      next_eq (by decide) (pendingAfter?_bar : pendingAfter? [] last '|' = some [])
    have hcut : SplitState.cuts ⟨0, none, last⟩ (· == '|') '|' = true := cuts_eq []
    rw [List.intercalate_cons_cons, List.append_assoc, List.singleton_append, he, partsFrom, hnext, hcut, if_pos rfl,
      ih hparts (by decide), foldr_consPart, List.append_nil]

theorem IsNested.bar (h : IsNested text) (hrest : IsNested rest) : IsNested (text ++ '|' :: rest) := by
  refine stillOpen?_append_iff.mpr ⟨[], h, ?_⟩
  exact stillOpen?_cons_iff.mpr ⟨[], pendingAfter?_bar, hrest.stillOpen (by decide)⟩

section Enclosed

variable (hc : closerOf? opener = some closer) (hgt : closer ≠ '>')

include hc

theorem ne_equals_of_closerOf? : some opener ≠ some '=' := by
  rintro ⟨rfl⟩
  exact absurd (mem_brackets hc) (by simp [brackets])

theorem pendingAfter?_opener : pendingAfter? pending previous opener = some (closer :: pending) := by
  simp [pendingAfter?, hc]

include hgt

theorem pendingAfter?_closer : pendingAfter? (closer :: pending) previous closer = some pending := by
  obtain ⟨hclosing, hnone⟩ := isClosing_of_closerOf? hc
  simp [pendingAfter?, hclosing, hnone, hgt]

theorem IsNested.enclosed (h : IsNested text) : IsNested (opener :: text ++ [closer]) := by
  refine stillOpen?_cons_iff.mpr ⟨[closer], pendingAfter?_opener hc, ?_⟩
  refine stillOpen?_append_iff.mpr ⟨[closer], h.stillOpen (ne_equals_of_closerOf? hc), ?_⟩
  exact stillOpen?_cons_iff.mpr ⟨[], pendingAfter?_closer hc hgt, rfl⟩

theorem isPart_enclosed (hquotes : ∀ c ∈ text, isQuote c = false) (h : IsNested text) :
    IsPart (opener :: text ++ [closer]) := by
  have hplain : ∀ x ∈ brackets, isQuote x.1 = false ∧ isQuote x.2 = false ∧ x.1 ≠ '|' ∧ x.2 ≠ '|' := by decide
  obtain ⟨hopener, hcloser, hbar, hbar'⟩ := hplain _ (mem_brackets hc)
  refine ⟨?_, h.enclosed hc hgt, ?_⟩
  · rw [List.cons_append, List.forall_mem_cons, List.forall_mem_append, List.forall_mem_singleton]
    exact ⟨hopener, hquotes, hcloser⟩
  · intro before after he hbefore
    cases before with
    | nil => exact hbar (List.cons.inj he).1
    | cons d before =>
      obtain ⟨rfl, htail⟩ := List.cons.inj he
      replace htail : text ++ [closer] = before ++ '|' :: after := htail
      obtain ⟨next, hnext, hbefore⟩ := stillOpen?_cons_iff.mp hbefore
      obtain rfl := Option.some.inj ((pendingAfter?_opener hc).symm.trans hnext)
      rcases List.eq_nil_or_concat after with rfl | ⟨after, last, rfl⟩
      · exact hbar' (List.cons.inj (List.append_inj' htail rfl).2).1
      · rw [List.concat_eq_append, ← List.cons_append, ← List.append_assoc] at htail
        obtain ⟨rfl, -⟩ := List.append_inj' htail rfl
        -- The bracket is open at the bar, since nothing in front of the bar closes it.
        have hinner : stillOpen? [] (some opener) (before ++ '|' :: after) = some [] :=
          h.stillOpen (ne_equals_of_closerOf? hc)
        obtain ⟨inner, hopen, -⟩ := stillOpen?_append_iff.mp hinner
        have hnil := (stillOpen?_around [closer] hopen).symm.trans hbefore
        simp at hnil

end Enclosed

end Cutting

end ComponentDoc.TypeExpression
