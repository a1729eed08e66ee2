import ComponentDoc.Proofs.ItemType.LiteralUnions

/-!
Literals that run into the next one, since their value ends in a backslash and hides the quote behind it. Main
statement: string literals in brackets are read as the union of their values exactly if no value but the last
ends in a backslash and the brackets in the values close only what they have opened.
-/

namespace ComponentDoc.TypeExpression

open Text

variable {quote opener closer : Char} {front : List (List Char)} {hidden rest : List Char}

def spilled (quote : Char) (hidden rest : List Char) : List (List Char) → List Char
  | [] => quoted quote hidden ++ '|' :: quote :: rest
  | v :: front => quoted quote v ++ '|' :: spilled quote hidden rest front

/-- A result that is neither the type of the first value nor a union of all of them. -/
structure Loses (values : List (List Char)) (result : Except LiteralError (Option ItemType)) : Prop where
  notFirst : ∀ v ∈ values.head?, result ≠ .ok (some (literalType v))
  notUnion : ∀ text, result ≠ .ok (some (.union text (values.map literalType)))

theorem spilled_cons (quote : Char) (hidden rest value : List Char) (front : List (List Char)) :
    spilled quote hidden rest (value :: front) = quoted quote value ++ '|' :: spilled quote hidden rest front := rfl

theorem spilled_append (quote : Char) (hidden rest : List Char) (front : List (List Char)) :
    spilled quote hidden rest front = spilled quote hidden [] front ++ rest := by
  induction front with
  | nil => simp [spilled]
  | cons v front ih => rw [spilled, ih, spilled, List.append_assoc, List.cons_append]

theorem exists_spilled_eq_cons (quote : Char) (hidden rest : List Char) (front : List (List Char)) :
    ∃ tail, spilled quote hidden rest front = quote :: tail := by
  cases front <;> exact ⟨_, by rw [spilled, quoted, List.cons_append, List.cons_append]⟩

theorem getLast?_spilled (quote : Char) (hidden : List Char) (front : List (List Char)) :
    (spilled quote hidden [] front).getLast? = some quote := by
  induction front with
  | nil => simp [spilled]
  | cons v front ih =>
    rw [spilled, List.getLast?_append, List.getLast?_cons, ih]
    rfl

theorem trim_spilled (hquote : isQuote quote = true) (hidden rest : List Char) (front : List (List Char)) :
    trim (spilled quote hidden rest front) = spilled quote hidden (trimEnd rest) front := by
  obtain ⟨tail, htail⟩ := exists_spilled_eq_cons quote hidden rest front
  have hlast : ∃ c ∈ (spilled quote hidden [] front).getLast?, isBlank c = false :=
    ⟨quote, getLast?_spilled quote hidden front, not_blank_of_isQuote hquote⟩
  rw [trim, htail, trimStart_cons (not_blank_of_isQuote hquote), ← htail, spilled_append,
    trimEnd_append_right hlast, ← spilled_append]

theorem trim_cons_spilled (hquote : isQuote quote = true) (hopener : isBlank opener = false)
    (hidden rest : List Char) (front : List (List Char)) :
    trim (opener :: spilled quote hidden rest front) = opener :: spilled quote hidden (trimEnd rest) front := by
  have hlast : ∃ c ∈ (opener :: spilled quote hidden [] front).getLast?, isBlank c = false := by
    refine ⟨quote, ?_, not_blank_of_isQuote hquote⟩
    rw [List.getLast?_cons, getLast?_spilled]
    rfl
  rw [trim, trimStart_cons hopener, spilled_append, ← List.cons_append, trimEnd_append_right hlast,
    List.cons_append, ← spilled_append]

theorem normalize_spilled (hquote : isQuote quote = true) (hidden rest : List Char) (front : List (List Char)) :
    normalize (spilled quote hidden rest front) = spilled quote hidden (trimEnd rest) front := by
  obtain ⟨tail, htail⟩ := exists_spilled_eq_cons quote hidden (trimEnd rest) front
  rw [htail]
  exact normalize_of_quote hquote (htail ▸ trim_spilled hquote hidden rest front)

theorem exists_literals_eq_spilled {values : List (List Char)} (h : ∃ v ∈ values.dropLast, HidesQuote v) :
    ∃ front hidden more rest, values = front ++ hidden :: more ∧ (∀ v ∈ front, ¬HidesQuote v) ∧
      HidesQuote hidden ∧ literals quote values = spilled quote hidden rest front := by
  induction values with
  | nil => simp at h
  | cons v values ih =>
    cases values with
    | nil => simp at h
    | cons w values =>
      rw [literals_cons_cons]
      by_cases hv : HidesQuote v
      · obtain ⟨tail, htail⟩ := exists_literals_eq_cons quote (by simp : w :: values ≠ [])
        exact ⟨[], v, w :: values, tail, rfl, by simp, hv, by rw [htail]; rfl⟩
      · obtain ⟨u, hu, hhides⟩ := h
        have hu' : u ∈ (w :: values).dropLast := by
          rcases List.mem_cons.mp hu with rfl | hu
          · exact absurd hhides hv
          · exact hu
        obtain ⟨front, hidden, more, rest, hvalues, hfront, hhidden, he⟩ := ih ⟨u, hu', hhides⟩
        refine ⟨v :: front, hidden, more, rest, by rw [hvalues]; rfl, ?_, hhidden, by rw [he]; rfl⟩
        exact List.forall_mem_cons.mpr ⟨hv, hfront⟩

theorem exists_partsFrom (isSeparator : Char → Bool) (st : SplitState) (text : List Char) :
    ∃ piece more, partsFrom isSeparator st text = piece :: more := by
  cases text with
  | nil => exact ⟨[], [], rfl⟩
  | cons c text =>
    rw [partsFrom]
    split
    · exact ⟨[], _, rfl⟩
    · cases partsFrom isSeparator (st.next c) text <;> exact ⟨_, _, rfl⟩

section Parts

variable (hquote : isQuote quote = true) (hfront : ∀ v ∈ front, ¬HidesQuote v) (hhidden : HidesQuote hidden)

include hquote hfront hhidden

theorem exists_partsFrom_spilled (previous : Option Char) (rest : List Char) :
    ∃ piece more, partsFrom (· == '|') ⟨0, none, previous⟩ (spilled quote hidden rest front) =
      front.map (quoted quote) ++ spilled quote hidden piece [] :: more := by
  induction front generalizing previous with
  | nil =>
    obtain ⟨piece, more, he⟩ := exists_partsFrom (· == '|') ⟨0, none, some quote⟩ rest
    refine ⟨piece, more, ?_⟩
    rw [spilled, partsFrom_quoted_hidden hquote hhidden, he, foldr_consPart, List.append_assoc]
    rfl
  | cons v front ih =>
    obtain ⟨hv, hfront⟩ := List.forall_mem_cons.mp hfront
    obtain ⟨piece, more, he⟩ := ih hfront (some '|')
    refine ⟨piece, more, ?_⟩
    rw [spilled_cons, partsFrom_quoted_bar hquote hv, he]
    rfl

theorem exists_partsFrom_spilled_inside (depth : Nat) (previous : Option Char) (rest : List Char) :
    ∃ piece more, partsFrom (· == '|') ⟨depth + 1, none, previous⟩ (spilled quote hidden rest front) =
      spilled quote hidden piece front :: more := by
  induction front generalizing previous with
  | nil =>
    obtain ⟨piece, more, he⟩ := exists_partsFrom (· == '|') ⟨depth + 1, none, some quote⟩ rest
    refine ⟨piece, more, ?_⟩
    rw [spilled, partsFrom_quoted_hidden hquote hhidden, he, foldr_consPart, List.append_assoc]
    rfl
  | cons v front ih =>
    obtain ⟨hv, hfront⟩ := List.forall_mem_cons.mp hfront
    obtain ⟨piece, more, he⟩ := ih hfront (some '|')
    refine ⟨piece, more, ?_⟩
    rw [spilled, partsFrom_quoted_bar_inside hquote hv, he, foldr_consPart, List.append_assoc]
    rfl

theorem exists_alternatives_spilled (rest : List Char) :
    ∃ piece more, alternatives (spilled quote hidden rest front) =
      front.map (quoted quote) ++ spilled quote hidden piece [] :: more := by
  obtain ⟨piece, more, he⟩ := exists_partsFrom_spilled hquote hfront hhidden none rest
  have hquoted : (front.map (quoted quote)).map trim = front.map (quoted quote) := by
    rw [List.map_map]
    exact List.map_congr_left fun v _ => trim_quoted hquote v
  have hkept : (front.map (quoted quote)).filter (· ≠ []) = front.map (quoted quote) := by
    refine List.filter_eq_self.mpr fun p hp => ?_
    obtain ⟨v, -, rfl⟩ := List.mem_map.mp hp
    simp [quoted]
  refine ⟨trimEnd piece, (more.map trim).filter (· ≠ []), ?_⟩
  rw [alternatives, splitTopLevel, SplitState.start, he, List.map_append, hquoted, List.map_cons,
    trim_spilled hquote, List.filter_append, hkept, List.filter_cons_of_pos (by simp [spilled])]

theorem exists_alternatives_opened (hopener : opener = '\x7b' ∨ opener = '(') (rest : List Char) :
    ∃ piece more, alternatives (opener :: spilled quote hidden rest front) =
      (opener :: spilled quote hidden piece front) :: more := by
  obtain ⟨piece, more, he⟩ := exists_partsFrom_spilled_inside hquote hfront hhidden 0 (some opener) rest
  have hopen : partsFrom (· == '|') .start (opener :: spilled quote hidden rest front) =
      (opener :: spilled quote hidden piece front) :: more := by
    have hbrackets : ∃ closer, (opener, closer) ∈ enclosing := by
      rcases hopener with rfl | rfl
      · exact ⟨'\x7d', by decide⟩
      · exact ⟨')', by decide⟩
    obtain ⟨closer, hbrackets⟩ := hbrackets
    rw [partsFrom_opener hbrackets, he]
    rfl
  have hblank : isBlank opener = false := by
    rcases hopener with rfl | rfl <;> rfl
  refine ⟨trimEnd piece, (more.map trim).filter (· ≠ []), ?_⟩
  rw [alternatives, splitTopLevel, hopen, List.map_cons, trim_cons_spilled hquote hblank,
    List.filter_cons_of_pos (by simp)]

end Parts

theorem read_eq_ok_of_many {levels : Nat} {text : List Char} {t : ItemType} (hne : normalize text ≠ [])
    (hmany : 2 ≤ (alternatives (normalize text)).length) (h : read (levels + 1) text = .ok (some t)) :
    ∃ types, t = .union (String.ofList (normalize text)) types ∧
      ∀ (i : Nat) (a : List Char), (alternatives (normalize text))[i]? = some a →
        ∃ read?, read levels a = .ok read? ∧ types[i]? = some (read?.getD .any) := by
  obtain ⟨first, second, others, he⟩ : ∃ first second others,
      alternatives (normalize text) = first :: second :: others := by
    match halternatives : alternatives (normalize text) with
    | [] | [_] => simp [halternatives] at hmany
    | first :: second :: others => exact ⟨first, second, others, rfl⟩
  rw [read_many hne he] at h
  obtain ⟨types, hmap, ht⟩ := map_eq_ok.mp h
  cases ht
  refine ⟨types, rfl, fun i a ha => ?_⟩
  rw [he] at ha
  obtain ⟨b, hb, htype⟩ := getElem?_of_mapM hmap ha
  obtain ⟨read?, hread, rfl⟩ := map_eq_ok.mp hb
  exact ⟨read?, hread, htype⟩

theorem readSingle_of_read {levels : Nat} {text single : List Char} {t : ItemType} (hne : normalize text ≠ [])
    (hsingle : alternatives (normalize text) = [single]) (hwrapped : isWrapped '(' ')' single = false)
    (h : read (levels + 1) text = .ok (some t)) : readSingle single = .ok t := by
  rw [read_single hne hsingle, hwrapped] at h
  obtain ⟨found, hread, hfound⟩ := map_eq_ok.mp h
  cases hfound
  exact hread

theorem getD_eq_literalType {read? : Option ItemType} {value : List Char}
    (h : read?.getD .any = literalType value) : read? = some (literalType value) := by
  cases read? with
  | none => cases h
  | some t => exact congrArg some h

section Loses

variable (hquote : isQuote quote = true) (hhidden : HidesQuote hidden)

theorem spilled_ne_nil : spilled quote hidden rest front ≠ [] := by
  cases front <;> simp [spilled]

theorem two_le_length_alternatives {parts : List (List Char)} (h : ¬(front = [] ∧ parts = [])) :
    2 ≤ (front.map (quoted quote) ++ spilled quote hidden rest [] :: parts).length := by
  rw [List.length_append, List.length_map, List.length_cons]
  cases front with
  | nil =>
    cases parts with
    | nil => exact absurd ⟨rfl, rfl⟩ h
    | cons => simp
  | cons =>
    rw [List.length_cons]
    omega

include hquote in
theorem isWrapped_spilled : isWrapped '(' ')' (spilled quote hidden rest front) = false := by
  obtain ⟨tail, htail⟩ := exists_spilled_eq_cons quote hidden rest front
  exact isWrapped_of_head (by simpa [htail] using ne_of_isQuote hquote (by decide : isQuote '(' = false))

include hquote in
theorem exists_unwrap_eq_spilled {b c : Char} (hc : isQuote c = false)
    (h : isWrapped b c (opener :: spilled quote hidden rest front) = true) :
    ∃ rest', unwrap (opener :: spilled quote hidden rest front) = spilled quote hidden rest' front := by
  have hlast : (opener :: spilled quote hidden rest front).getLast? = some c := by
    simp only [isWrapped, Bool.and_eq_true, beq_iff_eq] at h
    exact h.1.2
  have hrest : rest ≠ [] := by
    rintro rfl
    rw [List.getLast?_cons, getLast?_spilled] at hlast
    exact ne_of_isQuote hquote hc (Option.some.inj hlast)
  refine ⟨rest.dropLast, ?_⟩
  rw [unwrap, List.drop_one, List.tail_cons, spilled_append, List.dropLast_append_of_ne_nil hrest,
    ← spilled_append]

include hquote hhidden

theorem read_spilled_ne_first (hfront : ∀ v ∈ front, ¬HidesQuote v) {text value : List Char}
    (hnormal : normalize text = spilled quote hidden rest front) (hvalue : value ∈ (front ++ [hidden]).head?)
    (levels : Nat) : read levels text ≠ .ok (some (literalType value)) := by
  have hne : normalize text ≠ [] := hnormal ▸ spilled_ne_nil
  intro h
  cases levels with
  | zero =>
    rw [read_zero hne] at h
    cases h
  | succ levels =>
    obtain ⟨piece, parts, halternatives⟩ := exists_alternatives_spilled hquote hfront hhidden rest
    rw [← hnormal] at halternatives
    by_cases hsingle : front = [] ∧ parts = []
    · obtain ⟨rfl, rfl⟩ := hsingle
      obtain rfl : hidden = value := by simpa using hvalue
      have hwrapped : isWrapped '(' ')' (spilled quote hidden piece []) = false := isWrapped_spilled hquote
      exact readSingle_ne_literalType hquote hidden piece (readSingle_of_read hne halternatives hwrapped h)
    · obtain ⟨types, htypes, -⟩ :=
        read_eq_ok_of_many hne (halternatives ▸ two_le_length_alternatives hsingle) h
      cases htypes

theorem loses_spilled (hfront : ∀ v ∈ front, ¬HidesQuote v) (more : List (List Char)) {text : List Char}
    (hnormal : normalize text = spilled quote hidden rest front) (levels : Nat) :
    Loses (front ++ hidden :: more) (read levels text) := by
  have hne : normalize text ≠ [] := hnormal ▸ spilled_ne_nil
  constructor
  case notFirst =>
    intro value hvalue
    refine read_spilled_ne_first hquote hhidden hfront hnormal ?_ levels
    cases front <;> exact hvalue
  case notUnion =>
    intro name h
    cases levels with
    | zero =>
      rw [read_zero hne] at h
      cases h
    | succ levels =>
      obtain ⟨piece, parts, halternatives⟩ := exists_alternatives_spilled hquote hfront hhidden rest
      rw [← hnormal] at halternatives
      by_cases hsingle : front = [] ∧ parts = []
      · obtain ⟨rfl, rfl⟩ := hsingle
        have hread := readSingle_of_read hne halternatives (isWrapped_spilled hquote) h
        rcases readSingle_eq_ok hread with ⟨v, -, hv⟩ | ⟨name, hname⟩
        · cases hv
        · cases hname
      · obtain ⟨types, htypes, hread⟩ :=
          read_eq_ok_of_many hne (halternatives ▸ two_le_length_alternatives hsingle) h
        cases htypes
        -- The alternative that starts with the hidden quote goes on behind it.
        obtain ⟨found, hfound, hget⟩ := hread front.length (spilled quote hidden piece []) (by simp [halternatives])
        have htype : found.getD .any = literalType hidden := by simpa using hget.symm
        rw [getD_eq_literalType htype] at hfound
        exact read_spilled_ne_first hquote hhidden (List.forall_mem_nil _)
          (normalize_spilled hquote hidden piece []) rfl levels hfound

omit hhidden in
theorem normalize_opened (hopener : opener = '\x7b' ∨ opener = '(') {text : List Char}
    (htrim : trim text = opener :: spilled quote hidden rest front) :
    normalize text = opener :: spilled quote hidden rest front ∨
      ∃ rest', normalize text = spilled quote hidden rest' front := by
  have hcolon : opener ≠ ':' := by
    rcases hopener with rfl | rfl <;> decide
  have hnormal := normalize_of_trim htrim (by simpa using hcolon)
  by_cases hwrapped : isWrapped '\x7b' '\x7d' (opener :: spilled quote hidden rest front)
  · obtain ⟨inner, hinner⟩ := exists_unwrap_eq_spilled hquote (by decide : isQuote '\x7d' = false) hwrapped
    rw [if_pos hwrapped, hinner, trim_spilled hquote] at hnormal
    exact .inr ⟨trimEnd inner, hnormal⟩
  · rw [if_neg hwrapped] at hnormal
    exact .inl hnormal

theorem loses_opened (hfront : ∀ v ∈ front, ¬HidesQuote v) (more : List (List Char))
    (hopener : opener = '\x7b' ∨ opener = '(') {text : List Char}
    (htrim : trim text = opener :: spilled quote hidden rest front) (levels : Nat) :
    Loses (front ++ hidden :: more) (read levels text) := by
  have hblank : isBlank opener = false := by
    rcases hopener with rfl | rfl <;> rfl
  induction levels generalizing text rest with
  | zero =>
    rcases normalize_opened hquote hopener htrim with hnormal | ⟨rest', hnormal⟩
    · rw [read_zero (by simp [hnormal])]
      constructor <;> intros <;> simp [ItemType.any, literalType]
    · exact loses_spilled hquote hhidden hfront more hnormal 0
  | succ levels ih =>
    rcases normalize_opened hquote hopener htrim with hnormal | ⟨rest', hnormal⟩
    · have hne : normalize text ≠ [] := by simp [hnormal]
      obtain ⟨piece, parts, halternatives⟩ := exists_alternatives_opened hquote hfront hhidden hopener rest
      rw [← hnormal] at halternatives
      cases parts with
      | nil =>
        by_cases hparens : isWrapped '(' ')' (opener :: spilled quote hidden piece front)
        · obtain ⟨inner, hinner⟩ := exists_unwrap_eq_spilled hquote (by decide : isQuote ')' = false) hparens
          rw [read_single hne halternatives, if_pos hparens, hinner]
          exact loses_spilled hquote hhidden hfront more (normalize_spilled hquote hidden inner front) levels
        · rw [hnormal] at halternatives
          rw [read_opened hopener.symm hnormal halternatives (Bool.eq_false_iff.mpr hparens)]
          constructor <;> intros <;> simp [literalType]
      | cons part parts =>
        have hmany : 2 ≤ (alternatives (normalize text)).length := by simp [halternatives]
        constructor
        case notFirst =>
          intro value _ h
          obtain ⟨types, htypes, -⟩ := read_eq_ok_of_many hne hmany h
          cases htypes
        case notUnion =>
          intro name h
          obtain ⟨types, htypes, hread⟩ := read_eq_ok_of_many hne hmany h
          cases htypes
          -- The first alternative starts with the bracket and the first value.
          obtain ⟨value, hvalue⟩ : ∃ value, value ∈ (front ++ hidden :: more).head? := by
            cases front <;> exact ⟨_, rfl⟩
          obtain ⟨found, hfound, hget⟩ :=
            hread 0 (opener :: spilled quote hidden piece front) (by simp [halternatives])
          have htype : found.getD .any = literalType value := by
            rw [← List.head?_eq_getElem?, List.head?_map, Option.mem_def.mp hvalue] at hget
            exact (Option.some.inj hget).symm
          rw [getD_eq_literalType htype] at hfound
          exact (ih (trim_cons_spilled hquote hblank hidden piece front)).notFirst value hvalue hfound
    · exact loses_spilled hquote hhidden hfront more hnormal (levels + 1)

end Loses

/-- The values that stay apart in a union in brackets. -/
structure StayApart (opener closer : Char) (values : List (List Char)) : Prop where
  shown : ∀ v ∈ values.dropLast, ¬HidesQuote v
  nested : ClosesOnlyOpen opener closer 0 values.flatten

/-- A union of string literals in braces or in parentheses keeps its values exactly if they stay apart. -/
theorem read_literals (hquote : isQuote quote = true) (hbrackets : (opener, closer) ∈ enclosing)
    {values : List (List Char)} (htwo : 2 ≤ values.length) :
    (StayApart opener closer values →
      read (levelsAt 0) (opener :: literals quote values ++ [closer]) =
        .ok (some (.union (String.ofList (literals quote values)) (values.map literalType)))) ∧
    ∀ text, read (levelsAt 0) (opener :: literals quote values ++ [closer]) =
      .ok (some (.union text (values.map literalType))) → StayApart opener closer values := by
  obtain ⟨first, second, others, rfl⟩ : ∃ first second others, values = first :: second :: others := by
    match values with
    | first :: second :: others => exact ⟨first, second, others, rfl⟩
  constructor
  · intro h
    exact read_enclosed_literals hquote h.shown hbrackets h.nested 2
  intro text hread
  have hshown : ∀ v ∈ (first :: second :: others).dropLast, ¬HidesQuote v := by
    by_contra h
    push Not at h
    obtain ⟨front, hidden, more, rest, hvalues, hfront, hhidden, hliterals⟩ := exists_literals_eq_spilled h
    have htrim : trim (opener :: literals quote (first :: second :: others) ++ [closer]) =
        opener :: spilled quote hidden (rest ++ [closer]) front := by
      rw [trim_enclosed hbrackets, hliterals, spilled_append, List.cons_append, List.append_assoc,
        ← spilled_append]
    rw [hvalues] at hread htrim
    exact (loses_opened hquote hhidden hfront more (eq_of_mem_enclosing hbrackets) htrim _).notUnion text hread
  refine ⟨hshown, ?_⟩
  by_contra h
  rw [levelsAt, maxDepth, read_enclosed_literals_of_not hquote hshown hbrackets h] at hread
  cases hread

theorem read_literals_nested_braces :
    read (levelsAt 0) "\x7b'a|\x7b'|'\x7d\\''|'\\\\'\x7d".toList =
      .ok (some (.union "'a|\x7b'|'\x7d\\''|'\\\\'"
        [.const (.text "a|\x7b"), .const (.text "\x7d'"), .const (.text "\\")])) := by
  have hquote : isQuote '\'' = true := by decide
  have hbrackets : ('\x7b', '\x7d') ∈ enclosing := by decide
  have htwo : 2 ≤ [['a', '|', '\x7b'], ['\x7d', '\''], ['\\']].length := by decide
  exact (read_literals hquote hbrackets htwo).1 ⟨by decide, by decide⟩

theorem literals_run_together :
    (¬∃ text, read (levelsAt 0) ('\x7b' :: literals '\'' [['\\'], ['a']] ++ ['\x7d']) =
      .ok (some (.union text ([['\\'], ['a']].map literalType)))) ∧
    (¬∃ text, read (levelsAt 0) ('\x7b' :: literals '\'' [['\x7d'], ['a']] ++ ['\x7d']) =
      .ok (some (.union text ([['\x7d'], ['a']].map literalType)))) ∧
    ¬∃ text, read (levelsAt 0) ('(' :: literals '"' [[')'], ['a']] ++ [')']) =
      .ok (some (.union text ([[')'], ['a']].map literalType))) := by
  have hhidden : read (levelsAt 0) ('\x7b' :: literals '\'' [['\\'], ['a']] ++ ['\x7d']) =
      .ok (some (.const (.text "\\'|'a"))) := rfl
  have hbrace : read (levelsAt 0) ('\x7b' :: literals '\'' [['\x7d'], ['a']] ++ ['\x7d']) =
      .ok (some (.named "\x7b'\x7d'|'a'\x7d")) := rfl
  have hparen : read (levelsAt 0) ('(' :: literals '"' [[')'], ['a']] ++ [')']) =
      .ok (some (.named "(\")\"|\"a\")")) := rfl
  rw [hhidden, hbrace, hparen]
  refine ⟨?_, ?_, ?_⟩ <;>
  · rintro ⟨text, h⟩
    cases h

end ComponentDoc.TypeExpression
