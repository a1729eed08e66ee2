import ComponentDoc.Proofs.ItemType.Expression
import ComponentDoc.Proofs.ItemType.Quoting
import Mathlib.Data.List.Infix

namespace ComponentDoc.TypeExpression

open Text

def literals (quote : Char) (values : List (List Char)) : List Char :=
  List.intercalate ['|'] (values.map (quoted quote))

variable {quote opener closer c : Char} {value : List Char} {depth : Nat} {previous : Option Char}
  {rest : List Char}

theorem literals_cons_cons (quote : Char) (first second : List Char) (rest : List (List Char)) :
    literals quote (first :: second :: rest) = quoted quote first ++ '|' :: literals quote (second :: rest) := by
  rw [literals, List.map_cons, List.map_cons, List.intercalate_cons_cons, List.append_assoc]
  rfl

theorem literals_singleton (quote : Char) (value : List Char) : literals quote [value] = quoted quote value :=
  List.intercalate_singleton

theorem partsFrom_quoted_bar (hquote : isQuote quote = true) (h : ¬HidesQuote value) (rest : List Char) :
    partsFrom (· == '|') ⟨0, none, previous⟩ (quoted quote value ++ '|' :: rest) =
      quoted quote value :: partsFrom (· == '|') ⟨0, none, some '|'⟩ rest := by
  have hbar : partsFrom (· == '|') ⟨0, none, some quote⟩ ('|' :: rest) =
      [] :: partsFrom (· == '|') ⟨0, none, some '|'⟩ rest := rfl
  rw [partsFrom_quoted hquote, if_neg h, hbar, foldr_consPart, List.append_nil]

theorem partsFrom_quoted_bar_inside (hquote : isQuote quote = true) (h : ¬HidesQuote value) (rest : List Char) :
    partsFrom (· == '|') ⟨depth + 1, none, previous⟩ (quoted quote value ++ '|' :: rest) =
      (quoted quote value ++ ['|']).foldr consPart (partsFrom (· == '|') ⟨depth + 1, none, some '|'⟩ rest) := by
  have hbar : partsFrom (· == '|') ⟨depth + 1, none, some quote⟩ ('|' :: rest) =
      consPart '|' (partsFrom (· == '|') ⟨depth + 1, none, some '|'⟩ rest) := rfl
  rw [partsFrom_quoted hquote, if_neg h, hbar, List.foldr_append]
  rfl

theorem partsFrom_quoted_hidden (hquote : isQuote quote = true) (h : HidesQuote value) (rest : List Char) :
    partsFrom (· == '|') ⟨depth, none, previous⟩ (quoted quote value ++ '|' :: quote :: rest) =
      (quoted quote value ++ ['|', quote]).foldr consPart
        (partsFrom (· == '|') ⟨depth, none, some quote⟩ rest) := by
  have hbar : '|' ≠ quote := (ne_of_isQuote hquote (by decide)).symm
  rw [partsFrom_quoted hquote, if_pos h, partsFrom_inQuote, if_neg (by simp [hbar]), partsFrom_inQuote,
    if_pos (by simp), List.foldr_append]
  rfl

theorem partsFrom_literals (hquote : isQuote quote = true) {values : List (List Char)} (hne : values ≠ [])
    (h : ∀ v ∈ values.dropLast, ¬HidesQuote v) :
    partsFrom (· == '|') ⟨0, none, previous⟩ (literals quote values) = values.map (quoted quote) := by
  induction values generalizing previous with
  | nil => exact absurd rfl hne
  | cons v values ih =>
    cases values with
    | nil =>
      have hlast : partsFrom (· == '|') ⟨0, none, previous⟩ (quoted quote v ++ []) = _ :=
        partsFrom_quoted hquote v []
      rw [List.append_nil, partsFrom, foldr_consPart, List.append_nil] at hlast
      rwa [literals_singleton]
    | cons w values =>
      obtain ⟨hv, hvalues⟩ := List.forall_mem_cons.mp h
      rw [literals_cons_cons, partsFrom_quoted_bar hquote hv, ih (by simp) hvalues]
      rfl

theorem partsFrom_literals_inside (hquote : isQuote quote = true) {values : List (List Char)} (hne : values ≠ [])
    (h : ∀ v ∈ values.dropLast, ¬HidesQuote v) (hc : c ≠ '|') :
    partsFrom (· == '|') ⟨depth + 1, none, previous⟩ (literals quote values ++ [c]) =
      [literals quote values ++ [c]] := by
  have hlast : ∀ st : SplitState, partsFrom (· == '|') st [c] = [[c]] := by
    intro st
    have hcut : st.cuts (· == '|') c = false := by simp [SplitState.cuts, hc]
    rw [partsFrom, hcut]
    rfl
  induction values generalizing previous with
  | nil => exact absurd rfl hne
  | cons v values ih =>
    cases values with
    | nil => rw [literals_singleton, partsFrom_quoted hquote, hlast, foldr_consPart]
    | cons w values =>
      obtain ⟨hv, hvalues⟩ := List.forall_mem_cons.mp h
      rw [literals_cons_cons, List.append_assoc, List.cons_append, partsFrom_quoted_bar_inside hquote hv,
        ih (by simp) hvalues, foldr_consPart, List.append_assoc, List.singleton_append]

/-- With `depth` brackets open before it, the text never closes more brackets than are open. -/
def ClosesOnlyOpen (opener closer : Char) (depth : Nat) (text : List Char) : Prop :=
  ∀ before, before <+: text → before.count closer ≤ before.count opener + depth

instance (text : List Char) : Decidable (ClosesOnlyOpen opener closer depth text) :=
  decidable_of_iff (∀ before ∈ text.inits, before.count closer ≤ before.count opener + depth)
    (by simp only [List.mem_inits, ClosesOnlyOpen])

section Brackets

variable {text : List Char}

theorem closesOnlyOpen_cons_iff : ClosesOnlyOpen opener closer depth (c :: text) ↔
    ∀ before, before <+: text → (c :: before).count closer ≤ (c :: before).count opener + depth := by
  constructor
  · intro h before hbefore
    exact h (c :: before) (List.cons_prefix_cons.mpr ⟨rfl, hbefore⟩)
  · intro h before hbefore
    rcases List.prefix_cons_iff.mp hbefore with rfl | ⟨rest, rfl, hrest⟩
    · simp
    · exact h rest hrest

theorem closesOnlyOpen_cons (ho : c ≠ opener) (hc : c ≠ closer) :
    ClosesOnlyOpen opener closer depth (c :: text) ↔ ClosesOnlyOpen opener closer depth text := by
  rw [closesOnlyOpen_cons_iff]
  simp only [List.count_cons_of_ne ho, List.count_cons_of_ne hc]
  rfl

variable (hne : opener ≠ closer)

include hne

theorem closesOnlyOpen_opener :
    ClosesOnlyOpen opener closer depth (opener :: text) ↔ ClosesOnlyOpen opener closer (depth + 1) text := by
  rw [closesOnlyOpen_cons_iff]
  refine forall₂_congr fun before _ => ?_
  rw [List.count_cons_of_ne hne, List.count_cons_self]
  omega

theorem closesOnlyOpen_closer : ClosesOnlyOpen opener closer depth (closer :: text) ↔
    0 < depth ∧ ClosesOnlyOpen opener closer (depth - 1) text := by
  rw [closesOnlyOpen_cons_iff]
  simp only [List.count_cons_of_ne hne.symm, List.count_cons_self]
  constructor
  · intro h
    have hpos : 1 ≤ depth := by simpa using h [] List.nil_prefix
    refine ⟨hpos, fun before hbefore => ?_⟩
    have := h before hbefore
    omega
  · rintro ⟨hpos, h⟩ before hbefore
    have := h before hbefore
    omega

theorem staysOpen_concat_iff : staysOpen opener closer (depth + 1) (text ++ [closer]) = true ↔
    ClosesOnlyOpen opener closer depth text := by
  induction text generalizing depth with
  | nil => simp [staysOpen, hne.symm, ClosesOnlyOpen]
  | cons c text ih =>
    rw [List.cons_append, staysOpen]
    by_cases ho : c = opener
    · rw [if_pos ho, ih, ho, closesOnlyOpen_opener hne]
    · by_cases hc : c = closer
      · rw [if_neg ho, if_pos hc, hc, closesOnlyOpen_closer hne]
        cases depth with
        | zero => simp
        | succ depth => simpa using ih
      · rw [if_neg ho, if_neg hc, ih, closesOnlyOpen_cons ho hc]

theorem isWrapped_concat_iff : isWrapped opener closer (opener :: text ++ [closer]) = true ↔
    ClosesOnlyOpen opener closer 0 text := by
  rw [isWrapped, List.getLast?_concat, List.cons_append, List.head?_cons, beq_self_eq_true, beq_self_eq_true,
    Bool.true_and, Bool.true_and, staysOpen, if_pos rfl, staysOpen_concat_iff hne]

theorem closesOnlyOpen_append_congr {front other : List Char}
    (h : ∀ depth, ClosesOnlyOpen opener closer depth text ↔ ClosesOnlyOpen opener closer depth other) :
    ClosesOnlyOpen opener closer depth (front ++ text) ↔ ClosesOnlyOpen opener closer depth (front ++ other) := by
  induction front generalizing depth with
  | nil => exact h depth
  | cons c front ih =>
    rw [List.cons_append, List.cons_append]
    by_cases ho : c = opener
    · rw [ho, closesOnlyOpen_opener hne, closesOnlyOpen_opener hne, ih]
    · by_cases hc : c = closer
      · rw [hc, closesOnlyOpen_closer hne, closesOnlyOpen_closer hne, ih]
      · rw [closesOnlyOpen_cons ho hc, closesOnlyOpen_cons ho hc, ih]

end Brackets

def enclosing : List (Char × Char) := [('\x7b', '\x7d'), ('(', ')')]

section Values

variable (hbrackets : (opener, closer) ∈ enclosing) (hquote : isQuote quote = true)

include hbrackets

theorem ne_of_mem_enclosing : opener ≠ closer := by
  have h : ∀ b ∈ enclosing, b.1 ≠ b.2 := by decide
  exact h _ hbrackets

theorem eq_of_mem_enclosing : opener = '\x7b' ∨ opener = '(' := by
  have h : ∀ b ∈ enclosing, b.1 = '\x7b' ∨ b.1 = '(' := by decide
  exact h _ hbrackets

theorem not_bracket_of_mem (hc : c ∈ ['\\', '\n', 'n', '|']) : c ≠ opener ∧ c ≠ closer := by
  have h : ∀ b ∈ enclosing, b.1 ∉ ['\\', '\n', 'n', '|'] ∧ b.2 ∉ ['\\', '\n', 'n', '|'] := by decide
  obtain ⟨ho, hc'⟩ := h _ hbrackets
  exact ⟨ne_of_mem_of_not_mem hc ho, ne_of_mem_of_not_mem hc hc'⟩

theorem closesOnlyOpen_mark {text : List Char} (hc : c ∈ ['\\', '\n', 'n', '|']) :
    ClosesOnlyOpen opener closer depth (c :: text) ↔ ClosesOnlyOpen opener closer depth text :=
  closesOnlyOpen_cons (not_bracket_of_mem hbrackets hc).1 (not_bracket_of_mem hbrackets hc).2

theorem closesOnlyOpen_escapeOf (text : List Char) :
    ClosesOnlyOpen opener closer depth (escapeOf quote c ++ text) ↔
      ClosesOnlyOpen opener closer depth (c :: text) := by
  rcases escapeOf_cases quote c with ⟨rfl, he⟩ | ⟨-, he⟩ | ⟨-, -, he⟩
  · rw [he, List.cons_append, closesOnlyOpen_mark hbrackets (by decide), List.singleton_append,
      closesOnlyOpen_mark hbrackets (by decide), closesOnlyOpen_mark hbrackets (by decide)]
  · rw [he, List.cons_append, closesOnlyOpen_mark hbrackets (by decide), List.singleton_append]
  · rw [he, List.singleton_append]

theorem closesOnlyOpen_escapes (value text : List Char) :
    ClosesOnlyOpen opener closer depth (escapes quote value ++ text) ↔
      ClosesOnlyOpen opener closer depth (value ++ text) := by
  induction value generalizing depth with
  | nil => exact Iff.rfl
  | cons c value ih =>
    rw [escapes_cons, List.append_assoc, closesOnlyOpen_escapeOf hbrackets]
    change ClosesOnlyOpen opener closer depth ([c] ++ (escapes quote value ++ text)) ↔
      ClosesOnlyOpen opener closer depth ([c] ++ (value ++ text))
    exact closesOnlyOpen_append_congr (ne_of_mem_enclosing hbrackets) fun _ => ih

include hquote

theorem closesOnlyOpen_quote (text : List Char) :
    ClosesOnlyOpen opener closer depth (quote :: text) ↔ ClosesOnlyOpen opener closer depth text := by
  have h : ∀ b ∈ enclosing, isQuote b.1 = false ∧ isQuote b.2 = false := by decide
  obtain ⟨ho, hc⟩ := h _ hbrackets
  apply closesOnlyOpen_cons
  · rintro rfl
    exact absurd (ho.symm.trans hquote) (by decide)
  · rintro rfl
    exact absurd (hc.symm.trans hquote) (by decide)

theorem closesOnlyOpen_quoted (value text : List Char) :
    ClosesOnlyOpen opener closer depth (quoted quote value ++ text) ↔
      ClosesOnlyOpen opener closer depth (value ++ text) := by
  rw [quoted, List.cons_append, List.cons_append, closesOnlyOpen_quote hbrackets hquote, List.append_assoc,
    closesOnlyOpen_escapes hbrackets]
  exact closesOnlyOpen_append_congr (ne_of_mem_enclosing hbrackets)
    fun _ => closesOnlyOpen_quote hbrackets hquote text

theorem closesOnlyOpen_literals (values : List (List Char)) :
    ClosesOnlyOpen opener closer depth (literals quote values) ↔
      ClosesOnlyOpen opener closer depth values.flatten := by
  induction values generalizing depth with
  | nil => exact Iff.rfl
  | cons v values ih =>
    cases values with
    | nil =>
      rw [literals_singleton, ← List.append_nil (quoted quote v)]
      exact closesOnlyOpen_quoted hbrackets hquote v []
    | cons w values =>
      rw [literals_cons_cons, closesOnlyOpen_quoted hbrackets hquote, List.flatten_cons]
      refine closesOnlyOpen_append_congr (ne_of_mem_enclosing hbrackets) fun depth => ?_
      rw [closesOnlyOpen_mark hbrackets (by decide), ih]

end Values

theorem alternatives_literals (hquote : isQuote quote = true) {values : List (List Char)} (hne : values ≠ [])
    (h : ∀ v ∈ values.dropLast, ¬HidesQuote v) :
    alternatives (literals quote values) = values.map (quoted quote) := by
  have hcut : splitTopLevel (· == '|') (literals quote values) = (values.map (quoted quote)).map trim :=
    congrArg (List.map trim) (partsFrom_literals hquote hne h)
  have htrim : (values.map (quoted quote)).map trim = values.map (quoted quote) := by
    rw [List.map_map]
    exact List.map_congr_left fun v _ => trim_quoted hquote v
  rw [alternatives, hcut, htrim]
  refine List.filter_eq_self.mpr fun p hp => ?_
  obtain ⟨v, -, rfl⟩ := List.mem_map.mp hp
  simp [quoted]

theorem isWrapped_of_head {text : List Char} (h : text.head? ≠ some opener) :
    isWrapped opener closer text = false := by
  simp [isWrapped, h]

theorem normalize_of_quote (hquote : isQuote quote = true) {text tail : List Char}
    (htrim : trim text = quote :: tail) : normalize text = quote :: tail := by
  have hcolon := ne_of_isQuote hquote (by decide : isQuote ':' = false)
  have hbrace := ne_of_isQuote hquote (by decide : isQuote '\x7b' = false)
  rw [normalize_of_trim htrim (by simpa using hcolon), isWrapped_of_head (by simpa using hbrace)]
  rfl

theorem read_quoted (hquote : isQuote quote = true) (levels : Nat) (value : List Char) :
    read (levels + 1) (quoted quote value) = .ok (some (literalType value)) := by
  have hnormal : normalize (quoted quote value) = quoted quote value :=
    normalize_of_quote hquote (trim_quoted hquote value)
  have halternatives : alternatives (quoted quote value) = [quoted quote value] := by
    simpa [literals_singleton] using alternatives_literals hquote (by simp : [value] ≠ []) (by simp)
  have hwrapped : isWrapped '(' ')' (quoted quote value) = false :=
    isWrapped_of_head (by simpa [quoted] using ne_of_isQuote hquote (by decide : isQuote '(' = false))
  have hread : read (levels + 1) (quoted quote value) = _ :=
    read_single (by rw [hnormal]; simp [quoted]) (by rw [hnormal, halternatives])
  rw [hread, hwrapped, readSingle_quoted hquote]
  rfl

theorem trim_literals (hquote : isQuote quote = true) {values : List (List Char)} (hne : values ≠ []) :
    trim (literals quote values) = literals quote values := by
  have hends : (literals quote values).head? = some quote ∧ (literals quote values).getLast? = some quote := by
    induction values with
    | nil => exact absurd rfl hne
    | cons v values ih =>
      cases values with
      | nil =>
        rw [literals_singleton, quoted, List.getLast?_concat]
        exact ⟨rfl, rfl⟩
      | cons w values =>
        obtain ⟨-, hlast⟩ := ih (by simp)
        refine ⟨by simp [literals_cons_cons, quoted], ?_⟩
        rw [literals_cons_cons, List.getLast?_append, List.getLast?_cons, hlast]
        rfl
  rw [trim_eq_self_iff, hends.1, hends.2]
  simp [not_blank_of_isQuote hquote]

theorem exists_literals_eq_cons (quote : Char) {values : List (List Char)} (hne : values ≠ []) :
    ∃ tail, literals quote values = quote :: tail := by
  obtain ⟨v, values, rfl⟩ := List.exists_cons_of_ne_nil hne
  cases values with
  | nil => exact ⟨_, by rw [literals_singleton, quoted, List.cons_append]⟩
  | cons w values => exact ⟨_, by rw [literals_cons_cons, quoted, List.cons_append, List.cons_append]⟩

theorem normalize_literals (hquote : isQuote quote = true) {values : List (List Char)} (hne : values ≠ []) :
    normalize (literals quote values) = literals quote values := by
  obtain ⟨tail, htail⟩ := exists_literals_eq_cons quote hne
  rw [htail]
  exact normalize_of_quote hquote (htail ▸ trim_literals hquote hne)

section Enclosed

variable (hbrackets : (opener, closer) ∈ enclosing)

include hbrackets

theorem trim_enclosed (text : List Char) : trim (opener :: text ++ [closer]) = opener :: text ++ [closer] := by
  have hblank : ∀ b ∈ enclosing, isBlank b.1 = false ∧ isBlank b.2 = false := by decide
  rw [trim_eq_self_iff, List.getLast?_concat]
  simpa using hblank _ hbrackets

theorem partsFrom_opener (text : List Char) :
    partsFrom (· == '|') .start (opener :: text) =
      consPart opener (partsFrom (· == '|') ⟨1, none, some opener⟩ text) := by
  simp only [enclosing, List.mem_cons, List.not_mem_nil, or_false, Prod.mk.injEq] at hbrackets
  rcases hbrackets with ⟨rfl, -⟩ | ⟨rfl, -⟩ <;> rfl

theorem alternatives_enclosed_literals (hquote : isQuote quote = true) {values : List (List Char)}
    (hne : values ≠ []) (h : ∀ v ∈ values.dropLast, ¬HidesQuote v) :
    alternatives (opener :: literals quote values ++ [closer]) = [opener :: literals quote values ++ [closer]] := by
  have hbar : ∀ b ∈ enclosing, b.2 ≠ '|' := by decide
  have hparts : partsFrom (· == '|') .start (opener :: literals quote values ++ [closer]) =
      [opener :: literals quote values ++ [closer]] := by
    rw [List.cons_append, partsFrom_opener hbrackets, partsFrom_literals_inside hquote hne h (hbar _ hbrackets)]
    rfl
  rw [alternatives, splitTopLevel, hparts, List.map_singleton, trim_enclosed hbrackets]
  simp

theorem normalize_enclosed_text (text : List Char) :
    normalize (opener :: text ++ [closer]) =
      if isWrapped '\x7b' '\x7d' (opener :: text ++ [closer]) then trim text else opener :: text ++ [closer] := by
  have hcolon : ∀ b ∈ enclosing, b.1 ≠ ':' := by decide
  have hunwrap : unwrap (opener :: text ++ [closer]) = text := by simp [unwrap]
  rw [normalize_of_trim (trim_enclosed hbrackets text) (by simpa using hcolon _ hbrackets), hunwrap]

end Enclosed

theorem read_opened (hopener : opener = '(' ∨ opener = '\x7b') {text tail single : List Char}
    (hnormal : normalize text = opener :: tail) (halternatives : alternatives (opener :: tail) = [opener :: single])
    (hparens : isWrapped '(' ')' (opener :: single) = false) (levels : Nat) :
    read (levels + 1) text = .ok (some (.named (String.ofList (opener :: single)))) := by
  have hread : read (levels + 1) text = _ :=
    read_single (by simp [hnormal]) (by rw [hnormal, halternatives])
  rw [hread, hparens, readSingle_opened hopener]
  rfl

section Kept

variable (hquote : isQuote quote = true) {first second : List Char} {others : List (List Char)}
  (hshown : ∀ v ∈ (first :: second :: others).dropLast, ¬HidesQuote v)

include hquote hshown

theorem read_of_normalize_eq_literals {text : List Char}
    (hnormal : normalize text = literals quote (first :: second :: others)) (levels : Nat) :
    read (levels + 2) text = .ok (some (.union (String.ofList (literals quote (first :: second :: others)))
      ((first :: second :: others).map literalType))) := by
  have halternatives : alternatives (normalize text) =
      quoted quote first :: quoted quote second :: others.map (quoted quote) := by
    rw [hnormal]
    exact alternatives_literals hquote (by simp) hshown
  have hne : normalize text ≠ [] := by
    rw [hnormal, literals_cons_cons]
    simp [quoted]
  have hvalues : ((first :: second :: others).map (quoted quote)).mapM
      (fun a => (read (levels + 1) a).map fun t => t.getD .any) =
        .ok ((first :: second :: others).map literalType) := by
    refine mapM_eq_ok fun v _ => ?_
    rw [read_quoted hquote]
    rfl
  rw [read_many hne halternatives, ← List.map_cons, ← List.map_cons, hvalues, hnormal]
  rfl

theorem read_enclosed_literals (hbrackets : (opener, closer) ∈ enclosing)
    (hnested : ClosesOnlyOpen opener closer 0 (first :: second :: others).flatten) (levels : Nat) :
    read (levels + 3) (opener :: literals quote (first :: second :: others) ++ [closer]) =
      .ok (some (.union (String.ofList (literals quote (first :: second :: others)))
        ((first :: second :: others).map literalType))) := by
  have hwrapped : isWrapped opener closer
      (opener :: literals quote (first :: second :: others) ++ [closer]) = true := by
    rwa [isWrapped_concat_iff (ne_of_mem_enclosing hbrackets), closesOnlyOpen_literals hbrackets hquote]
  have hnormal := normalize_enclosed_text hbrackets (literals quote (first :: second :: others))
  have halternatives := alternatives_enclosed_literals hbrackets hquote (by simp) hshown
  simp only [enclosing, List.mem_cons, List.not_mem_nil, or_false, Prod.mk.injEq] at hbrackets
  -- Braces are dropped before the text is cut, parentheses when they stand around the only part.
  rcases hbrackets with ⟨rfl, rfl⟩ | ⟨rfl, rfl⟩
  · rw [if_pos hwrapped, trim_literals hquote (by simp)] at hnormal
    exact read_of_normalize_eq_literals hquote hshown hnormal (levels + 1)
  · rw [isWrapped_of_head (by simp), if_neg (by decide)] at hnormal
    have hread : read (levels + 3) ('(' :: literals quote (first :: second :: others) ++ [')']) = _ :=
      read_single (by rw [hnormal]; simp) (by rw [hnormal, halternatives])
    have hunwrap : unwrap ('(' :: literals quote (first :: second :: others) ++ [')']) =
        literals quote (first :: second :: others) := by simp [unwrap]
    rw [hread, if_pos hwrapped, hunwrap]
    exact read_of_normalize_eq_literals hquote hshown (normalize_literals hquote (by simp)) levels

theorem read_enclosed_literals_of_not (hbrackets : (opener, closer) ∈ enclosing)
    (hnested : ¬ClosesOnlyOpen opener closer 0 (first :: second :: others).flatten) (levels : Nat) :
    read (levels + 1) (opener :: literals quote (first :: second :: others) ++ [closer]) =
      .ok (some (.named (String.ofList (opener :: literals quote (first :: second :: others) ++ [closer])))) := by
  have hwrapped : isWrapped opener closer
      (opener :: literals quote (first :: second :: others) ++ [closer]) = false := by
    rwa [Bool.eq_false_iff, ne_eq, isWrapped_concat_iff (ne_of_mem_enclosing hbrackets),
      closesOnlyOpen_literals hbrackets hquote]
  have hnormal := normalize_enclosed_text hbrackets (literals quote (first :: second :: others))
  have halternatives := alternatives_enclosed_literals hbrackets hquote (by simp) hshown
  simp only [enclosing, List.mem_cons, List.not_mem_nil, or_false, Prod.mk.injEq] at hbrackets
  rcases hbrackets with ⟨rfl, rfl⟩ | ⟨rfl, rfl⟩
  · rw [hwrapped, if_neg (by decide)] at hnormal
    exact read_opened (.inr rfl) hnormal halternatives (isWrapped_of_head (by simp)) levels
  · rw [isWrapped_of_head (by simp), if_neg (by decide)] at hnormal
    exact read_opened (.inl rfl) hnormal halternatives hwrapped levels

end Kept

end ComponentDoc.TypeExpression
