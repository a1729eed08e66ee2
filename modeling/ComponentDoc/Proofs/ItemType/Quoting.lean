import ComponentDoc.Proofs.ItemType.Expression
import ComponentDoc.Proofs.ItemType.Printing

namespace ComponentDoc.TypeExpression

open Text Escape

def escapeOf (quote c : Char) : List Char :=
  if c = '\n' then ['\\', 'n'] else if c = '\\' ∨ c = quote then ['\\', c] else [c]

def escapes (quote : Char) (value : List Char) : List Char := value.flatMap (escapeOf quote)

def quoted (quote : Char) (value : List Char) : List Char := quote :: escapes quote value ++ [quote]

variable {quote c : Char}

theorem ne_of_isQuote (hquote : isQuote quote = true) (hc : isQuote c = false) : quote ≠ c := by
  rintro rfl
  exact absurd (hc.symm.trans hquote) (by decide)

theorem not_blank_of_isQuote (h : isQuote quote = true) : isBlank quote = false := by
  simp only [isQuote, List.mem_cons, List.not_mem_nil, or_false, decide_eq_true_iff] at h
  rcases h with rfl | rfl | rfl <;> rfl

theorem escapeOf_cases (quote c : Char) :
    c = '\n' ∧ escapeOf quote c = ['\\', 'n'] ∨
      (c = '\\' ∨ c = quote) ∧ escapeOf quote c = ['\\', c] ∨
      c ≠ '\\' ∧ c ≠ quote ∧ escapeOf quote c = [c] := by
  unfold escapeOf
  split
  · next h => exact .inl ⟨h, rfl⟩
  · split
    · next h => exact .inr (.inl ⟨h, rfl⟩)
    · next h => exact .inr (.inr ⟨fun he => h (.inl he), fun he => h (.inr he), rfl⟩)

theorem escapes_cons (quote c : Char) (value : List Char) :
    escapes quote (c :: value) = escapeOf quote c ++ escapes quote value := rfl

theorem escapes_concat (quote c : Char) (value : List Char) :
    escapes quote (value ++ [c]) = escapes quote value ++ escapeOf quote c := by
  rw [escapes, List.flatMap_append, List.flatMap_singleton]
  rfl

theorem getLast?_escapes_eq_backslash_iff (quote : Char) (value : List Char) :
    (escapes quote value).getLast? = some '\\' ↔ value.getLast? = some '\\' := by
  rcases List.eq_nil_or_concat value with rfl | ⟨value, c, rfl⟩
  · exact Iff.rfl
  · rw [List.concat_eq_append, escapes_concat, List.getLast?_concat]
    rcases escapeOf_cases quote c with ⟨rfl, he⟩ | ⟨-, he⟩ | ⟨-, -, he⟩ <;> simp [he, List.getLast?_append]

theorem letter_quote (hquote : isQuote quote = true) : letter quote = [quote.toNat] := by
  simp only [isQuote, List.mem_cons, List.not_mem_nil, or_false, decide_eq_true_iff] at hquote
  rcases hquote with rfl | rfl | rfl <;> rfl

theorem decodeFrom_escapeOf (hquote : isQuote quote = true) (c : Char) (rest : List Char) :
    decodeFrom 0 (escapeOf quote c ++ rest) = (decodeFrom 0 rest).map (c.toNat :: ·) := by
  have hne : quote ≠ 'u' ∧ quote ≠ 'x' ∧ quote ≠ '\r' :=
    ⟨ne_of_isQuote hquote (by decide), ne_of_isQuote hquote (by decide), ne_of_isQuote hquote (by decide)⟩
  rcases escapeOf_cases quote c with ⟨rfl, he⟩ | ⟨rfl | rfl, he⟩ | ⟨hc, -, he⟩
  · rw [he]
    exact decodeFrom_letter (by decide) (by decide) (by decide) rest
  · rw [he]
    exact decodeFrom_letter (by decide) (by decide) (by decide) rest
  · have h := decodeFrom_letter hne.1 hne.2.1 hne.2.2 rest
    rw [letter_quote hquote] at h
    rw [he]
    exact h
  · rw [he]
    exact decodeFrom_plain hc rest

theorem decodeFrom_escapes (hquote : isQuote quote = true) (value rest : List Char) :
    decodeFrom 0 (escapes quote value ++ rest) = (decodeFrom 0 rest).map (value.map Char.toNat ++ ·) := by
  induction value with
  | nil => cases h : decodeFrom 0 rest <;> simp [escapes, h, Except.map]
  | cons c value ih =>
    rw [escapes_cons, List.append_assoc, decodeFrom_escapeOf hquote, ih]
    cases decodeFrom 0 rest <;> rfl

theorem unescape_escapes (hquote : isQuote quote = true) (value : List Char) :
    unescape (escapes quote value) = .ok (CodeText.ofChars value) := by
  have h := decodeFrom_escapes hquote value []
  rw [List.append_nil] at h
  rw [unescape, h, decodeFrom]
  simp [Except.map, CodeText.ofChars]

theorem unescape_escapes_append_ne (hquote : isQuote quote = true) (value rest : List Char)
    (hc : c ≠ '\\') : unescape (escapes quote value ++ c :: rest) ≠ .ok (CodeText.ofChars value) := by
  rw [unescape, decodeFrom_escapes hquote, decodeFrom_plain hc]
  cases decodeFrom 0 rest with
  | error e => simp [Except.map]
  | ok points => simp [Except.map, CodeText.ofChars]

variable {isSeparator : Char → Bool} {depth : Nat} {previous : Option Char} {rest : List Char}

theorem partsFrom_inQuote (c : Char) (rest : List Char) :
    partsFrom isSeparator ⟨depth, some quote, previous⟩ (c :: rest) =
      consPart c (partsFrom isSeparator
        ⟨depth, if c = quote ∧ previous ≠ some '\\' then none else some quote, some c⟩ rest) := rfl

theorem partsFrom_escapeOf (hquote : isQuote quote = true) (c : Char) (rest : List Char) :
    partsFrom isSeparator ⟨depth, some quote, previous⟩ (escapeOf quote c ++ rest) =
      (escapeOf quote c).foldr consPart
        (partsFrom isSeparator ⟨depth, some quote, (escapeOf quote c).getLast?.or previous⟩ rest) := by
  have hslash : ¬('\\' = quote ∧ previous ≠ some '\\') :=
    fun h => ne_of_isQuote hquote (by decide) h.1.symm
  rcases escapeOf_cases quote c with ⟨-, he⟩ | ⟨-, he⟩ | ⟨-, hc, he⟩
  · rw [he, List.cons_append, partsFrom_inQuote, if_neg hslash, List.singleton_append, partsFrom_inQuote,
      if_neg (by simp)]
    rfl
  · rw [he, List.cons_append, partsFrom_inQuote, if_neg hslash, List.singleton_append, partsFrom_inQuote,
      if_neg (by simp)]
    rfl
  · rw [he, List.singleton_append, partsFrom_inQuote, if_neg (by simp [hc])]
    rfl

theorem partsFrom_escapes (hquote : isQuote quote = true) (value rest : List Char) :
    partsFrom isSeparator ⟨depth, some quote, previous⟩ (escapes quote value ++ rest) =
      (escapes quote value).foldr consPart
        (partsFrom isSeparator ⟨depth, some quote, (escapes quote value).getLast?.or previous⟩ rest) := by
  induction value generalizing previous with
  | nil => rfl
  | cons c value ih =>
    rw [escapes_cons, List.append_assoc, partsFrom_escapeOf hquote, ih, List.foldr_append, List.getLast?_append,
      Option.or_assoc]

def HidesQuote (value : List Char) : Prop := value.getLast? = some '\\'

instance : DecidablePred HidesQuote := fun value => inferInstanceAs (Decidable (value.getLast? = some '\\'))

theorem partsFrom_quoted (hquote : isQuote quote = true) (value rest : List Char) :
    partsFrom isSeparator ⟨depth, none, previous⟩ (quoted quote value ++ rest) =
      (quoted quote value).foldr consPart
        (partsFrom isSeparator
          ⟨depth, if HidesQuote value then some quote else none, some quote⟩ rest) := by
  have hopen : partsFrom isSeparator ⟨depth, none, previous⟩ (quoted quote value ++ rest) =
      consPart quote (partsFrom isSeparator ⟨depth, some quote, some quote⟩
        (escapes quote value ++ quote :: rest)) := by
    have hnext : SplitState.next ⟨depth, none, previous⟩ quote = ⟨depth, some quote, some quote⟩ := by
      simp [SplitState.next, hquote]
    have hcut : SplitState.cuts ⟨depth, none, previous⟩ isSeparator quote = false := by
      simp [SplitState.cuts, hquote]
    rw [quoted, List.cons_append, List.cons_append, partsFrom, hnext, hcut, List.append_assoc]
    rfl
  have hslash : quote ≠ '\\' := ne_of_isQuote hquote (by decide)
  have hends : (escapes quote value).getLast?.or (some quote) = some '\\' ↔ HidesQuote value := by
    rw [HidesQuote, ← getLast?_escapes_eq_backslash_iff quote]
    cases (escapes quote value).getLast? <;> simp [hslash]
  have hclose : (if quote = quote ∧ (escapes quote value).getLast?.or (some quote) ≠ some '\\' then none
      else some quote) = if HidesQuote value then some quote else none := by
    simp only [true_and, ne_eq, hends, ite_not]
  rw [hopen, partsFrom_escapes hquote, partsFrom_inQuote, hclose, quoted, List.cons_append, List.foldr_cons,
    List.foldr_append]
  rfl

theorem trim_quoted (hquote : isQuote quote = true) (value : List Char) :
    trim (quoted quote value) = quoted quote value := by
  rw [trim_eq_self_iff, quoted, List.getLast?_concat]
  simp [not_blank_of_isQuote hquote]

def literalType (value : List Char) : ItemType := .const (.text (CodeText.ofChars value))

theorem readSingle_quoted (hquote : isQuote quote = true) (value : List Char) :
    readSingle (quoted quote value) = .ok (literalType value) := by
  have hquotation : quotation? (quoted quote value) = some (escapes quote value) := by
    simp [quotation?, quoted, hquote]
  have hliteral : literal? (quoted quote value) = .ok (some (.text (CodeText.ofChars value))) := by
    simp only [literal?, hquotation, unescape_escapes hquote]
    rfl
  rw [readSingle, hliteral]
  rfl

theorem literal?_of_quotation_none (hquote : isQuote quote = true) {text : List Char}
    (h : quotation? (quote :: text) = none) : literal? (quote :: text) = .ok none := by
  have hwords : ∀ word ∈ ["true".toList, "false".toList, "null".toList], quote :: text ≠ word := by
    have hhead : ∀ word ∈ ["true".toList, "false".toList, "null".toList],
        word.head?.map isQuote = some false := by decide
    intro word hword he
    have hfirst := hhead word hword
    rw [← he, List.head?_cons, Option.map_some, hquote] at hfirst
    cases hfirst
  simp only [List.forall_mem_cons] at hwords
  rw [literal?, h]
  simp only [not_isNumeral_of_isQuote hquote, hwords.1, hwords.2.1, hwords.2.2.1, if_false, Bool.false_eq_true]

theorem eq_dropLast_of_quotation {text body : List Char} (h : quotation? (c :: text) = some body) :
    body = text.dropLast := by
  unfold quotation? at h
  dsimp only at h
  split at h
  · exact (Option.some.inj h).symm
  · cases h

theorem readSingle_ne_literalType (hquote : isQuote quote = true) (value text : List Char) :
    readSingle (quoted quote value ++ '|' :: quote :: text) ≠ .ok (literalType value) := by
  have hslash : quote ≠ '\\' := ne_of_isQuote hquote (by decide)
  have htext : quoted quote value ++ '|' :: quote :: text =
      quote :: (escapes quote value ++ quote :: '|' :: quote :: text) := by
    simp [quoted]
  rw [htext]
  intro h
  rcases readSingle_eq_ok h with ⟨v, hliteral, hv⟩ | ⟨name, hname⟩
  · obtain ⟨-, rfl⟩ : _ ∧ Literal.text (CodeText.ofChars value) = v := by simpa [literalType] using hv
    cases hquotation : quotation? (quote :: (escapes quote value ++ quote :: '|' :: quote :: text)) with
    | none =>
      rw [literal?_of_quotation_none hquote hquotation] at hliteral
      cases hliteral
    | some body =>
      have hbody : body = escapes quote value ++ quote :: ('|' :: quote :: text).dropLast := by
        rw [eq_dropLast_of_quotation hquotation, List.dropLast_append_of_ne_nil (by simp)]
        rfl
      have hother := unescape_escapes_append_ne hquote value ('|' :: quote :: text).dropLast hslash
      rw [← hbody] at hother
      simp only [literal?, hquotation] at hliteral
      cases hdecoded : unescape body with
      | error e =>
        rw [hdecoded] at hliteral
        cases hliteral
      | ok decoded =>
        rw [hdecoded] at hliteral hother
        cases hliteral
        exact hother rfl
  · cases hname

theorem readSingle_opened (hc : c = '(' ∨ c = '\x7b') (text : List Char) :
    readSingle (c :: text) = .ok (.named (String.ofList (c :: text))) := by
  rcases hc with rfl | rfl <;> rfl

end ComponentDoc.TypeExpression
