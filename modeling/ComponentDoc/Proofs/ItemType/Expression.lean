import ComponentDoc.ItemType.Expression
import ComponentDoc.Proofs.Literal.Escape
import ComponentDoc.Proofs.Literal.Numeral

namespace ComponentDoc

open Text

theorem not_isBlank_getLast?_trim {text : List Char} {c : Char} (h : (trim text).getLast? = some c) :
    isBlank c = false := by
  have hhead := List.head?_dropWhile_not isBlank (trimStart text).reverse
  rw [trim, trimEnd, dropEndWhile, List.getLast?_reverse] at h
  rw [h] at hhead
  simpa using hhead

namespace TypeExpression

open NumberLiteral

/-- The expressions that a type is read from: alternatives that are neither unions nor in parentheses and
are not nested too deeply. -/
def singles : Nat → List Char → List (List Char)
  | levels, text =>
    let text := normalize text
    if text = [] then []
    else
      match levels with
      | 0 => []
      | levels + 1 =>
        match alternatives text with
        | [] => []
        | [single] => if isWrapped '(' ')' single then singles levels (unwrap single) else [single]
        | many => many.flatMap (singles levels)

/-- A text in quotes that escapes a code point beyond the last one, or a number without digits behind the
mark of its base or with too many digits. -/
def IsValueless (text : List Char) : Prop :=
  (∃ body, quotation? text = some body ∧ Escape.HasBeyond body) ∨
    isNumeral text ∧ (lacksDigits text ∨ isTooLong text)

section Singles

variable {text : List Char}

theorem not_isNumeral_of_isQuote {quote : Char} (h : isQuote quote = true) (rest : List Char) :
    isNumeral (quote :: rest) = false := by
  simp only [isQuote, List.mem_cons, List.not_mem_nil, or_false, decide_eq_true_iff] at h
  rcases h with rfl | rfl | rfl <;> rfl

theorem not_isNumeral_of_quotation {body : List Char} (h : quotation? text = some body) : isNumeral text = false := by
  unfold quotation? at h
  split at h
  · next q rest =>
    split at h
    · next hquote => exact not_isNumeral_of_isQuote (Bool.and_eq_true_iff.mp hquote).1 rest
    · cases h
  · cases h

theorem literal?_isOk_iff (hlast : text.getLast? ≠ some '\n') : (literal? text).isOk ↔ ¬IsValueless text := by
  unfold literal? IsValueless
  cases hquoted : quotation? text with
  | some body =>
    rw [isOk_map, unescape_isOk_iff, not_isNumeral_of_quotation hquoted]
    simp
  | none =>
    dsimp only
    split
    · next hnumeral =>
      rw [isOk_map, parse_isOk_iff hnumeral, not_hasStrayLetter hnumeral hlast]
      simp [hnumeral]
    · next hnumeral =>
      refine iff_of_true ?_ (by simp [hnumeral])
      repeat' split
      all_goals rfl

theorem readSingle_isOk_iff : (readSingle text).isOk ↔ (literal? text).isOk := by
  rw [readSingle, isOk_bind, isOk_iff]
  refine exists_congr fun v => and_iff_left ?_
  cases v <;> rfl

theorem getLast?_of_mem_alternatives {single : List Char} (h : single ∈ alternatives text) :
    single.getLast? ≠ some '\n' := by
  obtain ⟨part, -, rfl⟩ := List.mem_map.mp (List.mem_of_mem_filter h)
  exact fun hlast => absurd (not_isBlank_getLast?_trim hlast) (by decide)

end Singles

theorem read_isOk_iff (levels : Nat) (text : List Char) :
    (read levels text).isOk ↔ ∀ t ∈ singles levels text, ¬IsValueless t := by
  induction levels generalizing text with
  | zero =>
    unfold read singles
    dsimp only
    split <;> exact iff_of_true rfl (List.forall_mem_nil _)
  | succ levels ih =>
    unfold read singles
    dsimp only
    split
    · exact iff_of_true rfl (List.forall_mem_nil _)
    · match hparts : alternatives (normalize text) with
      | [] => exact iff_of_true rfl (List.forall_mem_nil _)
      | [single] =>
        dsimp only
        split
        · exact ih _
        · have hlast := getLast?_of_mem_alternatives (hparts ▸ List.mem_singleton_self single)
          rw [isOk_map, readSingle_isOk_iff, literal?_isOk_iff hlast, List.forall_mem_singleton]
      | first :: second :: rest =>
        dsimp only
        rw [List.forall_mem_flatMap, bind_pure_comp]
        refine isOk_map.trans (isOk_mapM.trans (forall₂_congr fun a _ => ?_))
        rw [isOk_map, ih]

end TypeExpression

end ComponentDoc
