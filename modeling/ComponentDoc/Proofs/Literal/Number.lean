import ComponentDoc.Literal.Number
import ComponentDoc.Proofs.Number.Reading
import ComponentDoc.Proofs.Outcome

namespace ComponentDoc

namespace NumberLiteral

open Text Script

/-! Literals by their parts -/

def isSign (c : Char) : Bool := c == '+' || c == '-'

/-- A literal without low lines and without its sign. -/
def bare (text : List Char) : List Char := (text.filter (· != '_')).dropWhile isSign

/-- Behind the mark of the base there are no digits. -/
def lacksDigits (text : List Char) : Bool :=
  match bare text with
  | '0' :: mark :: stop => mark ∈ ['x', 'X', 'o', 'O', 'b', 'B'] && isEnd stop
  | _ => false

/-- Digits after a zero that are read in base 8. -/
def isOctal (digits : List Char) : Bool := digits.head? == some '0' && digits.all isOctalDigit

/-- A whole number in base 10 with more digits than are read. -/
def isTooLong (text : List Char) : Bool :=
  let digits := (bare text).takeWhile isDigit
  [[], ['n']].contains ((bare text).dropWhile isDigit) && maxDigits < digits.length && !isOctal digits

/-- A line ends behind the letter of a big integer. -/
def hasStrayLetter (text : List Char) : Bool := ['n', '\n'].isSuffixOf (bare text)

inductive IsMagnitude : List Char → Prop
  | marked {base : Nat} {mark : Char} {digits : List Char} : baseMark? base mark → digits ≠ [] →
      (∀ d ∈ digits, (digitIn? base d).isSome) → IsMagnitude ('0' :: mark :: digits)
  | decimal {text : List Char} : IsDecimal isDigit text → IsMagnitude text

def IsNumeral (text : List Char) : Prop :=
  ∃ magnitude stop, bare text = magnitude ++ stop ∧ IsMagnitude magnitude ∧ isEnd stop

section Ends

variable {text stop : List Char} {c : Char}

theorem isEnd_iff : isEnd stop ↔ ∃ big blanks, stop = big ++ blanks ∧ IsLetter big ∧
    (blanks = [] ∨ blanks = ['\n']) := by
  rw [isEnd, decide_eq_true_iff]
  constructor
  · intro h
    simp only [List.mem_cons, List.not_mem_nil, or_false] at h
    rcases h with rfl | rfl | rfl | rfl
    exacts [⟨[], [], rfl, .inl rfl, .inl rfl⟩, ⟨['n'], [], rfl, .inr rfl, .inl rfl⟩,
      ⟨[], ['\n'], rfl, .inl rfl, .inr rfl⟩, ⟨['n'], ['\n'], rfl, .inr rfl, .inr rfl⟩]
  · rintro ⟨big, blanks, rfl, rfl | rfl, rfl | rfl⟩ <;> simp

theorem isEnd_mem (h : isEnd stop) (hc : c ∈ stop) : c = 'n' ∨ c = '\n' := by
  rw [isEnd, decide_eq_true_iff] at h
  simp only [List.mem_cons, List.not_mem_nil, or_false] at h
  rcases h with rfl | rfl | rfl | rfl <;> simp_all

theorem dropBig_concat (text : List Char) (c : Char) :
    dropBig (text ++ [c]) = if c = 'n' then text else text ++ [c] := by
  unfold dropBig dropStop?
  by_cases hc : c = 'n'
  · simp [hc]
  · have hnot : ¬['n'].isSuffixOf (text ++ [c]) := by
      rw [List.isSuffixOf_iff_suffix]
      rintro ⟨front, hfront⟩
      exact hc (List.append_inj_right' hfront rfl |> List.cons.inj |>.1.symm)
    rw [if_neg hnot, if_neg hc]

theorem dropBig_append {back : List Char} (text : List Char) (h : back ≠ []) :
    dropBig (text ++ back) = text ++ dropBig back := by
  rw [← List.dropLast_append_getLast h, ← List.append_assoc, dropBig_concat, dropBig_concat, List.append_assoc]
  split <;> rfl

theorem dropBig_prefix (text : List Char) : dropBig text <+: text := by
  rcases List.eq_nil_or_concat' text with rfl | ⟨front, c, rfl⟩
  · exact List.prefix_rfl
  · rw [dropBig_concat]
    split
    · exact List.prefix_append front [c]
    · exact List.prefix_rfl

theorem parse_isOk_iff_bare (h : bare text ≠ []) : (parse text).isOk ↔ (unsigned (dropBig (bare text))).isOk := by
  have hsigns : ∀ c ∈ (text.filter (· != '_')).takeWhile isSign, isSign c := fun c hc => List.mem_takeWhile_imp hc
  have hhead : (dropBig (bare text)).dropWhile isSign = dropBig (bare text) := by
    obtain ⟨back, hback⟩ := dropBig_prefix (bare text)
    have hfirst := List.head?_dropWhile_not isSign (text.filter (· != '_'))
    rw [← bare, ← hback] at hfirst
    cases hdrop : dropBig (bare text) with
    | nil => rfl
    | cons c rest =>
      rw [hdrop] at hfirst
      exact List.dropWhile_cons_of_neg (by simpa using hfirst)
  have hclean : (dropBig (text.filter (· != '_'))).dropWhile isSign = dropBig (bare text) := by
    rw [← List.takeWhile_append_dropWhile (p := isSign) (l := text.filter (· != '_')), ← bare,
      dropBig_append _ h, List.dropWhile_append_of_pos hsigns]
    exact hhead
  unfold parse
  dsimp only
  rw [isOk_map]
  exact iff_of_eq (congrArg (fun clean => (unsigned clean).isOk = true) hclean)

theorem dropBig_end {big blanks : List Char} (hlast : text.getLast? ≠ some 'n') (hbig : IsLetter big)
    (hblanks : blanks = [] ∨ blanks = ['\n']) :
    ∃ left, dropBig (text ++ (big ++ blanks)) = text ++ left ++ blanks ∧ IsLetter left ∧
      (left = [] ↔ ¬(big ++ blanks = ['n', '\n'])) := by
  have hself : dropBig text = text := by
    rcases List.eq_nil_or_concat' text with rfl | ⟨front, c, rfl⟩
    · rfl
    · rw [dropBig_concat, if_neg (by simpa using hlast)]
  have hnil : IsLetter [] := .inl rfl
  rcases hbig with rfl | rfl <;> rcases hblanks with rfl | rfl
  · exact ⟨[], by simp [hself], hnil, by simp⟩
  · exact ⟨[], by simp [dropBig_concat], hnil, by simp⟩
  · exact ⟨[], by simp [dropBig_concat], hnil, by simp⟩
  · refine ⟨['n'], ?_, .inr rfl, by simp⟩
    rw [← List.append_assoc, dropBig_concat, if_neg (by decide)]

end Ends

section Unsigned

variable {base : Nat} {mark : Char} {digits text big blanks : List Char}

theorem isAsciiBlank_lineEnd {blanks : List Char} (h : blanks = [] ∨ blanks = ['\n']) :
    ∀ c ∈ blanks, isAsciiBlank (plainChar c) := by
  rcases h with rfl | rfl
  · exact List.forall_mem_nil _
  · exact List.forall_mem_singleton.mpr rfl

theorem lineEnd_eq_nil {blanks : List Char} (h : blanks = [] ∨ blanks = ['\n']) (hdigits : ∀ c ∈ blanks, isDigit c) :
    blanks = [] := by
  rcases h with rfl | rfl
  · rfl
  · exact absurd (hdigits '\n' List.mem_cons_self) (by decide)

theorem digitIn?_of_isHex {c : Char} (h : isHex c) : (digitIn? 16 c).isSome := by
  have hall : ∀ n < 103, isHex (Char.ofNat n) → (digitIn? 16 (Char.ofNat n)).isSome := by decide
  have hlt : c.toNat < 103 := by
    have hranges : (('0' ≤ c ∧ c ≤ '9') ∨ 'a' ≤ c ∧ c ≤ 'f') ∨ 'A' ≤ c ∧ c ≤ 'F' := by simpa [isHex] using h
    have hle {d : Char} (hd : d.toNat < 103) (hc : c ≤ d) : c.toNat < 103 := Nat.lt_of_le_of_lt (Char.le_def.mp hc) hd
    rcases hranges with (⟨-, hc⟩ | ⟨-, hc⟩) | ⟨-, hc⟩ <;> exact hle (by decide) hc
  simpa using hall c.toNat hlt (by simpa using h)

theorem digitIn?_of_isOctalDigit {c : Char} (h : isOctalDigit c) : c.isDigit ∧ (digitIn? 8 c).isSome := by
  have hle : '0' ≤ c ∧ c ≤ '7' := by simpa [isOctalDigit] using h
  have hlow : 48 ≤ c.toNat := Char.le_def.mp hle.1
  have hhigh : c.toNat ≤ 55 := Char.le_def.mp hle.2
  have hall : ∀ n < 56, 48 ≤ n → (Char.ofNat n).isDigit ∧ (digitIn? 8 (Char.ofNat n)).isSome := by decide
  simpa using hall c.toNat (by omega) hlow

theorem unsigned_marked (hmark : baseMark? base mark) (rest : List Char) :
    unsigned ('0' :: mark :: rest) = (readInteger base rest).map .int ∧ base ∈ [2, 8, 16] := by
  unfold baseMark? at hmark
  split at hmark
  · rcases (by simpa using hmark : mark = 'b' ∨ mark = 'B') with rfl | rfl <;> exact ⟨rfl, by simp⟩
  · rcases (by simpa using hmark : mark = 'o' ∨ mark = 'O') with rfl | rfl <;> exact ⟨rfl, by simp⟩
  · rcases (by simpa using hmark : mark = 'x' ∨ mark = 'X') with rfl | rfl <;> exact ⟨rfl, by simp⟩
  · cases hmark

theorem unsigned_marked_isOk_iff (hmark : baseMark? base mark) (hdigits : ∀ d ∈ digits, (digitIn? base d).isSome)
    (hbig : IsLetter big) (hblanks : ∀ c ∈ blanks, isAsciiBlank (plainChar c)) :
    (unsigned ('0' :: mark :: (digits ++ big ++ blanks))).isOk ↔ digits ≠ [] ∧ big = [] := by
  obtain ⟨hunsigned, hbase⟩ := unsigned_marked hmark (digits ++ big ++ blanks)
  have hplain : ∀ d ∈ digits, (digitIn? base (plainChar d)).isSome := by
    intro d hd
    have hcodes := toNat_of_digitIn? (hdigits d hd)
    rw [plainChar_of_lt (by omega)]
    exact hdigits d hd
  rw [hunsigned, isOk_map, readInteger_isOk_iff hplain hbig hblanks]
  exact and_congr_right fun _ => and_iff_left fun hnot => absurd hbase hnot

theorem unsigned_unmarked (h : ∀ c ∈ text, c ∉ ['x', 'X', 'o', 'O', 'b', 'B']) :
    unsigned text =
      if isOctal text ∧ 1 < text.length then (readInteger 8 text).map .int
      else if text ≠ [] ∧ text.all isDigit then (readInteger 10 text).map .int
      else (readDouble text).map .double := by
  unfold unsigned
  dsimp only
  split
  · next c rest =>
    have hc := h c (by simp)
    simp only [List.mem_cons, List.not_mem_nil, or_false, not_or] at hc
    have hoctal : isOctal ('0' :: c :: rest) = (c :: rest).all isOctalDigit := rfl
    simp [hc, hoctal]
  · next hnot =>
    have hoctal : ¬(isOctal text ∧ 1 < text.length) := by
      rintro ⟨hoctal, hlength⟩
      match text, hlength with
      | c :: d :: rest, _ =>
        obtain ⟨hhead, -⟩ := Bool.and_eq_true_iff.mp hoctal
        obtain rfl : c = '0' := by simpa using hhead
        exact hnot d rest rfl
    rw [if_neg hoctal]

theorem isDigit_of_mark {c : Char} (h : c ∈ ['x', 'X', 'o', 'O', 'b', 'B']) : isDigit c = false := by
  have hall : ∀ c ∈ ['x', 'X', 'o', 'O', 'b', 'B'], isDigit c = false := by
    simp only [List.forall_mem_cons, List.not_mem_nil, false_implies, forall_const]
    decide
  exact hall c h

theorem not_mark {c : Char} (h : isDigit c ∨ c ∈ ['.', 'e', 'E', '+', '-', 'n', '\n']) :
    c ∉ ['x', 'X', 'o', 'O', 'b', 'B'] := by
  have hothers : ∀ c ∈ ['x', 'X', 'o', 'O', 'b', 'B'], c ∉ ['.', 'e', 'E', '+', '-', 'n', '\n'] := by simp
  intro hmark
  rcases h with hdigit | hmem
  · rw [isDigit_of_mark hmark] at hdigit
    cases hdigit
  · exact hothers c hmark hmem

/-- Digits are read, unless there are too many of them; in base 8 they are not counted. -/
theorem unsigned_digits_isOk_iff (hne : text ≠ []) (h : ∀ c ∈ text, isDigit c) :
    (unsigned text).isOk ↔ ¬(maxDigits < text.length ∧ isOctal text = false) := by
  have hread {base : Nat} (hbase : ∀ d ∈ text, (digitIn? base (plainChar d)).isSome) :
      (readInteger base text).isOk ↔ text ≠ [] ∧ (base ∉ [2, 8, 16] → text.length ≤ maxDigits) := by
    have hiff := readInteger_isOk_iff hbase (.inl rfl) (List.forall_mem_nil fun c => isAsciiBlank (plainChar c))
    rwa [List.append_nil, List.append_nil, and_iff_right rfl] at hiff
  rw [unsigned_unmarked fun c hc => not_mark (.inl (h c hc))]
  split
  · next hoctal =>
    have hplain : ∀ d ∈ text, (digitIn? 8 (plainChar d)).isSome := by
      intro d hd
      obtain ⟨hdigit, hsome⟩ :=
        digitIn?_of_isOctalDigit (List.all_eq_true.mp (Bool.and_eq_true_iff.mp hoctal.1).2 d hd)
      have hcodes := toNat_of_isDigit hdigit
      rwa [plainChar_of_lt (by omega)]
    rw [isOk_map, hread hplain]
    refine iff_of_true ⟨hne, fun hnot => absurd (by decide) hnot⟩ fun hlong => ?_
    rw [hoctal.1] at hlong
    cases hlong.2
  · next hoctal =>
    rw [if_pos ⟨hne, List.all_eq_true.mpr h⟩, isOk_map,
      hread fun d hd => digitIn?_of_isDigit (isDigit_plainChar (h d hd))]
    constructor
    · rintro ⟨-, hshort⟩ ⟨hlong, -⟩
      exact Nat.not_lt.mpr (hshort (by decide)) hlong
    · refine fun hnot => ⟨hne, fun _ => Nat.not_lt.mp fun hlong => hnot ⟨hlong, ?_⟩⟩
      rw [← Bool.not_eq_true]
      exact fun height => hoctal ⟨height, Nat.lt_trans (by decide) hlong⟩

/-- A decimal number is read, unless it is a whole number of too many digits, or the letter of a big
integer is left at its end. -/
theorem unsigned_decimal_isOk_iff (h : IsDecimal isDigit text) (hbig : IsLetter big)
    (hblanks : blanks = [] ∨ blanks = ['\n']) :
    (unsigned (text ++ big ++ blanks)).isOk ↔ big = [] ∧
      ¬((∀ c ∈ text ++ blanks, isDigit c) ∧ maxDigits < text.length ∧ isOctal text = false) := by
  have hchars : ∀ c ∈ text ++ big ++ blanks, isDigit c ∨ c ∈ ['.', 'e', 'E', '+', '-', 'n', '\n'] := by
    intro c hc
    rw [List.mem_append, List.mem_append] at hc
    rcases hc with (hc | hc) | hc
    · exact (h.mem hc).imp_right fun hmem => List.mem_append_left ['n', '\n'] hmem
    · rw [hbig.eq_of_mem hc]
      exact .inr (by decide)
    · rcases hblanks with rfl | rfl
      · cases hc
      · rw [List.mem_singleton.mp hc]
        exact .inr (by decide)
  by_cases hall : ∀ c ∈ text ++ big ++ blanks, isDigit c
  · obtain rfl : big = [] := by
      rcases hbig with rfl | rfl
      · rfl
      · exact absurd (hall 'n' (by simp)) (by decide)
    obtain rfl := lineEnd_eq_nil hblanks fun c hc => hall c (List.mem_append_right _ hc)
    rw [List.append_nil, List.append_nil] at hall ⊢
    rw [unsigned_digits_isOk_iff h.ne_nil hall, and_iff_right rfl, and_iff_right hall]
  · have hoctal : ¬(isOctal (text ++ big ++ blanks) ∧ 1 < (text ++ big ++ blanks).length) := by
      rintro ⟨hoctal, -⟩
      refine hall fun c hc => isDigit_of_ascii (digitIn?_of_isOctalDigit ?_).1
      exact List.all_eq_true.mp (Bool.and_eq_true_iff.mp hoctal).2 c hc
    have hwhole : ¬(text ++ big ++ blanks ≠ [] ∧ (text ++ big ++ blanks).all isDigit) :=
      fun hboth => hall (List.all_eq_true.mp hboth.2)
    rw [unsigned_unmarked fun c hc => not_mark (hchars c hc), if_neg hoctal, if_neg hwhole, isOk_map,
      readDouble_isOk_iff h hbig (isAsciiBlank_lineEnd hblanks)]
    refine (and_iff_left_of_imp ?_).symm
    rintro rfl ⟨hdigits, -⟩
    rw [List.append_nil] at hall
    exact hall hdigits

end Unsigned

section Values

variable {text magnitude stop : List Char} {c : Char}

theorem exists_base (h : c ∈ ['x', 'X', 'o', 'O', 'b', 'B']) : ∃ base, baseMark? base c := by
  simp only [List.mem_cons, List.not_mem_nil, or_false] at h
  rcases h with rfl | rfl | rfl | rfl | rfl | rfl
  exacts [⟨16, rfl⟩, ⟨16, rfl⟩, ⟨8, rfl⟩, ⟨8, rfl⟩, ⟨2, rfl⟩, ⟨2, rfl⟩]

theorem mem_of_baseMark? {base : Nat} (h : baseMark? base c) : c ∈ ['x', 'X', 'o', 'O', 'b', 'B'] := by
  unfold baseMark? at h
  split at h
  · rcases (by simpa using h : c = 'b' ∨ c = 'B') with rfl | rfl <;> simp
  · rcases (by simpa using h : c = 'o' ∨ c = 'O') with rfl | rfl <;> simp
  · rcases (by simpa using h : c = 'x' ∨ c = 'X') with rfl | rfl <;> simp
  · cases h

theorem IsMagnitude.ne_nil (h : IsMagnitude magnitude) : magnitude ≠ [] := by
  cases h with
  | marked => exact List.cons_ne_nil _ _
  | decimal h => exact h.ne_nil

theorem IsMagnitude.head (h : IsMagnitude magnitude) : ∀ c ∈ (magnitude ++ stop).head?, isSign c = false := by
  have hdigit : ∃ c ∈ magnitude.head?, isDigit c ∨ c = '.' := by
    cases h with
    | marked => exact ⟨'0', rfl, .inl (by decide)⟩
    | decimal h => exact h.exists_head
  obtain ⟨d, hd, hdigit⟩ := hdigit
  obtain ⟨rest, rfl⟩ := List.head?_eq_some_iff.mp hd
  intro c hc
  obtain rfl := Option.some.inj hc
  rw [← Bool.not_eq_true]
  intro hsign
  have hsign : d = '+' ∨ d = '-' := by simpa [isSign] using hsign
  rcases hsign with rfl | rfl <;> revert hdigit <;> decide

theorem IsMagnitude.not_mem (h : IsMagnitude magnitude) : 'n' ∉ magnitude ∧ '\n' ∉ magnitude := by
  refine not_or.mp fun hor => ?_
  obtain ⟨c, hstop, hc⟩ : ∃ c ∈ ['n', '\n'], c ∈ magnitude := by simpa using hor
  cases h with
  | @marked base mark digits hmark _ hdigits =>
    have hzero : '0' ∉ ['n', '\n'] := by decide
    have hmarks : ∀ c ∈ ['x', 'X', 'o', 'O', 'b', 'B'], c ∉ ['n', '\n'] := by simp
    have hnone : ∀ c ∈ ['n', '\n'], digitIn? base c = none := by simp [digitIn?]
    rw [List.mem_cons, List.mem_cons] at hc
    rcases hc with rfl | rfl | hc
    · exact hzero hstop
    · exact hmarks c (mem_of_baseMark? hmark) hstop
    · have hdigit := hdigits c hc
      rw [hnone c hstop] at hdigit
      cases hdigit
  | decimal h =>
    have hdigits : ∀ c ∈ ['n', '\n'], isDigit c = false := by
      simp only [List.forall_mem_cons, List.not_mem_nil, false_implies, forall_const]
      decide
    have hsigns : ∀ c ∈ ['n', '\n'], c ∉ ['.', 'e', 'E', '+', '-'] := by simp
    rcases h.mem hc with hdigit | hmem
    · rw [hdigits c hstop] at hdigit
      cases hdigit
    · exact hsigns c hstop hmem

theorem hasStrayLetter_iff (hbare : bare text = magnitude ++ stop) (h : IsMagnitude magnitude) (hend : isEnd stop) :
    hasStrayLetter text ↔ stop = ['n', '\n'] := by
  obtain ⟨hbig, hbreak⟩ := h.not_mem
  rw [hasStrayLetter, hbare, List.isSuffixOf_iff_suffix]
  rw [isEnd, decide_eq_true_iff] at hend
  simp only [List.mem_cons, List.not_mem_nil, or_false] at hend
  refine ⟨fun ⟨front, hfront⟩ => ?_, fun hstop => hstop ▸ List.suffix_append magnitude _⟩
  rw [List.append_cons front] at hfront
  rcases hend with rfl | rfl | rfl | rfl
  · rw [List.append_nil] at hfront
    exact absurd (by simp [← hfront]) hbig
  · cases List.append_inj_right' hfront rfl
  · exact absurd (by simp [← List.append_inj_left' hfront rfl]) hbig
  · rfl

theorem isTooLong_marked (hmark : c ∈ ['x', 'X', 'o', 'O', 'b', 'B']) {rest : List Char}
    (hbare : bare text = '0' :: c :: rest) : isTooLong text = false := by
  have hdigit := isDigit_of_mark hmark
  have hdrop : (bare text).dropWhile isDigit = c :: rest := by
    rw [hbare, List.dropWhile_cons_of_pos (by decide), List.dropWhile_cons_of_neg (by simp [hdigit])]
  have hother : c :: rest ∉ [[], ['n']] := by
    simp only [List.mem_cons, List.cons.injEq, List.not_mem_nil, or_false, not_or]
    refine ⟨List.cons_ne_nil c rest, fun hn => ?_⟩
    rw [hn.1] at hmark
    revert hmark
    decide
  unfold isTooLong
  dsimp only
  rw [hdrop, List.contains_eq_mem, decide_eq_false hother]
  rfl

theorem isTooLong_decimal {big blanks : List Char} (hbare : bare text = magnitude ++ (big ++ blanks))
    (h : IsDecimal isDigit magnitude) (hbig : IsLetter big) (hblanks : blanks = [] ∨ blanks = ['\n']) :
    isTooLong text ↔ (∀ c ∈ magnitude ++ blanks, isDigit c) ∧ maxDigits < magnitude.length ∧
      isOctal magnitude = false := by
  have hletter : big.takeWhile isDigit = [] ∧ big.dropWhile isDigit = big ∧ big ∈ [[], ['n']] := by
    rcases hbig with rfl | rfl <;> decide
  unfold isTooLong
  dsimp only
  rw [hbare]
  by_cases hall : ∀ c ∈ magnitude ++ blanks, isDigit c
  · obtain ⟨hmagnitude, hbreak⟩ := List.forall_mem_append.mp hall
    obtain rfl := lineEnd_eq_nil hblanks hbreak
    rw [List.append_nil, List.dropWhile_append_of_pos hmagnitude, List.takeWhile_append_of_pos hmagnitude,
      hletter.1, hletter.2.1, List.append_nil, List.contains_eq_mem, decide_eq_true hletter.2.2]
    simpa using fun _ _ => hmagnitude
  · have hdrop : (magnitude ++ (big ++ blanks)).dropWhile isDigit ∉ [[], ['n']] := by
      refine fun hrest => hall fun c hc => ?_
      have hc' : c ∈ magnitude ++ (big ++ blanks) := by
        rcases List.mem_append.mp hc with hc | hc
        · exact List.mem_append_left _ hc
        · exact List.mem_append_right _ (List.mem_append_right _ hc)
      rw [← List.takeWhile_append_dropWhile (p := isDigit) (l := magnitude ++ (big ++ blanks))] at hc'
      rcases List.mem_append.mp hc' with hdigit | hn
      · exact List.mem_takeWhile_imp hdigit
      · have hletter : c = 'n' := by
          simp only [List.mem_cons, List.not_mem_nil, or_false] at hrest
          rcases hrest with hrest | hrest <;> rw [hrest] at hn
          · cases hn
          · exact List.mem_singleton.mp hn
        rw [hletter] at hc
        rcases List.mem_append.mp hc with hc | hc
        · exact absurd hc (IsMagnitude.decimal h).not_mem.1
        · rcases hblanks with rfl | rfl <;> simp at hc
    rw [List.contains_eq_mem, decide_eq_false hdrop]
    exact iff_of_false nofun fun hboth => hall hboth.1

/-- A literal with digits has a value, unless they are too many, or a line ends behind the letter of a big
integer. -/
theorem IsNumeral.parse_isOk_iff (h : IsNumeral text) :
    (parse text).isOk ↔ isTooLong text = false ∧ hasStrayLetter text = false := by
  obtain ⟨magnitude, stop, hbare, hmagnitude, hend⟩ := h
  have hstray := hasStrayLetter_iff hbare hmagnitude hend
  obtain ⟨big, blanks, rfl, hbig, hblanks⟩ := isEnd_iff.mp hend
  have hlast : magnitude.getLast? ≠ some 'n' := fun hn => hmagnitude.not_mem.1 (List.mem_of_getLast? hn)
  obtain ⟨left, hdrop, hleft, hnil⟩ := dropBig_end hlast hbig hblanks
  rw [parse_isOk_iff_bare (by simp [hbare, hmagnitude.ne_nil]), hbare, hdrop, ← Bool.not_eq_true (hasStrayLetter text),
    hstray, ← hnil]
  cases hmagnitude with
  | marked hmark hne hdigits =>
    rw [List.cons_append, List.cons_append, List.cons_append, List.cons_append,
      unsigned_marked_isOk_iff hmark hdigits hleft (isAsciiBlank_lineEnd hblanks),
      isTooLong_marked (mem_of_baseMark? hmark) (by rw [hbare]; rfl), and_iff_right hne, and_iff_right rfl]
  | decimal h =>
    rw [unsigned_decimal_isOk_iff h hleft hblanks, ← isTooLong_decimal hbare h hbig hblanks, Bool.not_eq_true,
      and_comm]

theorem not_isOk_of_lacksDigits (h : lacksDigits text) : ¬(parse text).isOk := by
  unfold lacksDigits at h
  split at h
  · next mark stop hbare =>
    obtain ⟨hmark, hend⟩ := Bool.and_eq_true_iff.mp h
    obtain ⟨big, blanks, rfl, hbig, hblanks⟩ := isEnd_iff.mp hend
    obtain ⟨base, hbase⟩ := exists_base (of_decide_eq_true hmark)
    have hlast : ['0', mark].getLast? ≠ some 'n' := by
      rintro hn
      obtain rfl : mark = 'n' := by simpa using hn
      cases hmark
    obtain ⟨left, hdrop, hleft, -⟩ := dropBig_end hlast hbig hblanks
    rw [parse_isOk_iff_bare (by simp [hbare]), hbare]
    change ¬(unsigned (dropBig (['0', mark] ++ (big ++ blanks)))).isOk
    rw [hdrop]
    intro hok
    exact ((unsigned_marked_isOk_iff hbase (List.forall_mem_nil _) hleft (isAsciiBlank_lineEnd hblanks)).mp hok).1 rfl
  · cases h

theorem IsNumeral.not_lacksDigits (h : IsNumeral text) : lacksDigits text = false := by
  obtain ⟨magnitude, stop, hbare, hmagnitude, hend⟩ := h
  unfold lacksDigits
  rw [hbare]
  cases hmagnitude with
  | @marked base mark digits hmark hne hdigits =>
    obtain ⟨d, digits, rfl⟩ := List.exists_cons_of_ne_nil hne
    have hnot : isEnd (d :: digits ++ stop) = false := by
      rw [← Bool.not_eq_true]
      intro hend
      have hd := hdigits d List.mem_cons_self
      rcases isEnd_mem hend List.mem_cons_self with rfl | rfl <;> cases hd
    change (decide (mark ∈ ['x', 'X', 'o', 'O', 'b', 'B']) && isEnd (d :: digits ++ stop)) = false
    rw [hnot, Bool.and_false]
  | decimal h =>
    split
    · next mark rest htext =>
      have hmark : mark ∈ magnitude ++ stop := by simp [htext]
      have hother : mark ∉ ['x', 'X', 'o', 'O', 'b', 'B'] := by
        refine not_mark ?_
        rcases List.mem_append.mp hmark with hmark | hmark
        · exact (h.mem hmark).imp_right fun hmem => List.mem_append_left ['n', '\n'] hmem
        · rcases isEnd_mem hend hmark with rfl | rfl <;> simp
      rw [decide_eq_false hother, Bool.false_and]
    · rfl

theorem bare_of_sign {sign body : List Char} (hsign : ∀ c ∈ sign, isSign c)
    (h : text.filter (· != '_') = sign ++ body) (hhead : ∀ c ∈ body.head?, isSign c = false) : bare text = body := by
  rw [bare, h, List.dropWhile_append_of_pos hsign]
  cases body with
  | nil => rfl
  | cons c rest => exact List.dropWhile_cons_of_neg (by simp [hhead c rfl])

theorem bare_unsigned {magnitude stop : List Char} (h : text.filter (· != '_') = magnitude ++ stop)
    (hmagnitude : IsMagnitude magnitude) : bare text = magnitude ++ stop := by
  have hnone : ∀ c ∈ [], isSign c := List.forall_mem_nil _
  exact bare_of_sign hnone h hmagnitude.head

end Values

end NumberLiteral

end ComponentDoc
