import ComponentDoc.Number.Reading
import Mathlib.Data.List.Basic
import Mathlib.Data.List.TakeDrop
import Mathlib.Data.List.TakeWhile

namespace ComponentDoc

open Text

/-! Characters -/

section Characters

variable {c : Char} {base : Nat}

theorem plainChar_of_lt (h : c.toNat < 0x80) : plainChar c = c := by
  have hall : ∀ n < 0x80, plainChar (Char.ofNat n) = Char.ofNat n := by decide
  simpa using hall c.toNat h

theorem isDigit_plainChar (h : isDigit c) : (plainChar c).isDigit := by
  have hall : ∀ d < 10, (Nat.digitChar d).isDigit := by decide
  obtain ⟨d, hd⟩ := Option.isSome_iff_exists.mp h
  rw [plainChar, hd]
  exact hall d (digit?_lt hd)

theorem toNat_of_isDigit (h : c.isDigit) : 48 ≤ c.toNat ∧ c.toNat ≤ 57 := by
  simpa [Char.isDigit, UInt32.le_iff_toNat_le] using h

theorem isDigit_of_ascii (h : c.isDigit) : isDigit c := by
  have hall : ∀ n < 58, 48 ≤ n → isDigit (Char.ofNat n) := by decide
  obtain ⟨hlow, hhigh⟩ := toNat_of_isDigit h
  simpa using hall c.toNat (by omega) hlow

theorem digitIn?_of_isDigit (h : c.isDigit) : (digitIn? 10 c).isSome := by
  have hall : ∀ n < 58, 48 ≤ n → (digitIn? 10 (Char.ofNat n)).isSome := by decide
  obtain ⟨hlow, hhigh⟩ := toNat_of_isDigit h
  simpa using hall c.toNat (by omega) hlow

theorem toNat_of_digitIn? (h : (digitIn? base c).isSome) :
    48 ≤ c.toNat ∧ c.toNat ≤ 57 ∨ 65 ≤ c.toNat ∧ c.toNat ≤ 70 ∨ 97 ≤ c.toNat ∧ c.toNat ≤ 102 := by
  unfold digitIn? at h
  dsimp only at h
  split at h
  · next hc => exact .inl ⟨Char.le_def.mp hc.1, Char.le_def.mp hc.2⟩
  split at h
  · next hc => exact .inr (.inr ⟨Char.le_def.mp hc.1, Char.le_def.mp hc.2⟩)
  split at h
  · next hc => exact .inr (.inl ⟨Char.le_def.mp hc.1, Char.le_def.mp hc.2⟩)
  · cases h

theorem not_blank_of_digitIn? (h : (digitIn? base c).isSome) : isAsciiBlank c = false := by
  have hcodes := toNat_of_digitIn? h
  have hspace : c ≠ ' ' := by
    rintro rfl
    revert hcodes
    decide
  simp only [isAsciiBlank, beq_eq_false_iff_ne.mpr hspace, Bool.false_or, Bool.and_eq_false_iff,
    decide_eq_false_iff_not]
  omega

theorem digitIn?_big : digitIn? base 'n' = none := rfl

end Characters

section Blanks

variable {p : Char → Bool}

theorem dropEndWhile_append {front back : List Char} (hfront : ∀ c ∈ front, p c = false)
    (hback : ∀ c ∈ back, p c) : dropEndWhile p (front ++ back) = front := by
  rw [dropEndWhile, List.reverse_append, List.dropWhile_append_of_pos fun c hc => hback c (List.mem_reverse.mp hc),
    List.dropWhile_eq_self_iff.mpr, List.reverse_reverse]
  intro hlength
  simp [hfront]

theorem dropWhile_eq_self {text : List Char} (h : ∀ c ∈ text, p c = false) : text.dropWhile p = text := by
  cases text with
  | nil => rfl
  | cons c text => exact List.dropWhile_cons_of_neg (by simp [h c])

theorem plainNumeral_append {text blanks : List Char} (htext : ∀ c ∈ text, isAsciiBlank (plainChar c) = false)
    (hblanks : ∀ c ∈ blanks, isAsciiBlank (plainChar c)) : plainNumeral (text ++ blanks) = text.map plainChar := by
  have hmap : ∀ c ∈ text.map plainChar, isAsciiBlank c = false := List.forall_mem_map.mpr htext
  have hmap' : ∀ c ∈ blanks.map plainChar, isAsciiBlank c := List.forall_mem_map.mpr hblanks
  rw [plainNumeral, List.map_append, List.dropWhile_append, dropWhile_eq_self hmap]
  split
  · next hempty =>
    rw [List.isEmpty_iff.mp hempty, List.dropWhile_eq_nil_iff.mpr hmap']
    rfl
  · exact dropEndWhile_append hmap hmap'

end Blanks

/-- Nothing, or the letter of a big integer, which no number ends in. -/
def IsLetter (big : List Char) : Prop := big = [] ∨ big = ['n']

theorem IsLetter.eq_of_mem {big : List Char} (h : IsLetter big) {c : Char} (hc : c ∈ big) : c = 'n' := by
  rcases h with rfl | rfl
  · cases hc
  · exact List.mem_singleton.mp hc

theorem plainNumeral_letter {text big blanks : List Char}
    (htext : ∀ c ∈ text, isAsciiBlank (plainChar c) = false) (hbig : IsLetter big)
    (hblanks : ∀ c ∈ blanks, isAsciiBlank (plainChar c)) :
    plainNumeral (text ++ big ++ blanks) = text.map plainChar ++ big := by
  have hall : ∀ c ∈ text ++ big, isAsciiBlank (plainChar c) = false := by
    refine List.forall_mem_append.mpr ⟨htext, fun c hc => ?_⟩
    rw [hbig.eq_of_mem hc]
    rfl
  have hmap : big.map plainChar = big := by
    rcases hbig with rfl | rfl <;> rfl
  rw [plainNumeral_append hall hblanks, List.map_append, hmap]

/-! Whole numbers -/

section Whole

variable {base : Nat} {digits big blanks : List Char}

theorem naturalFrom_isSome_iff {n : Nat} (h : ∀ d ∈ digits, (digitIn? base d).isSome) (hbig : IsLetter big) :
    (naturalFrom base n (digits ++ big)).isSome ↔ big = [] := by
  induction digits generalizing n with
  | nil => rcases hbig with rfl | rfl <;> simp [naturalFrom, digitIn?_big]
  | cons d digits ih =>
    obtain ⟨hd, hdigits⟩ := List.forall_mem_cons.mp h
    obtain ⟨k, hk⟩ := Option.isSome_iff_exists.mp hd
    have hline : d ≠ '_' := by
      rintro rfl
      cases hd
    rw [List.cons_append, naturalFrom]
    · rw [hk]
      exact ih hdigits
    · intro c rest hd'
      exact absurd hd' hline

theorem natural?_isSome_iff (h : ∀ d ∈ digits, (digitIn? base d).isSome) (hbig : IsLetter big) :
    (natural? base (digits ++ big)).isSome ↔ digits ≠ [] ∧ big = [] := by
  cases digits with
  | nil => rcases hbig with rfl | rfl <;> simp [natural?, digitIn?_big]
  | cons d digits =>
    obtain ⟨hd, hdigits⟩ := List.forall_mem_cons.mp h
    obtain ⟨k, hk⟩ := Option.isSome_iff_exists.mp hd
    rw [List.cons_append, natural?, hk, Option.bind_some, naturalFrom_isSome_iff hdigits hbig]
    simp

theorem digitIn?_of_baseMark? {c : Char} (h : baseMark? base c) : digitIn? base c = none := by
  unfold baseMark? at h
  split at h
  · rcases (by simpa using h : c = 'b' ∨ c = 'B') with rfl | rfl <;> rfl
  · rcases (by simpa using h : c = 'o' ∨ c = 'O') with rfl | rfl <;> rfl
  · rcases (by simpa using h : c = 'x' ∨ c = 'X') with rfl | rfl <;> rfl
  · cases h

theorem markedNatural?_eq (h : ∀ d ∈ digits, (digitIn? base d).isSome) (hbig : IsLetter big) :
    markedNatural? base (digits ++ big) = natural? base (digits ++ big) := by
  unfold markedNatural?
  split
  · next m rest htext =>
    refine if_neg fun hmark => ?_
    have hm : m ∈ digits ++ big := by simp [htext]
    rcases List.mem_append.mp hm with hm | hm
    · have hdigit := h m hm
      rw [digitIn?_of_baseMark? hmark] at hdigit
      cases hdigit
    · rw [hbig.eq_of_mem hm] at hmark
      unfold baseMark? at hmark
      split at hmark <;> cases hmark
  · rfl

theorem countedDigits_eq (h : ∀ d ∈ digits, (digitIn? base d).isSome) :
    countedDigits base digits = if base ∈ [2, 8, 16] then 0 else digits.length := by
  have hrun : (digits.takeWhile fun c => (digitIn? base c).isSome || c == '_') = digits :=
    List.takeWhile_eq_self_iff.mpr fun d hd => by simp [h d hd]
  have hlines : digits.filter (· != '_') = digits := List.filter_eq_self.mpr fun d hd => by
    rw [bne_iff_ne]
    rintro rfl
    cases h '_' hd
  have hnone : (natural? base digits).isNone ↔ digits = [] := by
    have hsome := natural?_isSome_iff h (.inl rfl)
    rw [List.append_nil] at hsome
    rw [← Option.not_isSome, Bool.not_eq_true', ← Bool.not_eq_true, hsome]
    simp
  unfold countedDigits
  rw [hrun]
  dsimp only
  rw [hlines]
  by_cases hempty : digits = []
  · subst hempty
    simp
  · simp [hnone, hempty]

theorem lt_countedDigits_iff (h : ∀ d ∈ digits, (digitIn? base d).isSome) :
    maxDigits < countedDigits base digits ↔ base ∉ [2, 8, 16] ∧ maxDigits < digits.length := by
  rw [countedDigits_eq h]
  by_cases hbase : base ∈ [2, 8, 16]
  · rw [if_pos hbase]
    exact iff_of_false (Nat.not_lt_zero _) fun hboth => hboth.1 hbase
  · rw [if_neg hbase, and_iff_right hbase]

theorem cutSign_eq {text : List Char} (h : ∀ c ∈ text.head?, c ≠ '+' ∧ c ≠ '-') : cutSign text = (false, text) := by
  unfold cutSign
  split
  · exact absurd rfl (h '-' rfl).2
  · exact absurd rfl (h '+' rfl).1
  · rfl

theorem readInteger_isOk_iff (h : ∀ d ∈ digits, (digitIn? base (plainChar d)).isSome) (hbig : IsLetter big)
    (hblanks : ∀ c ∈ blanks, isAsciiBlank (plainChar c)) :
    (readInteger base (digits ++ big ++ blanks)).isOk ↔
      digits ≠ [] ∧ big = [] ∧ (base ∉ [2, 8, 16] → digits.length ≤ maxDigits) := by
  have hplain := plainNumeral_letter (fun d hd => not_blank_of_digitIn? (h d hd)) hbig hblanks
  have hdigits : ∀ d ∈ digits.map plainChar, (digitIn? base d).isSome := List.forall_mem_map.mpr h
  have hsign : cutSign (digits.map plainChar ++ big) = (false, digits.map plainChar ++ big) := by
    refine cutSign_eq fun c hc => ?_
    rcases List.mem_append.mp (List.mem_of_mem_head? hc) with hc | hc
    · have hcodes := toNat_of_digitIn? (hdigits c hc)
      constructor <;>
      · rintro rfl
        revert hcodes
        decide
    · rw [hbig.eq_of_mem hc]
      decide
  have hsome := natural?_isSome_iff hdigits hbig
  rw [← markedNatural?_eq hdigits hbig, ne_eq, List.map_eq_nil_iff] at hsome
  unfold readInteger
  rw [hplain, hsign]
  dsimp only
  cases hmarked : markedNatural? base (digits.map plainChar ++ big) with
  | none =>
    rw [hmarked] at hsome
    have hnot : ¬(digits ≠ [] ∧ big = []) := fun hboth => by cases hsome.mpr hboth
    refine iff_of_false (fun hok => ?_) fun hall => hnot ⟨hall.1, hall.2.1⟩
    split at hok <;> cases hok
  | some n =>
    obtain ⟨hne, rfl⟩ := hsome.mp (by rw [hmarked]; rfl)
    rw [List.append_nil]
    split
    · next hlong =>
      obtain ⟨hbase, hlong⟩ := (lt_countedDigits_iff hdigits).mp hlong
      rw [List.length_map] at hlong
      exact iff_of_false nofun fun hall => Nat.not_le.mpr hlong (hall.2.2 hbase)
    · next hshort =>
      rw [lt_countedDigits_iff hdigits, List.length_map] at hshort
      exact iff_of_true rfl ⟨hne, rfl, fun hbase => Nat.not_lt.mp fun hlong => hshort ⟨hbase, hlong⟩⟩

end Whole

/-! Floating-point numbers -/

inductive IsExponent (isDigit : Char → Bool) : List Char → Prop
  | nothing : IsExponent isDigit []
  | written {mark : Char} {sign digits : List Char} : mark = 'e' ∨ mark = 'E' → sign ∈ [[], ['+'], ['-']] →
      digits ≠ [] → (∀ d ∈ digits, isDigit d) → IsExponent isDigit (mark :: (sign ++ digits))

inductive IsDecimal (isDigit : Char → Bool) : List Char → Prop
  | whole {digits exponent : List Char} : digits ≠ [] → (∀ d ∈ digits, isDigit d) → IsExponent isDigit exponent →
      IsDecimal isDigit (digits ++ exponent)
  | pointed {whole fraction exponent : List Char} : whole ++ fraction ≠ [] → (∀ d ∈ whole ++ fraction, isDigit d) →
      IsExponent isDigit exponent → IsDecimal isDigit (whole ++ '.' :: (fraction ++ exponent))

section Decimals

variable {isDigit : Char → Bool} {text exponent big blanks : List Char} {c : Char}

theorem IsExponent.mem (h : IsExponent isDigit exponent) (hc : c ∈ exponent) :
    isDigit c ∨ c ∈ ['e', 'E', '+', '-'] := by
  cases h with
  | nothing => cases hc
  | @written mark sign digits hmark hsign _ hdigits =>
    rw [List.mem_cons, List.mem_append] at hc
    rcases hc with rfl | hc | hc
    · rcases hmark with rfl | rfl <;> simp
    · simp only [List.mem_cons, List.not_mem_nil, or_false] at hsign
      rcases hsign with rfl | rfl | rfl <;> simp_all
    · exact .inl (hdigits c hc)

theorem IsDecimal.mem (h : IsDecimal isDigit text) (hc : c ∈ text) :
    isDigit c ∨ c ∈ ['.', 'e', 'E', '+', '-'] := by
  have hexponent {exponent : List Char} (h : IsExponent isDigit exponent) (hc : c ∈ exponent) :
      isDigit c ∨ c ∈ ['.', 'e', 'E', '+', '-'] := (h.mem hc).imp_right (List.mem_cons_of_mem _)
  cases h with
  | whole _ hdigits hexp =>
    rcases List.mem_append.mp hc with hc | hc
    · exact .inl (hdigits c hc)
    · exact hexponent hexp hc
  | pointed _ hdigits hexp =>
    rw [List.mem_append, List.mem_cons, List.mem_append] at hc
    rcases hc with hc | rfl | hc | hc
    · exact .inl (hdigits c (List.mem_append_left _ hc))
    · simp
    · exact .inl (hdigits c (List.mem_append_right _ hc))
    · exact hexponent hexp hc

theorem IsExponent.plain (h : IsExponent Text.isDigit exponent) :
    IsExponent Char.isDigit (exponent.map plainChar) := by
  cases h with
  | nothing => exact .nothing
  | @written mark sign digits hmark hsign hne hdigits =>
    have hmark' : plainChar mark = mark := by rcases hmark with rfl | rfl <;> rfl
    have hsign' : sign.map plainChar = sign := by
      simp only [List.mem_cons, List.not_mem_nil, or_false] at hsign
      rcases hsign with rfl | rfl | rfl <;> rfl
    rw [List.map_cons, List.map_append, hmark', hsign']
    exact .written hmark hsign (by simpa using hne)
      (List.forall_mem_map.mpr fun d hd => isDigit_plainChar (hdigits d hd))

theorem IsDecimal.plain (h : IsDecimal Text.isDigit text) : IsDecimal Char.isDigit (text.map plainChar) := by
  have hplain {digits : List Char} (h : ∀ d ∈ digits, Text.isDigit d) : ∀ d ∈ digits.map plainChar, d.isDigit :=
    List.forall_mem_map.mpr fun d hd => isDigit_plainChar (h d hd)
  cases h with
  | whole hne hdigits hexp =>
    rw [List.map_append]
    exact .whole (by simpa using hne) (hplain hdigits) hexp.plain
  | pointed hne hdigits hexp =>
    rw [List.map_append, List.map_cons, List.map_append]
    exact .pointed (by simpa using hne) (by simpa using hplain hdigits) hexp.plain

theorem cutSign_digits {digits : List Char} (h : ∀ d ∈ digits, d.isDigit) (hbig : IsLetter big) :
    cutSign (digits ++ big) = (false, digits ++ big) := by
  refine cutSign_eq fun c hc => ?_
  rcases List.mem_append.mp (List.mem_of_mem_head? hc) with hc | hc
  · have hdigit := h c hc
    constructor <;>
    · rintro rfl
      cases hdigit
  · rw [hbig.eq_of_mem hc]
    decide

theorem exponentOf?_isSome_iff (h : IsExponent Char.isDigit exponent) (hbig : IsLetter big) :
    (exponentOf? (exponent ++ big)).isSome ↔ big = [] := by
  cases h with
  | nothing => rcases hbig with rfl | rfl <;> simp [exponentOf?]
  | @written mark sign digits hmark hsign hne hdigits =>
    have hcut : (cutSign (sign ++ digits ++ big)).2 = digits ++ big := by
      simp only [List.mem_cons, List.not_mem_nil, or_false] at hsign
      rcases hsign with rfl | rfl | rfl
      · rw [List.nil_append, cutSign_digits hdigits hbig]
      · rfl
      · rfl
    rw [List.cons_append, exponentOf?, if_pos hmark]
    dsimp only
    rw [hcut]
    have hsome := natural?_isSome_iff (fun d hd => digitIn?_of_isDigit (hdigits d hd)) hbig
    split
    · rw [Option.isSome_map, hsome]
      exact and_iff_right hne
    · next hnot =>
      refine iff_of_false nofun ?_
      rintro rfl
      exact hnot ⟨by simpa using hne, List.all_eq_true.mpr (by simpa using hdigits)⟩

theorem IsExponent.head (h : IsExponent isDigit exponent) (hbig : IsLetter big) :
    ∀ c ∈ (exponent ++ big).head?, c ∈ ['e', 'E', 'n'] := by
  intro c hc
  cases h with
  | nothing =>
    rw [hbig.eq_of_mem (List.mem_of_mem_head? hc)]
    simp
  | written hmark =>
    obtain rfl := Option.some.inj hc
    rcases hmark with rfl | rfl <;> simp

theorem span_isDigit {digits rest : List Char} (hdigits : ∀ d ∈ digits, d.isDigit)
    (hrest : ∀ c ∈ rest.head?, c ∈ ['.', 'e', 'E', 'n']) : (digits ++ rest).span Char.isDigit = (digits, rest) := by
  rw [List.span_eq_takeWhile_dropWhile, List.takeWhile_append_of_pos hdigits, List.dropWhile_append_of_pos hdigits]
  cases rest with
  | nil => simp
  | cons c rest =>
    have hc : c.isDigit = false := by
      have hmem := hrest c rfl
      simp only [List.mem_cons, List.not_mem_nil, or_false] at hmem
      rcases hmem with rfl | rfl | rfl | rfl <;> rfl
    rw [List.takeWhile_cons_of_neg (by simp [hc]), List.dropWhile_cons_of_neg (by simp [hc]), List.append_nil]

theorem cutFraction_eq {rest : List Char} (h : ∀ c ∈ rest.head?, c ∈ ['e', 'E', 'n']) :
    cutFraction rest = ([], rest) := by
  unfold cutFraction
  split
  · exact absurd (h '.' rfl) (by decide)
  · rfl

theorem decimal?_isSome {negative : Bool} {whole fraction after tail : List Char}
    (hafter : text.span Char.isDigit = (whole, after)) (htail : cutFraction after = (fraction, tail))
    (hne : whole ++ fraction ≠ []) (hdigits : ∀ d ∈ whole ++ fraction, d.isDigit) :
    (decimal? negative text).isSome = (exponentOf? tail).isSome := by
  have hsome := natural?_isSome_iff (fun d hd => digitIn?_of_isDigit (hdigits d hd)) (.inl rfl)
  rw [List.append_nil] at hsome
  obtain ⟨n, hn⟩ := Option.isSome_iff_exists.mp (hsome.mpr ⟨hne, rfl⟩)
  rw [decimal?, hafter]
  dsimp only
  rw [htail]
  dsimp only
  rw [hn]
  cases exponentOf? tail <;> rfl

theorem decimal?_isSome_iff {negative : Bool} (h : IsDecimal Char.isDigit text) (hbig : IsLetter big) :
    (decimal? negative (text ++ big)).isSome ↔ big = [] := by
  cases h with
  | @whole digits exponent hne hdigits hexp =>
    have hhead := hexp.head hbig
    have hspan := span_isDigit hdigits fun c hc => List.mem_cons_of_mem _ (hhead c hc)
    rw [List.append_assoc, decimal?_isSome hspan (cutFraction_eq hhead) (by simpa using hne) (by simpa using hdigits)]
    exact exponentOf?_isSome_iff hexp hbig
  | @pointed whole fraction exponent hne hdigits hexp =>
    obtain ⟨hwhole, hfraction⟩ := List.forall_mem_append.mp hdigits
    have hspan : (whole ++ '.' :: (fraction ++ (exponent ++ big))).span Char.isDigit =
        (whole, '.' :: (fraction ++ (exponent ++ big))) := span_isDigit hwhole (by simp)
    have hcut : cutFraction ('.' :: (fraction ++ (exponent ++ big))) = (fraction, exponent ++ big) :=
      span_isDigit hfraction fun c hc => List.mem_cons_of_mem _ (hexp.head hbig c hc)
    rw [List.append_assoc, List.cons_append, List.append_assoc, decimal?_isSome hspan hcut hne hdigits]
    exact exponentOf?_isSome_iff hexp hbig

theorem hasStrayLowLine_eq_false {before : Bool} (h : '_' ∉ text) : hasStrayLowLine before text = false := by
  induction text generalizing before with
  | nil => rfl
  | cons c text ih =>
    obtain ⟨hc, htext⟩ := not_or.mp (List.mem_cons.not.mp h)
    rw [hasStrayLowLine]
    · exact ih htext
    · rintro rfl
      exact hc rfl

theorem IsDecimal.exists_head (h : IsDecimal isDigit text) : ∃ c ∈ text.head?, isDigit c ∨ c = '.' := by
  have hhead {digits rest : List Char} (hne : digits ≠ []) (hdigits : ∀ d ∈ digits, isDigit d) :
      ∃ c ∈ (digits ++ rest).head?, isDigit c ∨ c = '.' := by
    obtain ⟨d, digits, rfl⟩ := List.exists_cons_of_ne_nil hne
    exact ⟨d, rfl, .inl (hdigits d List.mem_cons_self)⟩
  cases h with
  | whole hne hdigits _ => exact hhead hne hdigits
  | @pointed whole fraction exponent _ hdigits _ =>
    by_cases hwhole : whole = []
    · exact ⟨'.', by simp [hwhole], .inr rfl⟩
    · exact hhead hwhole fun d hd => hdigits d (List.mem_append_left _ hd)

theorem IsDecimal.ne_nil (h : IsDecimal isDigit text) : text ≠ [] := by
  rintro rfl
  obtain ⟨c, hc, -⟩ := h.exists_head
  cases hc

theorem readDouble_isOk_iff (h : IsDecimal Text.isDigit text) (hbig : IsLetter big)
    (hblanks : ∀ c ∈ blanks, isAsciiBlank (plainChar c)) : (readDouble (text ++ big ++ blanks)).isOk ↔ big = [] := by
  have hchars : ∀ c ∈ text.map plainChar, c.isDigit ∨ c ∈ ['.', 'e', 'E', '+', '-'] := fun c hc => h.plain.mem hc
  have hsigns : ∀ c ∈ ['.', 'e', 'E', '+', '-'], isAsciiBlank c = false ∧ c ≠ '_' := by simp [isAsciiBlank]
  have hnot {c : Char} (hc : c ∈ text.map plainChar ++ big) : isAsciiBlank c = false ∧ c ≠ '_' := by
    rcases List.mem_append.mp hc with hc | hc
    · rcases hchars c hc with hdigit | hmem
      · refine ⟨not_blank_of_digitIn? (digitIn?_of_isDigit hdigit), ?_⟩
        rintro rfl
        cases hdigit
      · exact hsigns c hmem
    · rw [hbig.eq_of_mem hc]
      decide
  have hplain := plainNumeral_letter
    (List.forall_mem_map.mp fun c hc => (hnot (List.mem_append_left big hc)).1) hbig hblanks
  have hlines : '_' ∉ text.map plainChar ++ big := fun hmem => (hnot hmem).2 rfl
  obtain ⟨c, hc, hdigit⟩ := h.plain.exists_head
  obtain ⟨rest, hrest⟩ := List.head?_eq_some_iff.mp hc
  have hcodes : c.toNat = 46 ∨ 48 ≤ c.toNat ∧ c.toNat ≤ 57 := by
    rcases hdigit with hdigit | rfl
    · exact .inr (toNat_of_isDigit hdigit)
    · exact .inl rfl
  have hsign : cutSign (text.map plainChar ++ big) = (false, text.map plainChar ++ big) := by
    refine cutSign_eq fun d hd => ?_
    rw [hrest] at hd
    obtain rfl := Option.some.inj hd
    constructor <;>
    · rintro rfl
      revert hcodes
      decide
  have hlower : ∀ s : String, s.toList.head? ∈ [some 'i', some 'n'] →
      String.ofList ((text.map plainChar ++ big).map Char.toLower) ≠ s := by
    have hall : ∀ n < 58, n = 46 ∨ 48 ≤ n → (Char.ofNat n).toLower ≠ 'i' ∧ (Char.ofNat n).toLower ≠ 'n' := by decide
    have hletters := hall c.toNat (by omega) (by omega)
    rintro s hs rfl
    rw [String.toList_ofList, hrest] at hs
    simp_all
  unfold readDouble
  rw [hplain, hsign]
  dsimp only
  rw [if_neg (not_or.mpr ⟨hlower "inf" (by decide), hlower "infinity" (by decide)⟩), if_neg (hlower "nan" (by decide)),
    hasStrayLowLine_eq_false hlines, if_neg Bool.false_ne_true,
    List.filter_eq_self.mpr fun d hd => bne_iff_ne.mpr (hnot hd).2]
  have hsome : (decimal? false (text.map plainChar ++ big)).isSome ↔ big = [] := decimal?_isSome_iff h.plain hbig
  split
  · next x hx =>
    rw [hx] at hsome
    exact iff_of_true rfl (hsome.mp rfl)
  · next hx =>
    rw [hx] at hsome
    exact iff_of_false nofun fun hnil => by cases hsome.mpr hnil

end Decimals

end ComponentDoc
