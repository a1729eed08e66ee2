import ComponentDoc.Proofs.Literal.Number
import ComponentDoc.Proofs.Number.Digits

namespace ComponentDoc

namespace NumberLiteral

open Text Script

inductive Spaced : List Char → List Char → Prop
  | last (d : Char) : Spaced [d] [d]
  | cons (d : Char) (lines : Nat) {digits text : List Char} :
      Spaced digits text → Spaced (d :: digits) (d :: (List.replicate lines '_' ++ text))

/-- A text writes the number `m`, without a sign, in a base: in base 10, in a base whose mark comes first, or in
base 8 behind a zero. -/
inductive Writes (m : Nat) : Nat → List Char → Prop
  | decimal {text : List Char} : Spaced (Nat.toDigits 10 m) text → Writes m 10 text
  | marked {base : Nat} {mark : Char} {digits text : List Char} : baseMark? base mark → IsDigitsOf base m digits →
      Spaced digits text → Writes m base ('0' :: mark :: text)
  | octal {digits text : List Char} : digits ≠ [] → (∀ c ∈ digits, isOctalDigit c) →
      Nat.ofDigitChars 8 digits 0 = m → Spaced ('0' :: digits) text → Writes m 8 text

variable {base m : Nat} {mark : Char} {digits text sign big : List Char}

section Spaced

theorem Spaced.mem (h : Spaced digits text) : ∀ c ∈ text, c ∈ digits ∨ c = '_' := by
  induction h with
  | last d =>
    intro c hc
    exact .inl hc
  | cons d lines _ ih =>
    intro c hc
    rw [List.mem_cons, List.mem_append] at hc
    rcases hc with rfl | hline | hc
    · exact .inl List.mem_cons_self
    · exact .inr (List.eq_of_mem_replicate hline)
    · exact (ih c hc).imp_left (List.mem_cons_of_mem _)

theorem Spaced.filter (h : Spaced digits text) (hdigits : '_' ∉ digits) : text.filter (· != '_') = digits := by
  induction h with
  | last d =>
    apply List.filter_eq_self.mpr
    intro c hc
    rw [bne_iff_ne]
    rintro rfl
    exact hdigits hc
  | cons d lines _ ih =>
    obtain ⟨hd, hrest⟩ := not_or.mp (mt List.mem_cons.mpr hdigits)
    rw [List.filter_cons_of_pos (by simpa using Ne.symm hd), List.filter_append, List.filter_replicate_of_neg (by simp),
      List.nil_append, ih hrest]

theorem Spaced.self (hne : digits ≠ []) : Spaced digits digits := by
  induction digits with
  | nil => exact absurd rfl hne
  | cons d digits ih =>
    cases digits with
    | nil => exact .last d
    | cons e digits => exact .cons d 0 (ih (List.cons_ne_nil _ _))

end Spaced

section Digits

theorem not_lowLine_of_digitIn? (h : ∀ c ∈ digits, (digitIn? base c).isSome) : '_' ∉ digits := by
  intro hmem
  cases h '_' hmem

theorem bounds_of_baseMark? (h : baseMark? base mark) : base ∈ [2, 8, 16] ∧ 1 < base ∧ base ≤ 16 := by
  unfold baseMark? at h
  split at h
  · decide
  · decide
  · decide
  · cases h

theorem eq_zero_of_head_toDigits (hbase : 1 < base) (h : (Nat.toDigits base m).head? = some '0') : m = 0 := by
  induction m using Nat.strongRecOn with
  | ind m ih =>
    rw [Nat.toDigits_eq_if hbase] at h
    split at h
    · exact Nat.digitChar_eq_zero.mp (Option.some.inj h)
    · next hm =>
      rw [List.head?_append_of_ne_nil _ Nat.toDigits_ne_nil] at h
      have hdiv := ih _ (Nat.div_lt_self (by omega) hbase) h
      have hsmall := (Nat.div_eq_zero_iff.mp hdiv).resolve_left (by omega)
      exact absurd hsmall hm

theorem isBinaryDigit_of_digitIn? {c : Char} (h : (digitIn? 2 c).isSome) : (c == '0' || c == '1') :=
  forall_digitIn? (fun c => c == '0' || c == '1') (by decide) h

theorem isOctalDigit_of_digitIn? {c : Char} (h : (digitIn? 8 c).isSome) : isOctalDigit c :=
  forall_digitIn? isOctalDigit (by decide) h

theorem isHex_of_digitIn? {c : Char} (h : (digitIn? 16 c).isSome) : isHex c :=
  forall_digitIn? isHex (by decide) h

theorem isDigit_of_digitIn? {c : Char} (hbase : base ≤ 10) (h : (digitIn? base c).isSome) : isDigit c := by
  have hall : ∀ base < 11, ∀ n < 103, (digitIn? base (Char.ofNat n)).isSome → (Char.ofNat n).isDigit := by decide
  exact isDigit_of_ascii (forall_digitIn? Char.isDigit (hall base (by omega)) h)

theorem isSign_of_isDigit {c : Char} (h : isDigit c) : isSign c = false := by
  rw [← Bool.not_eq_true]
  intro hsign
  rcases (by simpa [isSign] using hsign : c = '+' ∨ c = '-') with rfl | rfl <;> exact absurd h (by decide)

theorem isDecimal_of_digits (hbase : base ≤ 10) (hne : digits ≠ []) (h : ∀ c ∈ digits, (digitIn? base c).isSome) :
    IsDecimal isDigit digits := by
  rw [← List.append_nil digits]
  exact .whole hne (fun c hc => isDigit_of_digitIn? hbase (h c hc)) .nothing

theorem digitIn?_of_toDigits : ∀ c ∈ Nat.toDigits 10 m, (digitIn? 10 c).isSome :=
  fun _ => digitIn?_of_mem_toDigits (by decide) (by decide)

theorem digitIn?_cons_zero (h : ∀ c ∈ digits, isOctalDigit c) : ∀ c ∈ '0' :: digits, (digitIn? 8 c).isSome := by
  rw [List.forall_mem_cons]
  exact ⟨rfl, fun c hc => (digitIn?_of_isOctalDigit (h c hc)).2⟩

theorem withDigits_octal (h : ∀ c ∈ digits, isOctalDigit c) (n : Nat) :
    withDigits 8 n digits = Nat.ofDigitChars 8 digits n := by
  apply withDigits_eq_foldl (by decide)
  exact fun c hc => (digitIn?_of_isOctalDigit (h c hc)).2

end Digits

section Value

theorem isSign_of_mem_sign (hsign : sign ∈ [[], ['+'], ['-']]) : ∀ c ∈ sign, isSign c := by
  simp only [List.mem_cons, List.not_mem_nil, or_false] at hsign
  rcases hsign with rfl | rfl | rfl <;> simp [isSign]

theorem readInteger_unlimited (hbase : base ∈ [2, 8, 16]) (hne : digits ≠ [])
    (h : ∀ c ∈ digits, (digitIn? base c).isSome) : readInteger base digits = .ok (withDigits base 0 digits) := by
  rw [readInteger_eq hne h, if_neg fun hlong => hlong.1 hbase]

theorem unsigned_toDigits (m : Nat) : unsigned (Nat.toDigits 10 m) =
    if 10 ^ maxDigits ≤ m then .error (.tooManyDigits (Nat.toDigits 10 m).length) else .ok (.int m) := by
  have hne : Nat.toDigits 10 m ≠ [] := Nat.toDigits_ne_nil
  have hdigits : ∀ c ∈ Nat.toDigits 10 m, isDigit c :=
    fun c hc => isDigit_of_digitIn? (by decide) (digitIn?_of_toDigits c hc)
  have hoctal : ¬(isOctal (Nat.toDigits 10 m) ∧ 1 < (Nat.toDigits 10 m).length) := by
    rintro ⟨hoctal, hlength⟩
    have hhead : (Nat.toDigits 10 m).head? = some '0' := by simpa using (Bool.and_eq_true_iff.mp hoctal).1
    rw [eq_zero_of_head_toDigits (by decide) hhead] at hlength
    exact absurd hlength (by decide)
  have hlong : maxDigits < (Nat.toDigits 10 m).length ↔ 10 ^ maxDigits ≤ m := by
    rw [← Nat.not_le, Nat.length_toDigits_le_iff (by decide) (by decide), Nat.not_lt]
  rw [unsigned_unmarked fun c hc => not_mark (.inl (hdigits c hc)), if_neg hoctal,
    if_pos ⟨hne, List.all_eq_true.mpr hdigits⟩, readInteger_eq hne digitIn?_of_toDigits,
    withDigits_toDigits (by decide) (by decide)]
  by_cases hm : 10 ^ maxDigits ≤ m
  · rw [if_pos ⟨by decide, hlong.mpr hm⟩, if_pos hm]
    rfl
  · rw [if_neg fun h => hm (hlong.mp h.2), if_neg hm]
    rfl

theorem unsigned_octal (hne : digits ≠ []) (h : ∀ c ∈ digits, isOctalDigit c) :
    unsigned ('0' :: digits) = .ok (.int (Nat.ofDigitChars 8 digits 0)) := by
  have hall := digitIn?_cons_zero h
  have hoctal : isOctal ('0' :: digits) ∧ 1 < ('0' :: digits).length := by
    constructor
    · exact Bool.and_eq_true_iff.mpr ⟨rfl, List.all_eq_true.mpr (List.forall_mem_cons.mpr ⟨rfl, h⟩)⟩
    · exact Nat.succ_lt_succ (List.length_pos_of_ne_nil hne)
  have hdigits : ∀ c ∈ '0' :: digits, isDigit c := fun c hc => isDigit_of_digitIn? (by decide) (hall c hc)
  rw [unsigned_unmarked fun c hc => not_mark (.inl (hdigits c hc)), if_pos hoctal,
    readInteger_unlimited (by decide) (List.cons_ne_nil _ _) hall, ← withDigits_octal h]
  rfl

theorem Writes.unsigned (h : Writes m base text) : ∃ magnitude, text.filter (· != '_') = magnitude ∧
    IsMagnitude magnitude ∧ unsigned magnitude =
      if base = 10 ∧ 10 ^ maxDigits ≤ m then .error (.tooManyDigits (Nat.toDigits 10 m).length)
      else .ok (.int m) := by
  cases h with
  | decimal hspaced =>
    refine ⟨_, hspaced.filter (not_lowLine_of_digitIn? digitIn?_of_toDigits), ?_, ?_⟩
    · exact .decimal (isDecimal_of_digits (by decide) Nat.toDigits_ne_nil digitIn?_of_toDigits)
    · simp only [unsigned_toDigits, true_and]
  | @marked _ mark digits text hmark hdigits hspaced =>
    obtain ⟨hbase, hlow, hhigh⟩ := bounds_of_baseMark? hmark
    have hall := hdigits.digitIn? hlow hhigh
    have hline : mark ≠ '_' := by
      rintro rfl
      exact absurd (mem_of_baseMark? hmark) (by decide)
    have hten : base ≠ 10 := by
      rintro rfl
      exact absurd hbase (by decide)
    refine ⟨'0' :: mark :: digits, ?_, .marked hmark hdigits.ne_nil hall, ?_⟩
    · rw [List.filter_cons_of_pos (by decide), List.filter_cons_of_pos (by simpa using hline),
        hspaced.filter (not_lowLine_of_digitIn? hall)]
    · rw [(unsigned_marked hmark digits).1, readInteger_unlimited hbase hdigits.ne_nil hall,
        hdigits.withDigits hlow hhigh, if_neg fun h => hten h.1]
      rfl
  | @octal digits _ hne hdigits hm hspaced =>
    have hall := digitIn?_cons_zero hdigits
    refine ⟨_, hspaced.filter (not_lowLine_of_digitIn? hall), ?_, ?_⟩
    · exact .decimal (isDecimal_of_digits (by decide) (List.cons_ne_nil _ _) hall)
    · rw [unsigned_octal hne hdigits, hm, if_neg (by simp)]

theorem parse_eq {magnitude : List Char} (hfilter : text.filter (· != '_') = magnitude)
    (hmagnitude : IsMagnitude magnitude) (hsign : sign ∈ [[], ['+'], ['-']]) (hbig : IsLetter big) :
    parse (sign ++ text ++ big) = (NumberLiteral.unsigned magnitude).map (signed (sign = ['-'])) := by
  have hmarks : sign.filter (· != '_') = sign ∧ big.filter (· != '_') = big := by
    constructor
    · simp only [List.mem_cons, List.not_mem_nil, or_false] at hsign
      rcases hsign with rfl | rfl | rfl <;> rfl
    · rcases hbig with rfl | rfl <;> rfl
  have hclean : (sign ++ text ++ big).filter (· != '_') = sign ++ (magnitude ++ (big ++ [])) := by
    rw [List.filter_append, List.filter_append, hmarks.1, hmarks.2, hfilter, List.append_assoc, List.append_nil]
  have hlast : magnitude.getLast? ≠ some 'n' := fun hn => hmagnitude.not_mem.1 (List.mem_of_getLast? hn)
  obtain ⟨left, hdrop, -, hnil⟩ := dropBig_end hlast hbig (.inl rfl)
  obtain rfl : left = [] := hnil.mpr (by rcases hbig with rfl | rfl <;> decide)
  have hfront : dropBig ((sign ++ text ++ big).filter (· != '_')) = sign ++ magnitude := by
    rw [hclean, dropBig_append _ (by simp [hmagnitude.ne_nil]), hdrop, List.append_nil, List.append_nil]
  have hhead : ∀ c ∈ (magnitude ++ []).head?, isSign c = false := hmagnitude.head
  rw [List.append_nil] at hhead
  obtain ⟨c, rest, rfl⟩ := List.exists_cons_of_ne_nil hmagnitude.ne_nil
  have hc : isSign c = false := hhead c rfl
  have hbare : (sign ++ c :: rest).dropWhile isSign = c :: rest := by
    rw [List.dropWhile_append_of_pos (isSign_of_mem_sign hsign), List.dropWhile_cons_of_neg (by simp [hc])]
  have hminus : c ≠ '-' := by
    rintro rfl
    cases hc
  have hnegative : decide ((sign ++ c :: rest).head? = some '-') = decide (sign = ['-']) := by
    simp only [List.mem_cons, List.not_mem_nil, or_false] at hsign
    rcases hsign with rfl | rfl | rfl <;> simp [hminus]
  unfold parse
  rw [hfront]
  dsimp only
  rw [hnegative]
  exact congrArg (fun clean => (NumberLiteral.unsigned clean).map _) hbare

theorem Writes.parse (h : Writes m base text) (hsign : sign ∈ [[], ['+'], ['-']]) (hbig : IsLetter big) :
    parse (sign ++ text ++ big) =
      if base = 10 ∧ 10 ^ maxDigits ≤ m then .error (.tooManyDigits (Nat.toDigits 10 m).length)
      else .ok (.int (if sign = ['-'] then -m else m)) := by
  obtain ⟨magnitude, hfilter, hmagnitude, hunsigned⟩ := h.unsigned
  rw [parse_eq hfilter hmagnitude hsign hbig, hunsigned]
  split
  · rfl
  · by_cases hminus : sign = ['-'] <;> simp [hminus, Except.map, signed, Literal.neg]

end Value

section Form

theorem Spaced.dropWhile {p : Char → Bool} (h : Spaced digits text) (hdigits : ∀ c ∈ digits, p c)
    (hp : p 'n' = false) (hbig : IsLetter big) : (text ++ big).dropWhile (fun c => p c || c == '_') = big := by
  rw [List.dropWhile_append_of_pos]
  · rcases hbig with rfl | rfl
    · rfl
    · exact List.dropWhile_cons_of_neg (by simp [hp])
  · intro c hc
    rcases h.mem c hc with hdigit | rfl
    · simp [hdigits c hdigit]
    · simp

theorem Spaced.exists_head (h : Spaced digits text) : ∃ c ∈ digits, ∃ rest, text = c :: rest := by
  cases h with
  | last d => exact ⟨d, List.mem_cons_self, [], rfl⟩
  | cons d => exact ⟨d, List.mem_cons_self, _, rfl⟩

theorem isDecimal_spaced (h : Spaced digits text) (hbase : base ≤ 10)
    (hdigits : ∀ c ∈ digits, (digitIn? base c).isSome) (hbig : IsLetter big) : isDecimal (text ++ big) := by
  have hascii : ∀ c ∈ digits, isDigit c := fun c hc => isDigit_of_digitIn? hbase (hdigits c hc)
  have hdrop : (text ++ big).dropWhile isDigitPart = big := h.dropWhile hascii (by decide) hbig
  obtain ⟨c, hc, rest, rfl⟩ := h.exists_head
  rw [List.cons_append, List.dropWhile_cons_of_pos (by simp [isDigitPart, hascii c hc])] at hdrop
  rw [List.cons_append, isDecimal, if_pos (hascii c hc), hdrop]
  rcases hbig with rfl | rfl <;> decide

theorem isMarked_spaced (h : Spaced digits text) {p : Char → Bool} (hdigits : ∀ c ∈ digits, p c) (hp : p 'n' = false)
    (hbig : IsLetter big) : isMarked p (text ++ big) := by
  have hdrop := h.dropWhile hdigits hp hbig
  obtain ⟨c, hc, rest, rfl⟩ := h.exists_head
  have hend : isEnd big := by
    rcases hbig with rfl | rfl <;> decide
  unfold isMarked
  dsimp only
  rw [hdrop, hend]
  simp [hdigits c hc]

theorem isNumeral_marked (hmark : baseMark? base mark) (h : Spaced digits text)
    (hdigits : ∀ c ∈ digits, (digitIn? base c).isSome) (hbig : IsLetter big) :
    isNumeral ('0' :: mark :: (text ++ big)) := by
  apply Bool.or_eq_true_iff.mpr
  right
  unfold baseMark? at hmark
  split at hmark
  · have hmarked := isMarked_spaced h (fun c hc => isBinaryDigit_of_digitIn? (hdigits c hc)) rfl hbig
    rcases (by simpa using hmark : mark = 'b' ∨ mark = 'B') with rfl | rfl <;> exact hmarked
  · have hmarked := isMarked_spaced h (fun c hc => isOctalDigit_of_digitIn? (hdigits c hc)) rfl hbig
    rcases (by simpa using hmark : mark = 'o' ∨ mark = 'O') with rfl | rfl <;> exact hmarked
  · have hmarked := isMarked_spaced h (fun c hc => isHex_of_digitIn? (hdigits c hc)) rfl hbig
    rcases (by simpa using hmark : mark = 'x' ∨ mark = 'X') with rfl | rfl <;> exact hmarked
  · cases hmark

theorem dropSign_append {rest : List Char} (hsign : sign ∈ [[], ['+'], ['-']])
    (hrest : ∀ c ∈ rest.head?, isSign c = false) : dropSign (sign ++ rest) = rest := by
  simp only [List.mem_cons, List.not_mem_nil, or_false] at hsign
  rcases hsign with rfl | rfl | rfl
  · cases rest with
    | nil => rfl
    | cons c rest =>
      have hc : ¬(c = '+' ∨ c = '-') := by simpa [isSign] using hrest c rfl
      simp [dropSign, hc]
  · rfl
  · rfl

theorem isNumeral_congr {other : List Char} (h : dropSign text = dropSign other) :
    isNumeral text = isNumeral other := by
  unfold isNumeral
  rw [h]

theorem isNumeral_of_isDecimal (h : isDecimal (dropSign text)) : isNumeral text :=
  Bool.or_eq_true_iff.mpr (.inl h)

theorem Writes.exists_head (h : Writes m base text) : ∃ c rest, text = c :: rest ∧ isDigit c := by
  have hspaced {digits text : List Char} {base : Nat} (h : Spaced digits text) (hbase : base ≤ 10)
      (hdigits : ∀ c ∈ digits, (digitIn? base c).isSome) : ∃ c rest, text = c :: rest ∧ isDigit c := by
    obtain ⟨c, hc, rest, rfl⟩ := h.exists_head
    exact ⟨c, rest, rfl, isDigit_of_digitIn? hbase (hdigits c hc)⟩
  cases h with
  | decimal h => exact hspaced h (by decide) digitIn?_of_toDigits
  | marked => exact ⟨'0', _, rfl, by decide⟩
  | octal _ hdigits _ h => exact hspaced h (by decide) (digitIn?_cons_zero hdigits)

theorem Writes.isNumeral (h : Writes m base text) (hsign : sign ∈ [[], ['+'], ['-']]) (hbig : IsLetter big) :
    isNumeral (sign ++ text ++ big) := by
  have hhead : ∀ c ∈ (text ++ big).head?, isSign c = false := by
    obtain ⟨c, rest, rfl, hc⟩ := h.exists_head
    intro d hd
    obtain rfl := Option.some.inj hd
    exact isSign_of_isDigit hc
  have hdrop : dropSign (sign ++ text ++ big) = text ++ big := by
    rw [List.append_assoc]
    exact dropSign_append hsign hhead
  cases h with
  | decimal hspaced =>
    apply isNumeral_of_isDecimal
    rw [hdrop]
    exact isDecimal_spaced hspaced (by decide) digitIn?_of_toDigits hbig
  | @marked _ mark _ text hmark hdigits hspaced =>
    obtain ⟨-, hlow, hhigh⟩ := bounds_of_baseMark? hmark
    have hsame : dropSign (sign ++ '0' :: mark :: text ++ big) = dropSign ('0' :: mark :: (text ++ big)) := hdrop
    rw [isNumeral_congr hsame]
    exact isNumeral_marked hmark hspaced (hdigits.digitIn? hlow hhigh) hbig
  | octal _ hdigits _ hspaced =>
    apply isNumeral_of_isDecimal
    rw [hdrop]
    exact isDecimal_spaced hspaced (by decide) (digitIn?_cons_zero hdigits) hbig

end Form

end NumberLiteral

end ComponentDoc
