import ComponentDoc.Proofs.Literal.Number

namespace ComponentDoc

namespace NumberLiteral

open Text Script

variable {text : List Char}

theorem filter_lowLines_end (h : isEnd text) : text.filter (· != '_') = text := by
  refine List.filter_eq_self.mpr fun c hc => ?_
  rcases isEnd_mem h hc with rfl | rfl <;> rfl

theorem exists_digits {p : Char → Bool} (hp : p '_' = false) (text : List Char) : ∃ digits, (∀ d ∈ digits, p d) ∧
    text.filter (· != '_') = digits ++ (text.dropWhile fun c => p c || c == '_').filter (· != '_') ∧
      (text.head?.any p → digits ≠ []) := by
  refine ⟨(text.takeWhile fun c => p c || c == '_').filter (· != '_'), fun d hd => ?_, ?_, fun hhead => ?_⟩
  · obtain ⟨hd, hline⟩ := List.mem_filter.mp hd
    have hdigit : p d ∨ d = '_' := by simpa using List.mem_takeWhile_imp hd
    exact hdigit.resolve_right (by simpa using hline)
  · rw [← List.filter_append, List.takeWhile_append_dropWhile]
  · obtain ⟨d, hd, hdigit⟩ := (Option.any_eq_true _ _).mp hhead
    obtain ⟨more, rfl⟩ := List.head?_eq_some_iff.mp hd
    have hline : d ≠ '_' := by
      rintro rfl
      rw [hp] at hdigit
      cases hdigit
    rw [List.takeWhile_cons_of_pos (by simp [hdigit]), List.filter_cons_of_pos (by simpa using hline)]
    exact List.cons_ne_nil _ _

theorem exists_sign (text : List Char) : ∃ sign ∈ [[], ['+'], ['-']], text = sign ++ dropSign text := by
  unfold dropSign
  split
  · next c rest =>
    split
    · next hc => exact ⟨[c], by rcases hc with rfl | rfl <;> simp, rfl⟩
    · exact ⟨[], by simp, rfl⟩
  · exact ⟨[], by simp, rfl⟩

theorem filter_lowLines_exponent {exponent stop : List Char} (h : IsExponent isDigit exponent) (hend : isEnd stop) :
    (exponent ++ stop).filter (· != '_') = exponent ++ stop := by
  rw [List.filter_append, filter_lowLines_end hend]
  refine congrArg (· ++ stop) (List.filter_eq_self.mpr fun c hc => bne_iff_ne.mpr ?_)
  rintro rfl
  rcases h.mem hc with hdigit | hmem
  · exact absurd hdigit (by decide)
  · exact absurd hmem (by decide)

theorem exists_exponent (h : isExponentEnd text) : ∃ exponent stop,
    text.filter (· != '_') = exponent ++ stop ∧ IsExponent isDigit exponent ∧ isEnd stop := by
  unfold isExponentEnd at h
  rcases Bool.or_eq_true_iff.mp h with hend | h
  · exact ⟨[], text, filter_lowLines_end hend, .nothing, hend⟩
  · split at h
    · next mark rest _ =>
      obtain ⟨sign, hsign, hrest⟩ := exists_sign rest
      dsimp only at h
      obtain ⟨hleft, hend⟩ := Bool.and_eq_true_iff.mp h
      obtain ⟨hmark, hhead⟩ := Bool.and_eq_true_iff.mp hleft
      have hmark : mark = 'e' ∨ mark = 'E' := by simpa using hmark
      have hne : (dropSign rest).takeWhile isDigit ≠ [] := by
        obtain ⟨d, hd, hdigit⟩ := (Option.any_eq_true _ _).mp hhead
        obtain ⟨more, hmore⟩ := List.head?_eq_some_iff.mp hd
        rw [hmore, List.takeWhile_cons_of_pos hdigit]
        exact List.cons_ne_nil _ _
      have hexponent : IsExponent isDigit (mark :: (sign ++ (dropSign rest).takeWhile isDigit)) :=
        .written hmark hsign hne fun d hd => List.mem_takeWhile_imp hd
      refine ⟨_, _, ?_, hexponent, hend⟩
      rw [← filter_lowLines_exponent hexponent hend, List.cons_append, List.append_assoc,
        List.takeWhile_append_dropWhile, ← hrest]
    · cases h

theorem exists_decimal (h : isDecimal text) : ∃ magnitude stop,
    text.filter (· != '_') = magnitude ++ stop ∧ IsDecimal isDigit magnitude ∧ isEnd stop := by
  have hline : isDigit '_' = false := by decide
  unfold isDecimal isDigitPart at h
  split at h
  · cases h
  · next c rest =>
    split at h
    · next hdigit =>
      obtain ⟨whole, hwhole, hfilter, hne⟩ := exists_digits hline (c :: rest)
      rw [List.dropWhile_cons_of_pos (by simp [hdigit])] at hfilter
      have hne := hne (by simpa using hdigit)
      split at h
      · next fraction hpoint =>
        obtain ⟨part, hpart, hpart', -⟩ := exists_digits hline fraction
        obtain ⟨exponent, stop, hstop, hexponent, hend⟩ := exists_exponent h
        refine ⟨whole ++ '.' :: (part ++ exponent), stop, ?_, .pointed (by simp [hne]) ?_ hexponent, hend⟩
        · rw [hfilter, hpoint, List.filter_cons_of_pos (by decide), hpart', hstop]
          simp
        · exact List.forall_mem_append.mpr ⟨hwhole, hpart⟩
      · obtain ⟨exponent, stop, hstop, hexponent, hend⟩ := exists_exponent h
        refine ⟨whole ++ exponent, stop, ?_, .whole hne hwhole hexponent, hend⟩
        rw [hfilter, hstop, List.append_assoc]
    · obtain ⟨hleft, hright⟩ := Bool.and_eq_true_iff.mp h
      obtain ⟨hpoint, hhead⟩ := Bool.and_eq_true_iff.mp hleft
      obtain rfl : c = '.' := by simpa using hpoint
      obtain ⟨part, hpart, hfilter, hne⟩ := exists_digits hline rest
      obtain ⟨exponent, stop, hstop, hexponent, hend⟩ := exists_exponent hright
      refine ⟨[] ++ '.' :: (part ++ exponent), stop, ?_, .pointed (hne hhead) hpart hexponent, hend⟩
      rw [List.filter_cons_of_pos (by decide), hfilter, hstop]
      simp

theorem exists_marked {p : Char → Bool} (hp : p '_' = false) {digits : List Char} (h : isMarked p digits) :
    ∃ run stop, digits.filter (· != '_') = run ++ stop ∧ (∀ d ∈ run, p d) ∧ isEnd stop := by
  obtain ⟨run, hrun, hfilter, -⟩ := exists_digits hp digits
  obtain ⟨-, hend⟩ := Bool.and_eq_true_iff.mp h
  exact ⟨run, _, by rw [hfilter, filter_lowLines_end hend], hrun, hend⟩

theorem bare_eq {body : List Char} (h : (dropSign text).filter (· != '_') = body)
    (hhead : ∀ c ∈ body.head?, isSign c = false) : bare text = body := by
  obtain ⟨sign, hsign, htext⟩ := exists_sign text
  have hsigns : ∀ c ∈ sign.filter (· != '_'), isSign c := by
    simp only [List.mem_cons, List.not_mem_nil, or_false] at hsign
    rcases hsign with rfl | rfl | rfl <;> simp [isSign]
  refine bare_of_sign hsigns ?_ hhead
  rw [htext, List.filter_append, h]

theorem isNumeral_or_lacksDigits_of_marked {p : Char → Bool} {base : Nat} {mark : Char} {digits : List Char}
    (htext : dropSign text = '0' :: mark :: digits) (hmark : baseMark? base mark) (hp : p '_' = false)
    (hbase : ∀ c, p c → (digitIn? base c).isSome) (h : isMarked p digits) : lacksDigits text ∨ IsNumeral text := by
  obtain ⟨run, stop, hfilter, hrun, hend⟩ := exists_marked hp h
  have hmem := mem_of_baseMark? hmark
  have hline : mark ≠ '_' := by
    rintro rfl
    revert hmem
    decide
  have hbare : bare text = '0' :: mark :: (run ++ stop) := by
    refine bare_eq ?_ (by simp [isSign])
    rw [htext, List.filter_cons_of_pos (by decide), List.filter_cons_of_pos (by simpa using hline), hfilter]
  by_cases hempty : run = []
  · refine .inl ?_
    rw [hempty, List.nil_append] at hbare
    unfold lacksDigits
    rw [hbare]
    exact Bool.and_eq_true_iff.mpr ⟨decide_eq_true hmem, hend⟩
  · exact .inr ⟨_, stop, hbare, .marked hmark hempty fun d hd => hbase d (hrun d hd), hend⟩

theorem lacksDigits_or_isNumeral (h : isNumeral text) : lacksDigits text ∨ IsNumeral text := by
  rcases Bool.or_eq_true_iff.mp h with hdecimal | hmarked
  · obtain ⟨magnitude, stop, hfilter, hmagnitude, hend⟩ := exists_decimal hdecimal
    exact .inr ⟨magnitude, stop, bare_eq hfilter (IsMagnitude.decimal hmagnitude).head, .decimal hmagnitude, hend⟩
  · split at hmarked
    · next mark digits htext =>
      split at hmarked
      · next hmark =>
        have hbase : baseMark? 16 mark := by rcases hmark with rfl | rfl <;> rfl
        exact isNumeral_or_lacksDigits_of_marked htext hbase rfl (fun c => digitIn?_of_isHex) hmarked
      split at hmarked
      · next hmark =>
        have hbase : baseMark? 8 mark := by rcases hmark with rfl | rfl <;> rfl
        exact isNumeral_or_lacksDigits_of_marked htext hbase rfl (fun c hc => (digitIn?_of_isOctalDigit hc).2) hmarked
      split at hmarked
      · next hmark =>
        have hbase : baseMark? 2 mark := by rcases hmark with rfl | rfl <;> rfl
        refine isNumeral_or_lacksDigits_of_marked htext hbase rfl (fun c hc => ?_) hmarked
        rcases (by simpa using hc : c = '0' ∨ c = '1') with rfl | rfl <;> rfl
      · cases hmarked
    · cases hmarked

theorem parse_isOk_iff (h : isNumeral text) :
    (parse text).isOk ↔ lacksDigits text = false ∧ isTooLong text = false ∧ hasStrayLetter text = false := by
  rcases lacksDigits_or_isNumeral h with hlacks | hnumeral
  · refine iff_of_false (not_isOk_of_lacksDigits hlacks) fun hnot => ?_
    rw [hlacks] at hnot
    cases hnot.1
  · rw [hnumeral.parse_isOk_iff, and_iff_right hnumeral.not_lacksDigits]

def EndsLine (text : List Char) : Prop := ∃ front stop, text = front ++ stop ∧ '\n' ∉ front ∧ isEnd stop

theorem EndsLine.append {front rest : List Char} (h : EndsLine rest) (hfront : '\n' ∉ front) :
    EndsLine (front ++ rest) := by
  obtain ⟨between, stop, rfl, hbetween, hend⟩ := h
  refine ⟨front ++ between, stop, (List.append_assoc ..).symm, ?_, hend⟩
  exact List.not_mem_append hfront hbetween

theorem EndsLine.cons {c : Char} {rest : List Char} (h : EndsLine rest) (hc : c ≠ '\n') : EndsLine (c :: rest) := by
  have hfront : '\n' ∉ [c] := mt List.mem_singleton.mp hc.symm
  exact h.append hfront

theorem endsLine_of_isEnd (h : isEnd text) : EndsLine text := ⟨[], text, rfl, List.not_mem_nil, h⟩

theorem endsLine_of_dropWhile {p : Char → Bool} (hp : p '\n' = false) (h : EndsLine (text.dropWhile p)) :
    EndsLine text := by
  rw [← List.takeWhile_append_dropWhile (p := p) (l := text)]
  refine h.append fun hmem => ?_
  rw [List.mem_takeWhile_imp hmem] at hp
  cases hp

theorem endsLine_of_dropSign (h : EndsLine (dropSign text)) : EndsLine text := by
  obtain ⟨sign, hsign, htext⟩ := exists_sign text
  rw [htext]
  refine h.append ?_
  simp only [List.mem_cons, List.not_mem_nil, or_false] at hsign
  rcases hsign with rfl | rfl | rfl <;> decide

theorem endsLine_of_isExponentEnd (h : isExponentEnd text) : EndsLine text := by
  unfold isExponentEnd at h
  rcases Bool.or_eq_true_iff.mp h with hend | h
  · exact endsLine_of_isEnd hend
  · split at h
    · next mark rest _ =>
      dsimp only at h
      obtain ⟨hleft, hend⟩ := Bool.and_eq_true_iff.mp h
      obtain ⟨hmark, -⟩ := Bool.and_eq_true_iff.mp hleft
      have hdigits := endsLine_of_dropWhile (p := isDigit) rfl (endsLine_of_isEnd hend)
      refine (endsLine_of_dropSign hdigits).cons ?_
      rintro rfl
      cases hmark
    · cases h

theorem endsLine_of_isDecimal (h : isDecimal text) : EndsLine text := by
  unfold isDecimal at h
  split at h
  · cases h
  · next c rest =>
    split at h
    · next hdigit =>
      refine EndsLine.cons (endsLine_of_dropWhile (p := isDigitPart) rfl ?_) (by rintro rfl; cases hdigit)
      split at h
      · next fraction hpoint =>
        rw [hpoint]
        exact (endsLine_of_dropWhile (p := isDigitPart) rfl (endsLine_of_isExponentEnd h)).cons (by decide)
      · exact endsLine_of_isExponentEnd h
    · obtain ⟨hleft, hright⟩ := Bool.and_eq_true_iff.mp h
      obtain ⟨hpoint, -⟩ := Bool.and_eq_true_iff.mp hleft
      refine (endsLine_of_dropWhile (p := isDigitPart) rfl (endsLine_of_isExponentEnd hright)).cons ?_
      rintro rfl
      cases hpoint

theorem endsLine_of_isMarked {p : Char → Bool} (hp : p '\n' = false) (h : isMarked p text) : EndsLine text :=
  endsLine_of_dropWhile (by simp [hp]) (endsLine_of_isEnd (Bool.and_eq_true_iff.mp h).2)

theorem endsLine_of_isNumeral (h : isNumeral text) : EndsLine text := by
  refine endsLine_of_dropSign ?_
  rcases Bool.or_eq_true_iff.mp h with hdecimal | hmarked
  · exact endsLine_of_isDecimal hdecimal
  · split at hmarked
    · next mark digits htext =>
      rw [htext]
      refine EndsLine.cons ?_ (by decide)
      split at hmarked
      · next hmark => exact (endsLine_of_isMarked rfl hmarked).cons (by rcases hmark with rfl | rfl <;> decide)
      split at hmarked
      · next hmark => exact (endsLine_of_isMarked rfl hmarked).cons (by rcases hmark with rfl | rfl <;> decide)
      split at hmarked
      · next hmark => exact (endsLine_of_isMarked rfl hmarked).cons (by rcases hmark with rfl | rfl <;> decide)
      · cases hmarked
    · cases hmarked

theorem not_hasStrayLetter (h : isNumeral text) (hlast : text.getLast? ≠ some '\n') : hasStrayLetter text = false := by
  rw [← Bool.not_eq_true]
  intro hstray
  obtain ⟨front, stop, rfl, hfront, hend⟩ := endsLine_of_isNumeral h
  have hmem : '\n' ∈ front ++ stop := by
    rw [hasStrayLetter, List.isSuffixOf_iff_suffix] at hstray
    have hbare : '\n' ∈ bare (front ++ stop) := hstray.subset (by decide)
    exact List.mem_of_mem_filter ((List.dropWhile_suffix _).subset hbare)
  have hstop := (List.mem_append.mp hmem).resolve_left hfront
  rw [isEnd, decide_eq_true_iff] at hend
  simp only [List.mem_cons, List.not_mem_nil, or_false] at hend
  rcases hend with rfl | rfl | rfl | rfl <;> simp_all

end NumberLiteral

end ComponentDoc
