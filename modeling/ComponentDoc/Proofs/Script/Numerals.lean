import ComponentDoc.Proofs.Literal.Number
import ComponentDoc.Script.Token

namespace ComponentDoc.Script

open NumberLiteral

/-- A numeric literal of a script. -/
def IsNumber (literal : List Char) : Prop := IsNumeral literal ∧ hasStrayLetter literal = false

section Numerals

variable {p : Char → Bool} {text rest magnitude big : List Char} {c : Char}

theorem isNumber_of_filter (h : text.filter (· != '_') = magnitude ++ big) (hmagnitude : IsMagnitude magnitude)
    (hbig : IsLetter big) : IsNumber text := by
  have hbare := bare_unsigned h hmagnitude
  have hend : isEnd big := isEnd_iff.mpr ⟨big, [], by simp, hbig, .inl rfl⟩
  refine ⟨⟨magnitude, big, hbare, hmagnitude, hend⟩, ?_⟩
  rw [← Bool.not_eq_true, hasStrayLetter_iff hbare hmagnitude hend]
  rcases hbig with rfl | rfl <;> simp

theorem digitRun_isPrefix (p : Char → Bool) (text : List Char) : digitRun p text <+: text := by
  fun_induction digitRun p text with
  | case1 => exact List.nil_prefix
  | case2 d rest hd ih => exact List.cons_prefix_cons.mpr ⟨rfl, List.cons_prefix_cons.mpr ⟨rfl, ih⟩⟩
  | case3 | case5 => exact List.nil_prefix
  | case4 c rest _ _ ih => exact List.cons_prefix_cons.mpr ⟨rfl, ih⟩

theorem digitRun_digits (text : List Char) : ∀ d ∈ (digitRun p text).filter (· != '_'), p d := by
  have hline {first : Char} {run : List Char} (hfirst : p first) (hrun : ∀ d ∈ run.filter (· != '_'), p d) :
      ∀ d ∈ (first :: run).filter (· != '_'), p d := by
    intro d hd
    obtain ⟨hmem, hd⟩ := List.mem_filter.mp hd
    rcases List.mem_cons.mp hmem with rfl | hmem
    · exact hfirst
    · exact hrun d (List.mem_filter.mpr ⟨hmem, hd⟩)
  fun_induction digitRun p text with
  | case1 | case3 | case5 => exact List.forall_mem_nil _
  | case2 d rest hd ih =>
    rw [List.filter_cons_of_neg (by decide)]
    exact hline hd ih
  | case4 c rest _ hc ih => exact hline hc ih

theorem digitRun_ne_nil (hp : p '_' = false) (hc : p c) : (digitRun p (c :: rest)).filter (· != '_') ≠ [] := by
  have hline : c ≠ '_' := by
    rintro rfl
    rw [hp] at hc
    cases hc
  rw [digitRun, if_pos hc, List.filter_cons_of_pos (by simpa using hline)]
  · exact List.cons_ne_nil _ _
  · exact fun d rest h => absurd h hline

theorem append_drop_of_isPrefix {front : List Char} (h : front <+: text) : front ++ text.drop front.length = text := by
  obtain ⟨back, rfl⟩ := h
  rw [List.drop_left]

theorem exponentPart_spec (text : List Char) : exponentPart text <+: text ∧
    IsExponent Text.isDigit ((exponentPart text).filter (· != '_')) := by
  have hline : Char.isDigit '_' = false := rfl
  have hnothing : [] <+: text ∧ IsExponent Text.isDigit (([] : List Char).filter (· != '_')) :=
    ⟨List.nil_prefix, .nothing⟩
  have hwritten {mark d : Char} {sign rest : List Char} (hmark : mark = 'e' ∨ mark = 'E')
      (hsign : sign ∈ [[], ['+'], ['-']]) (hd : d.isDigit) :
      mark :: (sign ++ digitRun Char.isDigit (d :: rest)) <+: mark :: (sign ++ d :: rest) ∧
        IsExponent Text.isDigit ((mark :: (sign ++ digitRun Char.isDigit (d :: rest))).filter (· != '_')) := by
    refine ⟨List.cons_prefix_cons.mpr ⟨rfl, (List.prefix_append_right_inj sign).mpr (digitRun_isPrefix _ _)⟩, ?_⟩
    have hfilter : (mark :: (sign ++ digitRun Char.isDigit (d :: rest))).filter (· != '_') =
        mark :: (sign ++ (digitRun Char.isDigit (d :: rest)).filter (· != '_')) := by
      simp only [List.mem_cons, List.not_mem_nil, or_false] at hsign
      rcases hmark with rfl | rfl <;> rcases hsign with rfl | rfl | rfl <;> rfl
    rw [hfilter]
    exact .written hmark hsign (digitRun_ne_nil hline hd) fun d hd => isDigit_of_ascii (digitRun_digits _ d hd)
  unfold exponentPart
  split
  · next e rest =>
    split
    · next hmark =>
      split
      · next d more =>
        split
        · next hd => exact hwritten hmark (List.mem_cons_of_mem _ List.mem_cons_self) hd
        · exact hnothing
      · next d more =>
        split
        · next hd => exact hwritten hmark (List.mem_cons_of_mem _ (List.mem_cons_of_mem _ List.mem_cons_self)) hd
        · exact hnothing
      · next d more _ _ =>
        split
        · next hd => exact hwritten hmark (List.mem_cons_self) hd
        · exact hnothing
      · exact hnothing
    · exact hnothing
  · exact hnothing

theorem fractionPart_spec (text : List Char) : fractionPart text <+: text ∧ ∃ fraction exponent,
    (fractionPart text).filter (· != '_') = fraction ++ exponent ∧ (∀ d ∈ fraction, Text.isDigit d) ∧
      IsExponent Text.isDigit exponent ∧ (text.head?.any Char.isDigit → fraction ≠ []) := by
  have hline : Char.isDigit '_' = false := rfl
  have hparts {digits : List Char} (hfront : digits <+: text) (hdigits : ∀ d ∈ digits.filter (· != '_'), d.isDigit)
      (hne : text.head?.any Char.isDigit → digits.filter (· != '_') ≠ []) :
      digits ++ exponentPart (text.drop digits.length) <+: text ∧ ∃ fraction exponent,
        (digits ++ exponentPart (text.drop digits.length)).filter (· != '_') = fraction ++ exponent ∧
          (∀ d ∈ fraction, Text.isDigit d) ∧ IsExponent Text.isDigit exponent ∧
            (text.head?.any Char.isDigit → fraction ≠ []) := by
    obtain ⟨hexponent, hexponent'⟩ := exponentPart_spec (text.drop digits.length)
    refine ⟨?_, _, _, List.filter_append .., fun d hd => isDigit_of_ascii (hdigits d hd), hexponent', hne⟩
    have happend := (List.prefix_append_right_inj digits).mpr hexponent
    rwa [append_drop_of_isPrefix hfront] at happend
  cases text with
  | nil => exact hparts List.nil_prefix (List.forall_mem_nil _) nofun
  | cons d rest =>
    unfold fractionPart
    dsimp only
    split
    · next hd => exact hparts (digitRun_isPrefix _ _) (digitRun_digits _) fun _ => digitRun_ne_nil hline hd
    · next hd => exact hparts List.nil_prefix (List.forall_mem_nil _) fun hhead => absurd hhead (by simpa using hd)

theorem decimalNumeral_spec (hc : c.isDigit) :
    decimalNumeral (c :: rest) <+: c :: rest ∧ IsNumber (decimalNumeral (c :: rest)) := by
  have hne : (digitRun Char.isDigit (c :: rest)).filter (· != '_') ≠ [] := digitRun_ne_nil rfl hc
  have hdigits : ∀ d ∈ (digitRun Char.isDigit (c :: rest)).filter (· != '_'), Text.isDigit d :=
    fun d hd => isDigit_of_ascii (digitRun_digits _ d hd)
  have happend := append_drop_of_isPrefix (digitRun_isPrefix Char.isDigit (c :: rest))
  unfold decimalNumeral
  dsimp only
  generalize digitRun Char.isDigit (c :: rest) = whole at *
  have hfront {part after : List Char} (hafter : (c :: rest).drop whole.length = after) (h : part <+: after) :
      whole ++ part <+: c :: rest := by
    rw [← happend, hafter]
    exact (List.prefix_append_right_inj whole).mpr h
  split
  · next fraction hafter =>
    obtain ⟨hfraction, part, exponent, hfilter, hpart, hexponent, -⟩ := fractionPart_spec fraction
    refine ⟨hfront hafter (List.cons_prefix_cons.mpr ⟨rfl, hfraction⟩), ?_⟩
    refine isNumber_of_filter ?_ (.decimal (.pointed (by simp [hne]) (List.forall_mem_append.mpr ⟨hdigits, hpart⟩)
      hexponent)) (.inl rfl)
    rw [List.filter_append, List.filter_cons_of_pos (by decide), hfilter, List.append_nil]
  · next more hafter =>
    refine ⟨hfront hafter (List.prefix_append ['n'] more), ?_⟩
    refine isNumber_of_filter ?_ (.decimal (.whole hne hdigits .nothing)) (.inr rfl)
    rw [List.filter_append, List.append_nil]
    rfl
  · obtain ⟨hexponent, hexponent'⟩ := exponentPart_spec ((c :: rest).drop whole.length)
    refine ⟨hfront rfl hexponent, ?_⟩
    refine isNumber_of_filter ?_ (.decimal (.whole hne hdigits hexponent')) (.inl rfl)
    rw [List.filter_append, List.append_nil]

theorem withBigSuffix_spec {digits : List Char} (h : digits <+: text) : withBigSuffix digits text <+: text ∧
    ∃ big, withBigSuffix digits text = digits ++ big ∧ IsLetter big := by
  unfold withBigSuffix
  split
  · next more hafter =>
    refine ⟨?_, ['n'], rfl, .inr rfl⟩
    rw [← append_drop_of_isPrefix h, hafter]
    exact (List.prefix_append_right_inj digits).mpr (List.prefix_append ['n'] more)
  · exact ⟨h, [], (List.append_nil digits).symm, .inl rfl⟩

theorem markedNumeral_spec {base : Nat} {mark d : Char} (hmark : baseMark? base mark) (hp : p '_' = false)
    (hbase : ∀ c, p c → (digitIn? base c).isSome) (hd : d ≠ '_') :
    markedNumeral p mark (d :: rest) <+: '0' :: mark :: d :: rest ∧ IsNumber (markedNumeral p mark (d :: rest)) := by
  have hzero : IsNumber (['0'] ++ []) := isNumber_of_filter rfl
    (.decimal (.whole (List.cons_ne_nil '0' []) (List.forall_mem_singleton.mpr rfl) .nothing)) (.inl rfl)
  unfold markedNumeral
  split
  · exact ⟨List.prefix_append ['0'] _, hzero⟩
  · next hrun =>
    obtain ⟨hfront, big, heq, hbig⟩ := withBigSuffix_spec (digitRun_isPrefix p (d :: rest))
    refine ⟨List.cons_prefix_cons.mpr ⟨rfl, List.cons_prefix_cons.mpr ⟨rfl, hfront⟩⟩, ?_⟩
    have hfirst : p d := by
      by_contra hnot
      rw [digitRun, if_neg hnot] at hrun
      · exact hrun rfl
      · exact fun c more h => absurd h hd
    have hline : mark ≠ '_' := by
      rintro rfl
      exact absurd (mem_of_baseMark? hmark) (by decide)
    have hbig' : big.filter (· != '_') = big := by
      rcases hbig with rfl | rfl <;> rfl
    refine isNumber_of_filter ?_ (.marked hmark (digitRun_ne_nil hp hfirst) fun c hc =>
      hbase c (digitRun_digits (d :: rest) c hc)) hbig
    rw [heq, List.filter_cons_of_pos (by decide), List.filter_cons_of_pos (by simpa using hline), List.filter_append,
      hbig']
    rfl

theorem numeral_spec (hc : c.isDigit) : numeral (c :: rest) <+: c :: rest ∧ IsNumber (numeral (c :: rest)) := by
  unfold numeral
  split
  · next mark d more htext =>
    obtain ⟨rfl, rfl⟩ := List.cons.inj htext
    split
    · exact decimalNumeral_spec hc
    next hd =>
    split
    · next hmark =>
      have hbase : baseMark? 16 mark := by rcases hmark with rfl | rfl <;> rfl
      exact markedNumeral_spec hbase rfl (fun c => digitIn?_of_isHex) hd
    split
    · next hmark =>
      have hbase : baseMark? 8 mark := by rcases hmark with rfl | rfl <;> rfl
      exact markedNumeral_spec hbase rfl (fun c hc => (digitIn?_of_isOctalDigit hc).2) hd
    split
    · next hmark =>
      have hbase : baseMark? 2 mark := by rcases hmark with rfl | rfl <;> rfl
      refine markedNumeral_spec hbase rfl (fun c hc => ?_) hd
      rcases (by simpa using hc : c = '0' ∨ c = '1') with rfl | rfl <;> rfl
    · exact decimalNumeral_spec hc
  · exact decimalNumeral_spec hc

theorem pointed_spec (h : rest.head?.any Char.isDigit) : IsNumber ('.' :: fractionPart rest) := by
  obtain ⟨-, fraction, exponent, hfilter, hdigits, hexponent, hne⟩ := fractionPart_spec rest
  have hmagnitude : IsMagnitude ([] ++ '.' :: (fraction ++ exponent)) :=
    .decimal (.pointed (by simpa using hne h) (by simpa using hdigits) hexponent)
  refine isNumber_of_filter ?_ hmagnitude (.inl rfl)
  rw [List.filter_cons_of_pos (by decide), hfilter, List.append_nil, List.nil_append]

end Numerals
end ComponentDoc.Script
