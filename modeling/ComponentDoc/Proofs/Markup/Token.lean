import ComponentDoc.Markup.Token
import ComponentDoc.Proofs.Markup.Expression
import ComponentDoc.Proofs.Text.Blank
import ComponentDoc.Proofs.Text.Search

/-!
What a token says of the text it was read from. Main statement: a token covers the characters from
where it was read up to its end, and what it holds stands there.
-/

namespace ComponentDoc.Markup

open Text

def IsTagName (name : List Char) : Prop :=
  ∃ c rest, name = c :: rest ∧ isAsciiLetter c = true ∧ ∀ d ∈ rest, isTagNameChar d = true

instance (name : List Char) : Decidable (IsTagName name) :=
  match name with
  | [] => isFalse fun ⟨_, _, h, _⟩ => by simp at h
  | c :: rest =>
    decidable_of_iff (isAsciiLetter c = true ∧ rest.all isTagNameChar = true) (by simp [IsTagName])

theorem isTagNameChar_of_isAsciiLetter {c : Char} (h : isAsciiLetter c = true) :
    isTagNameChar c = true := by
  simp [isTagNameChar, isWord_of_isAsciiLetter h]

theorem isBlank_eq_false_of_isTagNameChar {c : Char} (h : isTagNameChar c = true) :
    isBlank c = false := by
  simp only [isTagNameChar, Bool.or_eq_true, beq_iff_eq] at h
  rcases h with ((h | rfl) | rfl) | rfl
  · exact isBlank_eq_false_of_isWord h
  all_goals decide

theorem IsTagName.forall_mem {name : List Char} (h : IsTagName name) :
    ∀ c ∈ name, isTagNameChar c = true := by
  obtain ⟨c, rest, rfl, hc, hr⟩ := h
  intro d hd
  rcases List.mem_cons.mp hd with rfl | hd
  · exact isTagNameChar_of_isAsciiLetter hc
  · exact hr d hd

theorem IsTagName.not_blank {name : List Char} (h : IsTagName name) :
    ∀ c ∈ name, isBlank c = false :=
  fun c hc => isBlank_eq_false_of_isTagNameChar (h.forall_mem c hc)

theorem IsTagName.not_mem {name : List Char} (h : IsTagName name) {c : Char}
    (hc : isTagNameChar c = false) : c ∉ name :=
  not_mem_of_forall h.forall_mem hc

theorem IsTagName.head_ne {c d : Char} {rest : List Char} (h : IsTagName (c :: rest))
    (hd : isAsciiLetter d = false) : c ≠ d := by
  obtain ⟨e, tail, he, hc, -⟩ := h
  obtain ⟨rfl, -⟩ := List.cons.inj he
  rintro rfl
  rw [hd] at hc
  exact absurd hc (by decide)

theorem tagName?_eq_some_iff {s name : List Char} :
    tagName? s = some name ↔
      IsTagName name ∧ ∃ rest, s = name ++ rest ∧ ∀ d ∈ rest.head?, isTagNameChar d = false := by
  constructor
  · intro h
    cases s with
    | nil => simp [tagName?] at h
    | cons c cs =>
      rw [tagName?] at h
      split at h
      · next hc =>
        obtain rfl := (Option.some.inj h).symm
        refine ⟨⟨c, _, rfl, hc, fun d hd => List.mem_takeWhile_imp hd⟩, cs.dropWhile isTagNameChar,
          ?_, ?_⟩
        · rw [List.cons_append, List.takeWhile_append_dropWhile]
        · intro d hd
          have hn := List.head?_dropWhile_not isTagNameChar cs
          rw [hd] at hn
          simpa using hn
      · simp at h
  · rintro ⟨⟨c, name, rfl, hc, hn⟩, rest, rfl, hr⟩
    rw [List.cons_append, tagName?, if_pos hc, takeWhile_append_stop hn hr]

/-- A closing tag as the content of scripts and styles ends with it. -/
def IsEndTag (name tag : List Char) : Prop :=
  ∃ blanks, allBlank blanks = true ∧ tag = '<' :: '/' :: name ++ blanks ++ ['>']

theorem endTagLength?_eq_some_iff {name s : List Char} {n : Nat} :
    endTagLength? name s = some n ↔
      ∃ tag rest, s = tag ++ rest ∧ tag.length = n ∧ IsEndTag name tag := by
  constructor
  · intro h
    rw [endTagLength?] at h
    split at h
    · simp at h
    · next after ha =>
      split at h
      · next rest hr =>
        refine ⟨'<' :: '/' :: name ++ after.takeWhile isBlank ++ ['>'], rest, ?_, ?_, _,
          List.all_takeWhile, rfl⟩
        · rw [dropStart?_eq_some_iff.mp ha, List.append_assoc, List.append_assoc]
          conv_lhs => rw [← List.takeWhile_append_dropWhile (p := isBlank) (l := after)]
          rw [show after.dropWhile isBlank = '>' :: rest from hr]
          rfl
        · simp only [Option.some.injEq] at h
          simp only [List.cons_append, List.length_cons, List.length_append, List.length_nil]
          omega
      · simp at h
  · rintro ⟨_, rest, rfl, rfl, blanks, hb, rfl⟩
    have hs : dropStart? ('<' :: '/' :: name) ('<' :: '/' :: name ++ blanks ++ ['>'] ++ rest) =
        some (blanks ++ '>' :: rest) := by
      rw [dropStart?_eq_some_iff]
      simp
    have ht : trimStart (blanks ++ '>' :: rest) = '>' :: rest :=
      trimStart_append hb (by simp [isBlank])
    have hw : (blanks ++ '>' :: rest).takeWhile isBlank = blanks :=
      takeWhile_append_stop (List.all_eq_true.mp hb) (by simp [isBlank])
    rw [endTagLength?, hs]
    simp only [ht, hw, List.cons_append, List.length_cons, List.length_append, List.length_nil]

theorem IsEndTag.ne_nil {name tag : List Char} (h : IsEndTag name tag) : tag ≠ [] := by
  obtain ⟨blanks, -, rfl⟩ := h
  simp

theorem IsEndTag.length_le {name tag rest front back : List Char} (h : IsEndTag name tag)
    (hn : '>' ∉ name) (he : tag ++ rest = front ++ '>' :: back) : tag.length ≤ front.length + 1 := by
  by_contra hlt
  obtain ⟨e, ht, -⟩ := eq_append_of_append_eq (a := front ++ ['>']) (b := back)
    (by simpa using he.symm) (by simp only [List.length_append, List.length_singleton]; omega)
  have hne : e ≠ [] := by
    rintro rfl
    simp only [ht, List.length_append, List.length_singleton, List.length_nil] at hlt
    omega
  have hm : '>' ∈ tag.dropLast := by
    rw [ht, List.dropLast_append_of_ne_nil hne]
    simp
  obtain ⟨blanks, hb, rfl⟩ := h
  rw [List.dropLast_concat] at hm
  simp only [List.cons_append, List.mem_cons, List.mem_append, Char.reduceEq, false_or] at hm
  rcases hm with hm | hm
  · exact hn hm
  · exact not_mem_of_forall (List.all_eq_true.mp hb) (by decide) hm

theorem findEndTag?_reads {name s : List Char} {before length : Nat}
    (h : findEndTag? name s = some (before, length)) :
    ∃ content tag rest, s = content ++ tag ++ rest ∧ content.length = before ∧
      tag.length = length ∧ IsEndTag name tag ∧
      (∀ front tag' back, s = front ++ tag' ++ back → IsEndTag name tag' →
        content.length ≤ front.length) ∧
      ('>' ∉ name → ∀ more, findEndTag? name (content ++ tag ++ more) = some (before, length)) := by
  induction s generalizing before with
  | nil => simp [findEndTag?] at h
  | cons c rest ih =>
    rw [findEndTag?] at h
    split at h
    · next n hn =>
      simp only [Option.some.injEq, Prod.mk.injEq] at h
      obtain ⟨rfl, rfl⟩ := h
      obtain ⟨tag, back, he, rfl, ht⟩ := endTagLength?_eq_some_iff.mp hn
      refine ⟨[], tag, back, he, rfl, rfl, ht, fun _ _ _ _ _ => Nat.zero_le _, fun _ more => ?_⟩
      obtain ⟨d, ds, rfl⟩ := List.exists_cons_of_ne_nil ht.ne_nil
      have hlen := endTagLength?_eq_some_iff.mpr ⟨d :: ds, more, rfl, rfl, ht⟩
      rw [List.nil_append, List.cons_append, findEndTag?, ← List.cons_append, hlen]
    · next hn =>
      obtain ⟨⟨b, l⟩, hb, he⟩ := Option.map_eq_some_iff.mp h
      simp only [Prod.mk.injEq] at he
      obtain ⟨rfl, rfl⟩ := he
      obtain ⟨content, tag, back, rfl, rfl, rfl, ht, hfirst, hmore⟩ := ih hb
      -- An end tag that starts at `c` would have been found before this one.
      have hnone : ∀ front tag' more, front ++ tag' ++ more = c :: (content ++ tag ++ back) →
          IsEndTag name tag' → front ≠ [] := by
        rintro front tag' more he ht' rfl
        rw [endTagLength?_eq_some_iff.mpr ⟨tag', more, he.symm, rfl, ht'⟩] at hn
        simp at hn
      refine ⟨c :: content, tag, back, rfl, rfl, rfl, ht, ?_, ?_⟩
      · intro front tag' more he ht'
        cases front with
        | nil => exact absurd rfl (hnone [] tag' more he.symm ht')
        | cons d ds =>
          simp only [List.cons_append, List.cons.injEq] at he
          exact Nat.succ_le_succ (hfirst ds tag' more he.2 ht')
      · intro hgt more
        have hnone' : endTagLength? name (c :: (content ++ tag ++ more)) = none := by
          by_contra hsome
          obtain ⟨n, hs⟩ := Option.ne_none_iff_exists'.mp hsome
          obtain ⟨tag', rest, he, -, ht'⟩ := endTagLength?_eq_some_iff.mp hs
          have hle : tag'.length ≤ (c :: content ++ tag).length := by
            obtain ⟨blanks, -, rfl⟩ := ht
            have hsplit : tag' ++ rest =
                c :: content ++ ('<' :: '/' :: name ++ blanks) ++ '>' :: more :=
              he.symm.trans (by simp)
            have hl := ht'.length_le hgt hsplit
            simp only [List.length_append, List.length_cons, List.length_nil] at hl ⊢
            omega
          obtain ⟨e, hc, -⟩ := eq_append_of_append_eq (d := more) he.symm hle
          exact hnone [] tag' (e ++ back)
            (by rw [List.nil_append, ← List.append_assoc, ← hc]; rfl) ht' rfl
        rw [List.cons_append, List.cons_append, findEndTag?, hnone', hmore hgt more]
        rfl

def tagStop (selfClosing : Bool) : List Char := if selfClosing then ['/', '>'] else ['>']

theorem tagRest_reads {name : String} {start k pos : Nat} {text : List Char} {r : TagRest}
    (h : tagRest name start k pos text = .ok r) :
    ∃ inner rest, text = inner ++ tagStop r.selfClosing ++ rest ∧
      r.stop = pos + (inner ++ tagStop r.selfClosing).length := by
  fun_induction tagRest name start k pos text generalizing r with
  | case1 | case6 | case7 => simp at h
  | case2 pos k c rest ih | case3 pos c rest hb ih =>
    obtain ⟨inner, more, rfl, hs⟩ := ih h
    exact ⟨c :: inner, more, rfl, by simp only [List.cons_append, List.length_cons]; omega⟩
  | case4 pos c rest hb hc =>
    obtain ⟨rfl, hr⟩ := hc
    cases h
    cases rest with
    | nil => simp at hr
    | cons d ds =>
      obtain rfl : d = '>' := by simpa using hr
      exact ⟨[], ds, rfl, rfl⟩
  | case5 pos rest hb hc =>
    cases h
    exact ⟨[], rest, rfl, rfl⟩
  | case8 pos c rest hb hc hd a ha more hm ih =>
    cases h
    obtain ⟨inner, after, rfl, hs⟩ := ih hm
    exact ⟨c :: inner, after, rfl, by simp only [List.cons_append, List.length_cons]; omega⟩

def StartTag.Covers (tag : StartTag) (pos : Nat) (used : List Char) : Prop :=
  tag.span = ⟨pos, pos + used.length⟩ ∧ IsTagName tag.name.toList ∧
    ∃ inner, used = '<' :: tag.name.toList ++ inner ++ tagStop tag.selfClosing

/-- A closing tag as markup reads it, with any blanks around the name. -/
def IsClosingTag (name tag : List Char) : Prop :=
  ∃ inner, '>' ∉ inner ∧ trim inner = name ∧ tag = '<' :: '/' :: inner ++ ['>']

theorem IsEndTag.isClosingTag {name tag : List Char} (h : IsEndTag name tag) (hn : IsTagName name) :
    IsClosingTag name tag := by
  obtain ⟨blanks, hb, rfl⟩ := h
  refine ⟨name ++ blanks, ?_, trim_append_blanks hn.not_blank hb, by simp⟩
  simp only [List.mem_append, not_or]
  exact ⟨hn.not_mem (by decide), not_mem_of_forall (List.all_eq_true.mp hb) (by decide)⟩

def Token.Covers (pos : Nat) (used : List Char) : Token → Prop
  | .text content span | .comment content span =>
    span = ⟨pos, pos + used.length⟩ ∧ content.toList = used
  | .startTag tag => tag.Covers pos used ∧ (tag.selfClosing = true ∨ tag.name ∉ rawNames)
  | .rawElement tag content stop =>
    tag.selfClosing = false ∧ tag.name ∈ rawNames ∧ stop = pos + used.length ∧
      ∃ opening closing, used = opening ++ content.toList ++ closing ∧ tag.Covers pos opening ∧
        IsEndTag tag.name.toList closing
  | .endTag name span => span = ⟨pos, pos + used.length⟩ ∧ IsClosingTag name.toList used

def Token.ReadAt (t : Token) (pos : Nat) (text : List Char) : Prop :=
  ∃ used rest, text = used ++ rest ∧ used ≠ [] ∧ t.stop = pos + used.length ∧ t.Covers pos used

inductive Started (pos : Nat) (name more : List Char) : Token → Prop
  | tag {r : TagRest} (rest : tagRest (String.ofList name) pos 0 (pos + 1 + name.length) more = .ok r)
      (plain : r.selfClosing = true ∨ String.ofList name ∉ rawNames) :
      Started pos name more
        (.startTag ⟨String.ofList name, ⟨pos, r.stop⟩, r.attributes, r.selfClosing⟩)
  | raw {r : TagRest} {before length : Nat}
      (rest : tagRest (String.ofList name) pos 0 (pos + 1 + name.length) more = .ok r)
      (paired : r.selfClosing = false) (raw : String.ofList name ∈ rawNames)
      (found : findEndTag? name (('<' :: name ++ more).drop (r.stop - pos)) = some (before, length)) :
      Started pos name more
        (.rawElement ⟨String.ofList name, ⟨pos, r.stop⟩, r.attributes, r.selfClosing⟩
          (String.ofList ((('<' :: name ++ more).drop (r.stop - pos)).take before))
          (r.stop + before + length))

theorem startToken_started {pos : Nat} {name more : List Char} {t : Token}
    (h : startToken pos name ('<' :: name ++ more) = .ok t) : Started pos name more t := by
  have hd : ('<' :: name ++ more).drop (name.length + 1) = more := by simp
  rw [startToken, hd] at h
  split at h
  · simp at h
  · next r hr =>
    dsimp only at h
    split at h
    · next hc =>
      cases h
      exact .tag hr (by simpa using hc)
    · next hc =>
      simp only [Bool.or_eq_true, Bool.not_eq_true', decide_eq_false_iff_not, not_or, Decidable.not_not,
        Bool.not_eq_true] at hc
      split at h
      · simp at h
      · next before length hf =>
        cases h
        exact .raw hr hc.1 hc.2 hf

theorem startTag_covers {pos : Nat} {name inner : List Char} {r : TagRest} (hn : IsTagName name)
    (hs : r.stop = pos + 1 + name.length + (inner ++ tagStop r.selfClosing).length) :
    StartTag.Covers ⟨String.ofList name, ⟨pos, r.stop⟩, r.attributes, r.selfClosing⟩ pos
      ('<' :: name ++ inner ++ tagStop r.selfClosing) := by
  refine ⟨?_, by simpa using hn, inner, by simp⟩
  rw [hs]
  simp only [List.length_append, List.length_cons]
  congr 1
  omega

theorem startToken_readAt {pos : Nat} {name more : List Char} {t : Token} (hn : IsTagName name)
    (h : startToken pos name ('<' :: name ++ more) = .ok t) :
    t.ReadAt pos ('<' :: name ++ more) := by
  cases startToken_started h with
  | @tag r hr plain =>
    obtain ⟨inner, rest, rfl, hs⟩ := tagRest_reads hr
    have hcov := startTag_covers hn hs
    exact ⟨_, rest, by simp, by simp, congrArg Span.stop hcov.1, hcov, by simpa using plain⟩
  | @raw r before length hr paired raw found =>
    obtain ⟨inner, rest, rfl, hs⟩ := tagRest_reads hr
    have hcov := startTag_covers hn hs
    have hstop : r.stop = pos + ('<' :: name ++ inner ++ tagStop r.selfClosing).length :=
      congrArg Span.stop hcov.1
    have hdrop : ('<' :: name ++ (inner ++ tagStop r.selfClosing ++ rest)).drop (r.stop - pos) =
        rest := by
      rw [hstop, Nat.add_sub_cancel_left]
      simp
    rw [hdrop] at found ⊢
    obtain ⟨content, tag, back, rfl, rfl, rfl, ht, -, -⟩ := findEndTag?_reads found
    have hlen : r.stop + content.length + tag.length =
        pos + ('<' :: name ++ inner ++ tagStop r.selfClosing ++ content ++ tag).length := by
      rw [hstop]
      simp only [List.length_append]
      omega
    exact ⟨'<' :: name ++ inner ++ tagStop r.selfClosing ++ content ++ tag, back, by simp, by simp,
      hlen, paired, raw, hlen, _, tag, by simp, hcov, by simpa using ht⟩

theorem text_readAt (pos : Nat) {used : List Char} (rest : List Char) (h : used ≠ []) :
    (Token.text (String.ofList used) ⟨pos, pos + used.length⟩).ReadAt pos (used ++ rest) :=
  ⟨used, rest, rfl, h, rfl, rfl, String.toList_ofList⟩

theorem comment_readAt (pos : Nat) {after : List Char} {i : Nat}
    (h : indexOf? commentStop after = some i) :
    (Token.comment (String.ofList ((commentStart ++ after).take (i + 7))) ⟨pos, pos + i + 7⟩).ReadAt pos
      (commentStart ++ after) := by
  obtain ⟨before, more, rfl, rfl, -⟩ := indexOf?_reads h
  have hlen : before.length + 7 = (commentStart ++ before ++ commentStop).length := by
    simp only [commentStart, commentStop, List.length_append, List.length_cons, List.length_nil]
    omega
  refine ⟨commentStart ++ before ++ commentStop, more, by simp, by simp [commentStart], ?_, ?_, ?_⟩
  · rw [← hlen, ← Nat.add_assoc]
    rfl
  · rw [← hlen, ← Nat.add_assoc]
  · rw [hlen, String.toList_ofList, ← List.append_assoc, ← List.append_assoc, List.take_left]

theorem closing_of_indexOf? {after : List Char} {i : Nat}
    (h : indexOf? ['>'] ('<' :: '/' :: after) = some i) :
    ∃ inner more, after = inner ++ '>' :: more ∧ i = inner.length + 2 ∧ '>' ∉ inner ∧
      slice 2 i ('<' :: '/' :: after) = inner := by
  obtain ⟨before, more, hb, rfl, hn⟩ := indexOf?_singleton_eq_some_iff.mp h
  match before, hb with
  | [], hb => simp at hb
  | [d], hb => simp at hb
  | d :: e :: inner, hb =>
    simp only [List.cons_append, List.cons.injEq] at hb
    obtain ⟨rfl, rfl, rfl⟩ := hb
    simp only [List.mem_cons, not_or] at hn
    exact ⟨inner, more, rfl, rfl, hn.2.2, by simp [slice]⟩

theorem endTag_readAt (pos : Nat) {after : List Char} {i : Nat}
    (h : indexOf? ['>'] ('<' :: '/' :: after) = some i) :
    (Token.endTag (String.ofList (trim (slice 2 i ('<' :: '/' :: after)))) ⟨pos, pos + i + 1⟩).ReadAt pos
      ('<' :: '/' :: after) := by
  obtain ⟨inner, more, rfl, rfl, hgt, hs⟩ := closing_of_indexOf? h
  rw [hs]
  refine ⟨'<' :: '/' :: inner ++ ['>'], more, by simp, by simp, ?_, ?_, inner, hgt, ?_, rfl⟩
  · simp [Token.stop, Nat.add_assoc]
  · simp [Nat.add_assoc]
  · rw [String.toList_ofList]

/-- The kinds of tokens, each with what `text` has to start with. -/
inductive Scanned (pos : Nat) : List Char → Token → Prop
  | comment {after : List Char} {i : Nat} (stop : indexOf? commentStop after = some i) :
      Scanned pos (commentStart ++ after)
        (.comment (String.ofList ((commentStart ++ after).take (i + 7))) ⟨pos, pos + i + 7⟩)
  | endTag {after : List Char} {i : Nat} (stop : indexOf? ['>'] ('<' :: '/' :: after) = some i) :
      Scanned pos ('<' :: '/' :: after)
        (.endTag (String.ofList (trim (slice 2 i ('<' :: '/' :: after)))) ⟨pos, pos + i + 1⟩)
  | opening {name more : List Char} {t : Token} (isName : IsTagName name)
      (whole : ∀ d ∈ more.head?, isTagNameChar d = false)
      (read : startToken pos name ('<' :: name ++ more) = .ok t) : Scanned pos ('<' :: name ++ more) t
  | mustache {inner : List Char} (rest : List Char) (balanced : Balanced ('{' :: inner)) :
      Scanned pos ('{' :: inner ++ rest)
        (.text (String.ofList ('{' :: inner)) ⟨pos, pos + ('{' :: inner).length⟩)
  | plain {c : Char} {run rest : List Char} (notBrace : c ≠ '{')
      (lone : c = '<' → ¬ ['!', '-', '-'] <+: run ++ rest ∧ ¬ ['/'] <+: run ++ rest ∧
        tagName? (run ++ rest) = none)
      (inside : ∀ d ∈ run, d ≠ '<' ∧ d ≠ '{') (after : ∀ d ∈ rest.head?, d = '<' ∨ d = '{') :
      Scanned pos (c :: run ++ rest) (.text (String.ofList (c :: run)) ⟨pos, pos + (c :: run).length⟩)

theorem nextToken_scanned {pos : Nat} {c : Char} {rest : List Char} {t : Token}
    (h : nextToken pos c rest = .ok t) : Scanned pos (c :: rest) t := by
  unfold nextToken at h
  dsimp only at h
  split at h
  · next hp =>
    obtain ⟨after, he⟩ := List.isPrefixOf_iff_prefix.mp hp
    rw [← he] at h ⊢
    split at h
    · simp at h
    · next i hi =>
      cases h
      exact .comment hi
  · next hcomment =>
    split at h
    · next hp =>
      obtain ⟨after, he⟩ := List.isPrefixOf_iff_prefix.mp hp
      rw [← he] at h ⊢
      split at h
      · simp at h
      · next i hi =>
        cases h
        exact .endTag hi
    · next hend =>
      split at h
      · next name hn =>
        split at hn
        · next hc =>
          subst hc
          obtain ⟨hname, more, rfl, hm⟩ := tagName?_eq_some_iff.mp hn
          exact .opening hname hm h
        · simp at hn
      · next hn =>
        split at h
        · next hc =>
          subst hc
          obtain ⟨stop, hs, ht⟩ := bind_eq_ok.mp h
          obtain ⟨used, more, he, rfl, hb⟩ := skipExpression_eq_ok_iff.mp hs
          obtain ⟨d, inner, rfl⟩ := List.exists_cons_of_ne_nil hb.ne_nil
          obtain rfl : d = '{' := (List.cons.inj he).1.symm
          cases ht
          rw [he, Nat.add_sub_cancel_left, List.take_left]
          exact .mustache more hb
        · next hc =>
          cases h
          have hsplit : rest = rest.takeWhile (fun c => c != '<' && c != '{') ++
              rest.dropWhile fun c => c != '<' && c != '{' := by simp
          conv => arg 2; rw [hsplit]
          refine .plain hc ?_ ?_ ?_
          · rintro rfl
            rw [← hsplit]
            refine ⟨fun hp => hcomment ?_, fun hp => hend ?_, by simpa using hn⟩
            · exact List.isPrefixOf_iff_prefix.mpr ((List.prefix_cons_inj '<').mpr hp)
            · exact List.isPrefixOf_iff_prefix.mpr ((List.prefix_cons_inj '<').mpr hp)
          · intro d hd
            simpa using List.mem_takeWhile_imp hd
          · intro d hd
            have hnot := List.head?_dropWhile_not (fun c => c != '<' && c != '{') rest
            rw [hd] at hnot
            simpa [or_iff_not_imp_left] using hnot

theorem nextToken_readAt {pos : Nat} {c : Char} {rest : List Char} {t : Token}
    (h : nextToken pos c rest = .ok t) : t.ReadAt pos (c :: rest) := by
  generalize htext : c :: rest = text
  have hs := nextToken_scanned h
  rw [htext] at hs
  cases hs with
  | comment stop => exact comment_readAt pos stop
  | endTag stop => exact endTag_readAt pos stop
  | opening isName whole read => exact startToken_readAt isName read
  | mustache rest balanced => exact text_readAt pos rest (List.cons_ne_nil _ _)
  | plain => exact text_readAt pos _ (List.cons_ne_nil _ _)

theorem tokensFrom_append (pos : Nat) (used rest : List Char) :
    tokensFrom used.length pos (used ++ rest) = tokensFrom 0 (pos + used.length) rest := by
  induction used generalizing pos with
  | nil => rfl
  | cons c cs ih =>
    rw [List.length_cons, List.cons_append, tokensFrom, ih]
    congr 1
    omega

theorem tokensFrom_cons {pos : Nat} {c : Char} {rest used more : List Char} {t : Token}
    (h : nextToken pos c rest = .ok t) (he : c :: rest = used ++ more) (hne : used ≠ [])
    (hs : t.stop = pos + used.length) :
    tokensFrom 0 pos (c :: rest) =
      (t :: (tokensFrom 0 (pos + used.length) more).1, (tokensFrom 0 (pos + used.length) more).2) := by
  cases used with
  | nil => exact absurd rfl hne
  | cons d ds =>
    simp only [List.cons_append, List.cons.injEq] at he
    obtain ⟨rfl, rfl⟩ := he
    have hk : t.stop - pos - 1 = ds.length := by
      rw [hs, List.length_cons]
      omega
    rw [tokensFrom, h]
    dsimp only
    rw [hk, tokensFrom_append, List.length_cons, Nat.add_right_comm, Nat.add_assoc]

/-- The tokens read from `text`, which starts at `pos`, one after another up to its end. -/
inductive TokenRun : Nat → List Char → List Token → Prop
  | done (pos : Nat) : TokenRun pos [] []
  | token {pos : Nat} {c : Char} {rest used more : List Char} {t : Token} {ts : List Token}
      (read : nextToken pos c rest = .ok t) (text : c :: rest = used ++ more)
      (stop : t.stop = pos + used.length) (nonempty : used ≠ []) (covers : t.Covers pos used)
      (tail : TokenRun (pos + used.length) more ts) : TokenRun pos (c :: rest) (t :: ts)

theorem tokenRun_of_tokensFrom {pos : Nat} {text : List Char} {ts : List Token}
    (h : tokensFrom 0 pos text = (ts, none)) : TokenRun pos text ts := by
  -- A token takes more than one character, so the induction is on the length.
  induction hl : text.length using Nat.strongRecOn generalizing pos text ts with
  | _ n ih =>
    cases text with
    | nil =>
      obtain rfl : ts = [] := by simpa [tokensFrom] using h.symm
      exact .done pos
    | cons c rest =>
      cases ht : nextToken pos c rest with
      | error e => simp [tokensFrom, ht] at h
      | ok t =>
        obtain ⟨used, more, he, hne, hs, hc⟩ := nextToken_readAt ht
        rw [tokensFrom_cons ht he hne hs, Prod.mk.injEq] at h
        obtain ⟨rfl, hm⟩ := h
        refine .token ht he hs hne hc (ih more.length ?_ (Prod.ext rfl hm) rfl)
        have hpos := List.length_pos_iff.mpr hne
        have hlen := congrArg List.length he
        rw [List.length_append] at hlen
        omega

end ComponentDoc.Markup
