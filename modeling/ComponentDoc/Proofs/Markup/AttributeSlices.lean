import ComponentDoc.Proofs.Markup.Faults
import ComponentDoc.Proofs.Markup.Places

namespace ComponentDoc

namespace Text

theorem run_inj {p : Char → Bool} {s s' t t' : List Char} (hs : ∀ c ∈ s, p c = true)
    (ht : ∀ c ∈ t.head?, p c = false) (hs' : ∀ c ∈ s', p c = true) (ht' : ∀ c ∈ t'.head?, p c = false)
    (h : s ++ t = s' ++ t') : s = s' ∧ t = t' := by
  have hrun : s = s' := by rw [← takeWhile_append_stop hs ht, h, takeWhile_append_stop hs' ht']
  subst hrun
  exact ⟨rfl, List.append_cancel_left h⟩

end Text

namespace Markup

open Text

variable {text : List Char}

section Sole

def IsSole (value : List Char) : Prop :=
  ∃ front code back, allBlank front = true ∧ Balanced (braces code) ∧ allBlank back = true ∧
    value = front ++ braces code ++ back

def lead (value : List Char) : Nat := (value.takeWhile (· != '{')).length

theorem brace_not_mem_of_allBlank {front : List Char} (h : allBlank front = true) : '{' ∉ front :=
  not_mem_of_forall (List.all_eq_true.mp h) (by decide)

theorem lead_append {front : List Char} (h : '{' ∉ front) (rest : List Char) :
    lead (front ++ '{' :: rest) = front.length := by
  have hstop : ∀ c ∈ ('{' :: rest).head?, (c != '{') = false := by simp
  rw [lead, takeWhile_append_stop (fun c hc => ?_) hstop]
  rw [bne_iff_ne]
  rintro rfl
  exact h hc

theorem soleExpression?_sole {front code back : List Char} (hfront : allBlank front = true)
    (hcode : Balanced (braces code)) (hback : allBlank back = true) :
    soleExpression? (front ++ braces code ++ back) = .ok (some (front.length + 1, code)) := by
  have hsplit : front ++ braces code ++ back = front ++ '{' :: (code ++ ['}'] ++ back) := by simp [braces]
  have hcut := cutAt_append (brace_not_mem_of_allBlank hfront) (code ++ ['}'] ++ back)
  have hdrop : (front ++ braces code ++ back).drop front.length = braces code ++ back := by simp
  have hlength : front.length + (braces code).length = (front ++ braces code).length := by simp
  have hslice : slice (front.length + 1) ((front ++ braces code).length - 1) (front ++ braces code ++ back) = code := by
    rw [slice, List.length_append, braces_length, ← List.drop_drop, hdrop,
      show front.length + (code.length + 2) - 1 - (front.length + 1) = code.length by omega]
    simp [braces]
  rw [← hsplit] at hcut
  rw [soleExpression?, hcut]
  dsimp only
  rw [if_pos hfront, hdrop, hcode.skip, hlength]
  dsimp only
  rw [List.drop_left, if_pos hback, hslice]

theorem not_isSole {value : List Char} (h : soleExpression? value = .ok none) : ¬IsSole value := by
  rintro ⟨front, code, back, hfront, hcode, hback, rfl⟩
  rw [soleExpression?_sole hfront hcode hback] at h
  cases h

theorem not_isSole_of_head {c : Char} {tail : List Char} (hblank : isBlank c = false) (hbrace : c ≠ '{') :
    ¬IsSole (c :: tail) := by
  rintro ⟨front, code, back, hfront, -, -, hvalue⟩
  cases front with
  | nil => exact hbrace (List.cons.inj hvalue).1
  | cons d front =>
    obtain rfl := (List.cons.inj hvalue).1
    have hd := List.all_eq_true.mp hfront c List.mem_cons_self
    rw [hblank] at hd
    cases hd

end Sole

section Reading

def Attribute.ReadIn (a : Attribute) (text : List Char) : Prop :=
  ∃ pos c rest, StandsFrom text pos (c :: rest) ∧ readAttribute pos c rest = .ok a

theorem tagRest_readIn {name : String} {start k pos : Nat} {rest : List Char} {r : TagRest}
    (h : tagRest name start k pos rest = .ok r) (ht : StandsFrom text pos rest) :
    ∀ a ∈ r.attributes, a.ReadIn text := by
  fun_induction tagRest name start k pos rest generalizing r with
  | case1 | case6 | case7 => simp at h
  | case2 k pos c rest ih | case3 pos c rest hb ih => exact ih h ht.tail
  | case4 | case5 =>
    cases h
    exact List.forall_mem_nil _
  | case8 pos c rest hb hc hd a ha more hm ih =>
    cases h
    exact List.forall_mem_cons.mpr ⟨⟨pos, c, rest, ht, ha⟩, ih hm ht.tail⟩

theorem TokenRun.exists_tagRest {rest : List Char} {pos : Nat} {ts : List Token} (h : TokenRun pos rest ts)
    (ht : StandsFrom text pos rest) :
    ∀ tag ∈ ts.flatMap Token.tags, ∃ name start pos rest r, StandsFrom text pos rest ∧
      tagRest name start 0 pos rest = .ok r ∧ tag.attributes = r.attributes ∧ tag.selfClosing = r.selfClosing ∧
      tag.span.stop = r.stop := by
  induction h with
  | done => exact List.forall_mem_nil _
  | @token pos c rest used more t ts read split stop nonempty covers tail ih =>
    rw [List.flatMap_cons, List.forall_mem_append]
    refine ⟨?_, ih (by rw [split] at ht; exact ht.drop)⟩
    intro tag htag
    have hscanned := nextToken_scanned read
    generalize c :: rest = shown at hscanned ht
    cases hscanned with
    | @opening name more t isName whole started =>
      obtain ⟨r, hr, rfl⟩ := (startToken_started started).tag_eq tag htag
      exact ⟨_, _, _, _, r, ht.behind_name.2, hr, rfl, rfl, rfl⟩
    | comment | endTag | mustache | plain => exact absurd htag List.not_mem_nil

theorem TagRead.before_stop {pos : Nat} {rest : List Char} {r : TagRest} (h : TagRead pos rest r) :
    pos + (tagStop r.selfClosing).length ≤ r.stop ∧
      ∀ a ∈ r.attributes, a.span.stop + (tagStop r.selfClosing).length ≤ r.stop := by
  induction h with
  | blank isBlank tail ih => exact ⟨by omega, ih.2⟩
  | slash | sign => exact ⟨Nat.le_refl _, List.forall_mem_nil _⟩
  | @whole pos used more a r shaped tail ih =>
    obtain ⟨hle, hmore⟩ := ih
    refine ⟨by dsimp only; omega, List.forall_mem_cons.mpr ⟨?_, hmore⟩⟩
    rw [shaped.stop_eq]
    exact hle

theorem attributeValue_text {name value : String} {start pos offset stop : Nat} {rest : List Char}
    (h : attributeValue name start pos rest = .ok (.text value offset, stop)) : ¬IsSole value.toList := by
  rw [attributeValue] at h
  dsimp only at h
  generalize pos + (rest.takeWhile isBlank).length = pos at h
  split at h
  · cases h
  · next c rest hrest =>
    split at h
    · obtain ⟨stop', -, h⟩ := bind_eq_ok.mp h
      obtain ⟨sole, hsole, h⟩ := bind_eq_ok.mp h
      cases sole with
      | none =>
        cases h
        rw [String.toList_ofList]
        exact not_isSole hsole
      | some found => cases h
    · split at h
      · obtain ⟨stop', -, h⟩ := bind_eq_ok.mp h
        cases h
      · next hbrace =>
        split at h
        · cases h
        · next hne =>
          cases h
          have hc : isUnquotedChar c = true := by
            by_contra hc
            exact hne (List.takeWhile_cons_of_neg hc)
          have hblank : isBlank c = false := by
            simp only [isUnquotedChar, Bool.not_eq_true', Bool.or_eq_false_iff] at hc
            exact hc.1
          rw [String.toList_ofList, List.takeWhile_cons_of_pos hc]
          exact not_isSole_of_head hblank hbrace

theorem readAttribute_text {pos : Nat} {c : Char} {rest : List Char} {a : Attribute} {value : String} {offset : Nat}
    (h : readAttribute pos c rest = .ok a) (hvalue : a.content = .text value offset) : ¬IsSole value.toList := by
  unfold readAttribute at h
  split at h
  · obtain ⟨stop, -, h⟩ := bind_eq_ok.mp h
    cases h
    unfold bracedAttribute at hvalue
    dsimp only at hvalue
    split at hvalue <;> cases hvalue
  · split at h
    · cases h
    · dsimp only at h
      split at h
      · obtain ⟨⟨content, stop⟩, hcontent, h⟩ := bind_eq_ok.mp h
        cases h
        obtain rfl : content = .text value offset := hvalue
        exact attributeValue_text hcontent
      · cases h
        cases hvalue

end Reading

section Places

theorem Attribute.ReadIn.standsIn {a : Attribute} (h : a.ReadIn text) : a.StandsIn text := by
  obtain ⟨pos, c, rest, ⟨before, rfl, rfl⟩, hread⟩ := h
  obtain ⟨used, more, hsplit, hshape⟩ := readAttribute_shaped hread
  exact ⟨before, used, more, by rw [hsplit, List.append_assoc], hshape⟩

namespace Attribute.StandsIn

variable {a : Attribute} (h : a.StandsIn text)

include h

theorem value {value : String} {offset : Nat} (hvalue : a.value? = some (value, offset)) :
    StandsAt text offset value.toList ∧ a.span.start < offset ∧ offset + value.length ≤ a.span.stop := by
  obtain ⟨before, used, more, rfl, hshape⟩ := h
  cases hshape with
  | bare => simp [value?] at hvalue
  | @assigned name equals written content isName isEquals valued =>
    have hname := List.length_pos_iff.mpr isName.1
    cases valued with
    | quotedExpression | braced => simp [value?] at hvalue
    | @quoted quote inside =>
      obtain ⟨rfl, rfl⟩ := Prod.mk.inj (Option.some.inj hvalue)
      refine ⟨⟨before ++ name ++ equals ++ [quote], quote :: more, by simp, ?_⟩, ?_, ?_⟩
      · simp only [List.length_append, List.length_cons, List.length_nil]
      · dsimp only
        omega
      · simp only [List.length_append, List.length_cons, List.length_nil, String.length_ofList]
        omega
    | @unquoted c tail =>
      obtain ⟨rfl, rfl⟩ := Prod.mk.inj (Option.some.inj hvalue)
      refine ⟨⟨before ++ name ++ equals, more, by simp, ?_⟩, ?_, ?_⟩
      · simp only [List.length_append]
      · dsimp only
        omega
      · simp only [List.length_append, String.length_ofList]
        omega
  | @alone inner =>
    unfold bracedAttribute at hvalue
    dsimp only at hvalue
    split at hvalue <;> simp [value?] at hvalue

theorem spread {code : String} {offset : Nat} (hspread : a.isSpread = true)
    (hcode : a.expression? = some (code, offset)) :
    StandsAt text offset code.toList ∧ a.span.start < offset ∧ offset + code.length < a.span.stop := by
  obtain ⟨before, used, more, rfl, hshape⟩ := h
  cases hshape with
  | bare => simp [isSpread] at hspread
  | assigned _ _ valued => cases valued <;> simp [isSpread] at hspread
  | @alone inner =>
    unfold bracedAttribute at hspread hcode ⊢
    dsimp only at hspread hcode ⊢
    split at hspread
    · next code' hdots =>
      simp only [hdots, expression?] at hcode ⊢
      obtain ⟨rfl, rfl⟩ := Prod.mk.inj (Option.some.inj hcode)
      obtain ⟨back, -, hback⟩ := exists_trimEnd_append (trimStart inner)
      have hinner : inner = inner.takeWhile isBlank ++ (['.', '.', '.'] ++ code') ++ back := by
        rw [← dropStart?_eq_some_iff.mp hdots, List.append_assoc, trim, ← hback]
        exact List.takeWhile_append_dropWhile.symm
      have hlength := congrArg List.length hinner
      generalize inner.takeWhile isBlank = front at hinner hlength ⊢
      simp only [List.length_append, List.length_cons, List.length_nil] at hlength
      refine ⟨⟨before ++ '{' :: front ++ ['.', '.', '.'], back ++ '}' :: more, ?_, ?_⟩, ?_, ?_⟩
      · rw [hinner]
        simp [braces]
      · simp only [List.length_append, List.length_cons, List.length_nil]
        omega
      · omega
      · simp only [String.length_ofList, braces_length]
        omega
    · simp [isSpread] at hspread

end Attribute.StandsIn

end Places

section Quotes

/-- The attribute is written as a name, an equals sign and `value` in quotes. -/
def Attribute.Quotes (a : Attribute) (text value : List Char) : Prop :=
  ∃ name equals quote, IsAttributeName name ∧ IsEquals equals ∧ (quote = '"' ∨ quote = '\'') ∧
    a.span.of text = name ++ equals ++ quote :: value ++ [quote]

theorem IsEquals.head {equals : List Char} (h : IsEquals equals) (tail : List Char) :
    ∀ c ∈ (equals ++ tail).head?, isAttributeNameChar c = false := by
  obtain ⟨front, back, hfront, -, rfl⟩ := h
  intro c hc
  cases front with
  | nil =>
    obtain rfl : c = '=' := by simpa using hc.symm
    decide
  | cons d front =>
    obtain rfl : c = d := by simpa using hc.symm
    have hd : isBlank c = true := List.all_eq_true.mp hfront c List.mem_cons_self
    simp [isAttributeNameChar, hd]

theorem IsEquals.append_inj {equals equals' tail tail' : List Char} (h : IsEquals equals) (h' : IsEquals equals')
    (htail : ∀ c ∈ tail.head?, isBlank c = false) (htail' : ∀ c ∈ tail'.head?, isBlank c = false)
    (heq : equals ++ tail = equals' ++ tail') : equals = equals' ∧ tail = tail' := by
  obtain ⟨front, back, hfront, hback, rfl⟩ := h
  obtain ⟨front', back', hfront', hback', rfl⟩ := h'
  have hsign (s : List Char) : ∀ c ∈ ('=' :: s).head?, isBlank c = false := by
    intro c hc
    obtain rfl : c = '=' := by simpa using hc.symm
    decide
  have hsplit : front ++ '=' :: (back ++ tail) = front' ++ '=' :: (back' ++ tail') := by simpa using heq
  obtain ⟨rfl, hrest⟩ :=
    run_inj (List.all_eq_true.mp hfront) (hsign _) (List.all_eq_true.mp hfront') (hsign _) hsplit
  obtain ⟨rfl, rfl⟩ := run_inj (List.all_eq_true.mp hback) htail (List.all_eq_true.mp hback') htail'
    (List.cons.inj hrest).2
  exact ⟨rfl, rfl⟩

theorem Valued.head {pos : Nat} {more value : List Char} {content : AttributeContent}
    (h : Valued pos more value content) : ∀ c ∈ value.head?, isBlank c = false := by
  intro c hc
  cases h with
  | quoted isQuote | quotedExpression isQuote =>
    obtain rfl : c = _ := by simpa using hc.symm
    exact isBlank_of_quote isQuote
  | braced =>
    obtain rfl : c = '{' := by simpa [braces] using hc.symm
    decide
  | unquoted first chars =>
    obtain rfl : c = _ := by simpa using hc.symm
    have hunquoted := chars c List.mem_cons_self
    simp only [isUnquotedChar, Bool.not_eq_true', Bool.or_eq_false_iff] at hunquoted
    exact hunquoted.1

theorem Valued.quotes {pos : Nat} {more value : List Char} {quote : Char} {content : AttributeContent}
    (hquote : quote = '"' ∨ quote = '\'') (h : Valued pos more (quote :: value ++ [quote]) content) :
    content = .text (String.ofList value) (pos + 1) ∨
      IsSole value ∧ ∃ code start, content = .quotedExpression code start (pos + 1) := by
  generalize hw : quote :: value ++ [quote] = written at h
  cases h with
  | quoted isQuote =>
    obtain ⟨rfl, hinside⟩ := List.cons.inj hw
    exact .inl (by rw [List.append_cancel_right hinside])
  | @quotedExpression q front code back isQuote front_blank balanced back_blank =>
    obtain ⟨rfl, hinside⟩ := List.cons.inj hw
    obtain rfl := List.append_cancel_right hinside
    exact .inr ⟨⟨front, code, back, front_blank, balanced, back_blank, rfl⟩, _, _, rfl⟩
  | braced =>
    obtain rfl := (List.cons.inj hw).1
    simp at hquote
  | unquoted first chars =>
    obtain rfl := (List.cons.inj hw).1
    have hunquoted := chars quote List.mem_cons_self
    obtain rfl | rfl := hquote <;> simp [isUnquotedChar, isBlank] at hunquoted

theorem Shaped.quotes {pos : Nat} {more used name equals value : List Char} {quote : Char} {a : Attribute}
    (h : Shaped pos more used a) (hname : IsAttributeName name) (hequals : IsEquals equals)
    (hquote : quote = '"' ∨ quote = '\'') (hused : used = name ++ equals ++ quote :: value ++ [quote]) :
    a.valueStart = pos + (name ++ equals).length + 1 ∧
      (a.content = .text (String.ofList value) a.valueStart ∨
        IsSole value ∧ ∃ code start, a.content = .quotedExpression code start a.valueStart) := by
  have hsplit : used = name ++ (equals ++ (quote :: value ++ [quote])) := by rw [hused]; simp
  cases h with
  | bare isName =>
    have hnot : isAttributeNameChar quote = false := by obtain rfl | rfl := hquote <;> decide
    have hmem : quote ∈ used := by rw [hsplit]; simp
    rw [isName.2 quote hmem] at hnot
    cases hnot
  | @assigned name' equals' written content isName isEquals valued =>
    rw [List.append_assoc] at hsplit
    obtain ⟨rfl, hrest⟩ := run_inj isName.2 (isEquals.head _) hname.2 (hequals.head _) hsplit
    have hhead : ∀ c ∈ (quote :: value ++ [quote]).head?, isBlank c = false := by
      intro c hc
      obtain rfl : c = quote := by simpa using hc.symm
      exact isBlank_of_quote hquote
    obtain ⟨rfl, rfl⟩ := isEquals.append_inj hequals valued.head hhead hrest
    have hstart : pos + name'.length + equals'.length + 1 = pos + (name' ++ equals').length + 1 := by
      rw [List.length_append, Nat.add_assoc pos]
    obtain rfl | ⟨hsole, code, start, rfl⟩ := valued.quotes hquote
    · exact ⟨hstart, .inl rfl⟩
    · exact ⟨hstart, .inr ⟨hsole, code, start, rfl⟩⟩
  | alone =>
    obtain ⟨c, tail, rfl⟩ := List.exists_cons_of_ne_nil hname.1
    obtain rfl : '{' = c := (List.cons.inj hsplit).1
    exact absurd (hname.2 '{' List.mem_cons_self) (by decide)

end Quotes

def Attribute.Holds (a : Attribute) (text : List Char) (piece : String × Nat) : Prop :=
  (spanAt piece.2 piece.1.length).Within a.span ∧ (spanAt piece.2 piece.1.length).of text = piece.1.toList

/-- What an attribute holds is what stands in the text. -/
structure Attribute.Exact (a : Attribute) (text : List Char) : Prop where
  value : ∀ piece ∈ a.value?, a.Holds text piece
  expression : ∀ piece ∈ a.expression?, a.Holds text piece
  exclusive : a.value? = none ∨ a.expression? = none
  quoted : ∀ value, a.Quotes text value → (a.expression?.isSome ↔ IsSole value)
  /-- Scanning the value alone ends where scanning the text does. -/
  scanned : ∀ value, a.Quotes text value → IsSole value → ∃ stop,
    skipExpression (lead value) (value.drop (lead value)) = .ok stop ∧
      skipExpression (a.valueStart + lead value) (text.drop (a.valueStart + lead value)) = .ok (a.valueStart + stop)

/-- The attributes of a tag stand between its name and its end. -/
structure StartTag.Exact (tag : StartTag) (text : List Char) : Prop where
  standsIn : tag.StandsIn text
  ascending : Span.Ascending (tag.attributes.map (·.span))
  between : ∀ a ∈ tag.attributes, tag.span.start + 1 + tag.name.length ≤ a.span.start ∧
    a.span.start < a.span.stop ∧ a.span.stop + (tagStop tag.selfClosing).length ≤ tag.span.stop
  each : ∀ a ∈ tag.attributes, a.Exact text

theorem Attribute.holds {a : Attribute} {piece : String × Nat} (hstands : StandsAt text piece.2 piece.1.toList)
    (hstart : a.span.start < piece.2) (hstop : piece.2 + piece.1.length ≤ a.span.stop) : a.Holds text piece := by
  refine ⟨⟨hstart.le, hstop⟩, ?_⟩
  rw [← String.length_toList]
  exact hstands.of_spanAt

theorem Attribute.ReadIn.exact {a : Attribute} (h : a.ReadIn text) : a.Exact text := by
  have hstands := h.standsIn
  have hquotes (value : List Char) (hq : a.Quotes text value) :
      StandsAt text a.valueStart value ∧ ((∃ start, a.content = .text (String.ofList value) start) ∨
        IsSole value ∧ ∃ code start quoted, a.content = .quotedExpression code start quoted) := by
    obtain ⟨name, equals, quote, hname, hequals, hquote, hof⟩ := hq
    obtain ⟨before, used, more, rfl, hshape⟩ := hstands
    have hused : a.span.of (before ++ used ++ more) = used :=
      Span.of_append more hshape.start_eq (by rw [hshape.stop_eq, hshape.start_eq])
    obtain ⟨hstart, hcontent⟩ := hshape.quotes hname hequals hquote (hused.symm.trans hof)
    refine ⟨⟨before ++ (name ++ equals ++ [quote]), quote :: more, ?_, ?_⟩, ?_⟩
    · rw [← hused, hof]
      simp
    · rw [hstart]
      simp only [List.length_append, List.length_cons, List.length_nil]
      omega
    · obtain hcontent | ⟨hsole, code, start, hcontent⟩ := hcontent
      · exact .inl ⟨_, hcontent⟩
      · exact .inr ⟨hsole, code, start, _, hcontent⟩
  constructor
  case value =>
    intro piece hpiece
    obtain ⟨hat, hstart, hstop⟩ := hstands.value hpiece
    exact holds hat hstart hstop
  case expression =>
    intro piece hpiece
    cases hspread : a.isSpread with
    | true =>
      obtain ⟨hat, hstart, hstop⟩ := hstands.spread hspread hpiece
      exact holds hat hstart hstop.le
    | false =>
      obtain ⟨hat, hstart, hstop⟩ := hstands.expression hspread hpiece
      exact holds hat hstart hstop.le
  case exclusive => cases hc : a.content <;> simp [value?, expression?, hc]
  case quoted =>
    intro value hq
    obtain ⟨pos, c, rest, -, hread⟩ := h
    obtain ⟨-, ⟨start, hcontent⟩ | ⟨hsole, code, start, quoted, hcontent⟩⟩ := hquotes value hq
    · have hnot := readAttribute_text hread hcontent
      rw [String.toList_ofList] at hnot
      exact iff_of_false (by simp [expression?, hcontent]) hnot
    · exact iff_of_true (by simp [expression?, hcontent]) hsole
  case scanned =>
    rintro value hq ⟨front, code, back, hfront, hcode, hback, rfl⟩
    obtain ⟨⟨before, after, rfl, hstart⟩, -⟩ := hquotes _ hq
    have hlead : lead (front ++ braces code ++ back) = front.length := by
      have hsplit : front ++ braces code ++ back = front ++ '{' :: (code ++ ['}'] ++ back) := by simp [braces]
      rw [hsplit, lead_append (brace_not_mem_of_allBlank hfront)]
    have hdrop : (before ++ (front ++ braces code ++ back) ++ after).drop (a.valueStart + front.length) =
        braces code ++ (back ++ after) := by
      rw [← hstart, ← List.drop_drop]
      simp
    rw [hlead, hdrop]
    refine ⟨front.length + (braces code).length, ?_, ?_⟩
    · rw [List.append_assoc, List.drop_left, hcode.skip]
    · rw [hcode.skip, Nat.add_assoc]

theorem attributes_exact {text : List Char} {nodes : List Node} (h : parse text = .ok nodes) :
    ∀ tag ∈ tagsOf nodes, tag.Exact text := by
  intro tag htag
  obtain ⟨hstands, hattributes⟩ := (tagsOf_readIn h).1 tag htag
  obtain ⟨ts, hrun, htags⟩ := tagsOf_eq_flatMap h
  rw [htags] at htag
  obtain ⟨name, start, pos, rest, r, hrest, hread, hsame, hclosing, hstop⟩ :=
    hrun.exists_tagRest (standsFrom_zero text) tag htag
  have hbefore := (tagRead_of_tagRest hread).before_stop.2
  rw [← hsame, ← hclosing, ← hstop] at hbefore
  have hreadIn := tagRest_readIn hread hrest
  rw [← hsame] at hreadIn
  refine ⟨hstands, hattributes.ascending, fun a ha => ⟨?_, ?_, hbefore a ha⟩, fun a ha => (hreadIn a ha).exact⟩
  · exact (hattributes.inside a ha).1
  · exact (hattributes.standsIn a ha).start_lt_stop

theorem attributes_exact_quoted_handler : ∃ nodes tag,
    parse "<p on:click=' \x7bf('\x7d')\x7d ' b = \"x{1}\" \x7b ...c \x7d d=e/>g</p>".toList = .ok nodes ∧
      tag ∈ tagsOf nodes ∧ (tag.attributes.map fun a => a.expression?.isSome) = [true, false, true, false] ∧
      tag.Exact "<p on:click=' \x7bf('\x7d')\x7d ' b = \"x{1}\" \x7b ...c \x7d d=e/>g</p>".toList := by
  have h : (parse "<p on:click=' \x7bf('\x7d')\x7d ' b = \"x{1}\" \x7b ...c \x7d d=e/>g</p>".toList).map
      (fun nodes => (tagsOf nodes).map fun tag => tag.attributes.map fun a => a.expression?.isSome) =
        .ok [[true, false, true, false]] := by decide +kernel
  obtain ⟨nodes, hnodes, hkinds⟩ := map_eq_ok.mp h
  obtain ⟨tag, htags, hkind⟩ := List.map_eq_singleton_iff.mp hkinds
  have htag : tag ∈ tagsOf nodes := htags ▸ List.mem_cons_self
  exact ⟨nodes, tag, hnodes, htag, hkind, attributes_exact hnodes tag htag⟩

end Markup

end ComponentDoc
