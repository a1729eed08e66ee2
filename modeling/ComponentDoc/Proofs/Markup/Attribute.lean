import ComponentDoc.Markup.Attribute
import ComponentDoc.Proofs.Markup.Expression
import ComponentDoc.Proofs.Text.Blank
import ComponentDoc.Proofs.Text.Search

namespace ComponentDoc.Markup

open Text

def braces (code : List Char) : List Char := '{' :: code ++ ['}']

@[simp]
theorem braces_length (code : List Char) : (braces code).length = code.length + 2 := by
  simp [braces]

theorem skipExpression_braces {pos stop : Nat} {rest : List Char}
    (h : skipExpression pos ('{' :: rest) = .ok stop) :
    ∃ code more, rest = code ++ '}' :: more ∧ stop = pos + (code.length + 2) ∧
      Balanced (braces code) := by
  obtain ⟨used, more, he, rfl, hbal⟩ := skipExpression_eq_ok_iff.mp h
  obtain ⟨front, rfl⟩ := List.getLast?_eq_some_iff.mp hbal.getLast?
  cases front with
  | nil => simp at he
  | cons d code =>
    obtain ⟨rfl, rfl⟩ := List.cons.inj he
    exact ⟨code, more, by simp, by simp, hbal⟩

theorem drop_length_takeWhile {α : Type} (p : α → Bool) (l : List α) :
    l.drop (l.takeWhile p).length = l.dropWhile p := by
  induction l with
  | nil => rfl
  | cons a l ih =>
    by_cases ha : p a = true
    · simpa [ha] using ih
    · simp [ha]

theorem not_of_mem_head?_dropWhile {α : Type} {p : α → Bool} {l : List α} :
    ∀ a ∈ (l.dropWhile p).head?, p a = false := by
  intro a ha
  have hn := List.head?_dropWhile_not p l
  rw [ha] at hn
  simpa using hn

def IsAttributeName (name : List Char) : Prop := name ≠ [] ∧ ∀ c ∈ name, isAttributeNameChar c = true

instance (name : List Char) : Decidable (IsAttributeName name) :=
  decidable_of_iff (name ≠ [] ∧ name.all isAttributeNameChar = true) (by simp [IsAttributeName])

theorem ne_of_isAttributeNameChar {c d : Char} (hc : isAttributeNameChar c = true)
    (hd : isAttributeNameChar d = false) : c ≠ d := by
  rintro rfl
  rw [hc] at hd
  exact absurd hd (by decide)

theorem isBlank_eq_false_of_isAttributeNameChar {c : Char} (h : isAttributeNameChar c = true) :
    isBlank c = false := by
  simp only [isAttributeNameChar, Bool.not_eq_true', Bool.or_eq_false_iff] at h
  exact h.1

def IsEquals (s : List Char) : Prop :=
  ∃ front back, allBlank front = true ∧ allBlank back = true ∧ s = front ++ '=' :: back

inductive Valued (pos : Nat) (more : List Char) : List Char → AttributeContent → Prop
  | quoted {quote : Char} {value : List Char} (isQuote : quote = '"' ∨ quote = '\'') :
      Valued pos more (quote :: value ++ [quote]) (.text (String.ofList value) (pos + 1))
  | quotedExpression {quote : Char} {front code back : List Char} (isQuote : quote = '"' ∨ quote = '\'')
      (front_blank : allBlank front = true) (balanced : Balanced (braces code))
      (back_blank : allBlank back = true) :
      Valued pos more (quote :: (front ++ braces code ++ back) ++ [quote])
        (.quotedExpression (String.ofList code) (pos + 1 + (front.length + 1)) (pos + 1))
  | braced {code : List Char} (balanced : Balanced (braces code)) :
      Valued pos more (braces code) (.expression (String.ofList code) (pos + 1))
  | unquoted {c : Char} {tail : List Char} (first : c ≠ '{')
      (chars : ∀ d ∈ c :: tail, isUnquotedChar d = true)
      (after : ∀ d ∈ more.head?, isUnquotedChar d = false) :
      Valued pos more (c :: tail) (.text (String.ofList (c :: tail)) pos)

inductive Shaped (pos : Nat) (more : List Char) : List Char → Attribute → Prop
  | bare {name : List Char} (isName : IsAttributeName name) :
      Shaped pos more name ⟨String.ofList name, ⟨pos, pos + name.length⟩, .bare⟩
  | assigned {name equals value : List Char} {content : AttributeContent}
      (isName : IsAttributeName name) (isEquals : IsEquals equals)
      (valued : Valued (pos + name.length + equals.length) more value content) :
      Shaped pos more (name ++ equals ++ value)
        ⟨String.ofList name, ⟨pos, pos + (name ++ equals ++ value).length⟩, content⟩
  | alone {inner : List Char} (balanced : Balanced (braces inner)) :
      Shaped pos more (braces inner) (bracedAttribute pos (pos + (braces inner).length) inner)

theorem Shaped.ne_nil {pos : Nat} {used more : List Char} {a : Attribute}
    (h : Shaped pos more used a) : used ≠ [] := by
  cases h with
  | bare isName => exact isName.1
  | assigned isName => simp [isName.1]
  | alone => simp [braces]

theorem Shaped.stop_eq {pos : Nat} {used more : List Char} {a : Attribute}
    (h : Shaped pos more used a) : a.span.stop = pos + used.length := by
  cases h with
  | bare | assigned => rfl
  | @alone inner =>
    unfold bracedAttribute
    dsimp only
    split <;> rfl

theorem quotedEnd_reads {quote : Char} {k pos stop : Nat} {text : List Char}
    (h : quotedEnd quote k pos text = .ok stop) :
    ∃ value more, text = value ++ quote :: more ∧ stop = pos + value.length + 1 := by
  fun_induction quotedEnd quote k pos text with
  | case1 | case3 => simp at h
  | case2 k pos c rest ih | case4 pos rest stop' hs ih | case6 pos c rest hb hq ih =>
    obtain ⟨value, more, rfl, rfl⟩ := ih h
    exact ⟨_ :: value, more, rfl, by simp only [List.length_cons]; omega⟩
  | case5 pos rest hb =>
    cases h
    exact ⟨[], rest, rfl, rfl⟩

theorem soleExpression?_eq_some {value code : List Char} {n : Nat}
    (h : soleExpression? value = .ok (some (n, code))) :
    ∃ front back, allBlank front = true ∧ allBlank back = true ∧ Balanced (braces code) ∧
      n = front.length + 1 ∧ value = front ++ braces code ++ back := by
  unfold soleExpression? at h
  split at h
  · simp at h
  · next front after hcut =>
    obtain rfl := cutAt_eq_some hcut
    rw [List.drop_left] at h
    split at h
    · next hfront =>
      split at h
      · simp at h
      · next stop hs =>
        obtain ⟨code', back, rfl, rfl, hbal⟩ := skipExpression_braces hs
        have hvalue : front ++ '{' :: (code' ++ '}' :: back) = front ++ braces code' ++ back := by
          simp [braces]
        have hlen : front.length + (code'.length + 2) = (front ++ braces code').length := by simp
        rw [hvalue, hlen, List.drop_left] at h
        split at h
        · next hback =>
          simp only [Except.ok.injEq, Option.some.injEq, Prod.mk.injEq] at h
          obtain ⟨rfl, rfl⟩ := h
          have hslice : slice (front.length + 1) ((front ++ braces code').length - 1)
              (front ++ braces code' ++ back) = code' := by
            rw [slice, ← hlen, ← List.drop_drop, List.append_assoc, List.drop_left,
              show front.length + (code'.length + 2) - 1 - (front.length + 1) = code'.length by omega]
            simp [braces]
          rw [hslice, hvalue]
          exact ⟨front, back, hfront, hback, hbal, rfl, rfl⟩
        · simp at h
    · simp at h

theorem attributeValue_valued {name : String} {start pos stop : Nat} {text : List Char}
    {content : AttributeContent} (h : attributeValue name start pos text = .ok (content, stop)) :
    ∃ blanks value more, text = blanks ++ value ++ more ∧ allBlank blanks = true ∧
      stop = pos + blanks.length + value.length ∧ Valued (pos + blanks.length) more value content := by
  suffices hv : ∃ value more, trimStart text = value ++ more ∧
      stop = pos + (text.takeWhile isBlank).length + value.length ∧
      Valued (pos + (text.takeWhile isBlank).length) more value content by
    obtain ⟨value, more, ht, hstop, hvalued⟩ := hv
    refine ⟨text.takeWhile isBlank, value, more, ?_, List.all_takeWhile, hstop, hvalued⟩
    rw [List.append_assoc, ← ht]
    exact List.takeWhile_append_dropWhile.symm
  rw [attributeValue] at h
  dsimp only at h
  generalize pos + (text.takeWhile isBlank).length = pos at h ⊢
  split at h
  · simp at h
  · next c rest hrest =>
    rw [hrest]
    split at h
    · next hquote =>
      obtain ⟨stop', hs, h⟩ := bind_eq_ok.mp h
      obtain ⟨value, more, rfl, rfl⟩ := quotedEnd_reads hs
      have htake : (value ++ c :: more).take (pos + 1 + value.length + 1 - pos - 2) = value := by
        rw [show pos + 1 + value.length + 1 - pos - 2 = value.length by omega, List.take_left]
      have hstop : pos + 1 + value.length + 1 = pos + (c :: value ++ [c]).length := by
        simp only [List.length_append, List.length_cons, List.length_nil]
        omega
      rw [htake] at h
      obtain ⟨sole, hsole, h⟩ := bind_eq_ok.mp h
      refine ⟨c :: value ++ [c], more, by simp, ?_⟩
      cases sole with
      | none =>
        cases h
        exact ⟨hstop, .quoted hquote⟩
      | some found =>
        obtain ⟨n, code⟩ := found
        obtain ⟨front, back, hfront, hback, hbal, rfl, rfl⟩ := soleExpression?_eq_some hsole
        cases h
        exact ⟨hstop, .quotedExpression hquote hfront hbal hback⟩
    · split at h
      · next hbrace =>
        subst hbrace
        obtain ⟨stop', hs, h⟩ := bind_eq_ok.mp h
        obtain ⟨code, more, rfl, rfl, hbal⟩ := skipExpression_braces hs
        rw [Nat.add_sub_cancel_left, Nat.add_sub_cancel, List.take_left] at h
        cases h
        exact ⟨braces code, more, by simp [braces], by simp, .braced hbal⟩
      · next hquote hbrace =>
        split at h
        · simp at h
        · next hne =>
          cases h
          have hc : isUnquotedChar c = true := by
            by_contra hc
            exact hne (List.takeWhile_cons_of_neg hc)
          rw [List.takeWhile_cons_of_pos hc]
          refine ⟨_, rest.dropWhile isUnquotedChar, ?_, rfl,
            .unquoted hbrace ?_ not_of_mem_head?_dropWhile⟩
          · rw [List.cons_append, List.takeWhile_append_dropWhile]
          · intro d hd
            rcases List.mem_cons.mp hd with rfl | hd
            · exact hc
            · exact List.mem_takeWhile_imp hd

theorem readAttribute_shaped {pos : Nat} {c : Char} {rest : List Char} {a : Attribute}
    (h : readAttribute pos c rest = .ok a) :
    ∃ used more, c :: rest = used ++ more ∧ Shaped pos more used a := by
  unfold readAttribute at h
  split at h
  · next hbrace =>
    subst hbrace
    obtain ⟨stop, hs, h⟩ := bind_eq_ok.mp h
    obtain ⟨code, more, rfl, rfl, hbal⟩ := skipExpression_braces hs
    rw [Nat.add_sub_cancel_left, Nat.add_sub_cancel, List.take_left, ← braces_length] at h
    cases h
    exact ⟨braces code, more, by simp [braces], .alone hbal⟩
  · split at h
    · simp at h
    · next hne =>
      have hname : IsAttributeName ((c :: rest).takeWhile isAttributeNameChar) :=
        ⟨hne, fun d hd => List.mem_takeWhile_imp hd⟩
      have hsplit : c :: rest = (c :: rest).takeWhile isAttributeNameChar ++
          (c :: rest).drop ((c :: rest).takeWhile isAttributeNameChar).length := by
        rw [drop_length_takeWhile, List.takeWhile_append_dropWhile]
      dsimp only at h
      generalize (c :: rest).takeWhile isAttributeNameChar = name at h hname hsplit
      generalize (c :: rest).drop name.length = after at h hsplit
      split at h
      · next after' hafter =>
        obtain ⟨⟨content, stop⟩, hv, h⟩ := bind_eq_ok.mp h
        obtain ⟨blanks, value, more, rfl, hblank, rfl, hvalued⟩ := attributeValue_valued hv
        cases h
        have hequals : IsEquals (after.takeWhile isBlank ++ '=' :: blanks) :=
          ⟨_, blanks, List.all_takeWhile, hblank, rfl⟩
        have hafter' : after = after.takeWhile isBlank ++ '=' :: (blanks ++ value ++ more) := by
          rw [← hafter]
          exact List.takeWhile_append_dropWhile.symm
        have hlen : pos + name.length + (after.takeWhile isBlank).length + 1 + blanks.length =
            pos + name.length + (after.takeWhile isBlank ++ '=' :: blanks).length := by
          simp only [List.length_append, List.length_cons]
          omega
        rw [hlen] at hvalued ⊢
        have hshape := Shaped.assigned hname hequals hvalued
        rw [List.length_append, List.length_append, ← Nat.add_assoc, ← Nat.add_assoc] at hshape
        refine ⟨name ++ (after.takeWhile isBlank ++ '=' :: blanks) ++ value, more, ?_, hshape⟩
        rw [hsplit]
        conv_lhs => rw [hafter']
        simp
      · cases h
        exact ⟨name, after, hsplit, .bare hname⟩

theorem tagRest_append (name : String) (start pos : Nat) (used rest : List Char) :
    tagRest name start used.length pos (used ++ rest) =
      tagRest name start 0 (pos + used.length) rest := by
  induction used generalizing pos with
  | nil => rfl
  | cons c cs ih =>
    rw [List.length_cons, List.cons_append, tagRest, ih]
    congr 1
    omega

/-- What follows the name of a start tag, from `pos` on, and what it says. -/
inductive TagRead : Nat → List Char → TagRest → Prop
  | blank {pos : Nat} {c : Char} {rest : List Char} {r : TagRest} (isBlank : isBlank c = true)
      (tail : TagRead (pos + 1) rest r) : TagRead pos (c :: rest) r
  | slash (pos : Nat) (rest : List Char) : TagRead pos ('/' :: '>' :: rest) ⟨[], true, pos + 2⟩
  | sign (pos : Nat) (rest : List Char) : TagRead pos ('>' :: rest) ⟨[], false, pos + 1⟩
  | whole {pos : Nat} {used more : List Char} {a : Attribute} {r : TagRest}
      (shaped : Shaped pos more used a) (tail : TagRead (pos + used.length) more r) :
      TagRead pos (used ++ more) { r with attributes := a :: r.attributes }

theorem tagRead_of_tagRest {name : String} {start pos : Nat} {text : List Char} {r : TagRest}
    (h : tagRest name start 0 pos text = .ok r) : TagRead pos text r := by
  induction hl : text.length using Nat.strongRecOn generalizing pos text r with
  | _ n ih =>
    cases text with
    | nil => simp [tagRest] at h
    | cons c rest =>
      rw [tagRest] at h
      split at h
      · next hblank =>
        exact .blank hblank (ih rest.length (by rw [← hl]; exact Nat.lt_succ_self _) h rfl)
      split at h
      · next hslash =>
        obtain ⟨rfl, hgt⟩ := hslash
        cases h
        obtain ⟨more, rfl⟩ := List.head?_eq_some_iff.mp hgt
        exact .slash pos more
      split at h
      · next hgt =>
        subst hgt
        cases h
        exact .sign pos rest
      split at h
      · simp at h
      · next a ha =>
        split at h
        · simp at h
        · next more hmore =>
          cases h
          obtain ⟨used, after, he, hshape⟩ := readAttribute_shaped ha
          obtain ⟨d, tail, rfl⟩ := List.exists_cons_of_ne_nil hshape.ne_nil
          obtain ⟨rfl, hrest⟩ : c = d ∧ rest = tail ++ after := List.cons.inj he
          have hlen : a.span.stop - pos - 1 = tail.length := by
            rw [hshape.stop_eq, List.length_cons]
            omega
          have hpos : pos + 1 + tail.length = pos + (c :: tail).length := by
            rw [List.length_cons]
            omega
          have hafter : after.length < n := by
            rw [← hl, he]
            simp only [List.length_append, List.length_cons]
            omega
          rw [hlen, hrest, tagRest_append, hpos] at hmore
          rw [he]
          exact .whole hshape (ih after.length hafter hmore rfl)

end ComponentDoc.Markup
