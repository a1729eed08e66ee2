import ComponentDoc.Proofs.Markup.Printing

namespace ComponentDoc.Markup

open Text

/-- What may follow an attribute: no character of a name and, after blanks, no equals sign. -/
def EndsAttribute (more : List Char) : Prop :=
  (∀ d ∈ more.head?, isAttributeNameChar d = false) ∧ ∀ after, trimStart more ≠ '=' :: after

theorem readAttribute_name (pos : Nat) {c : Char} {tail more : List Char}
    (hn : ∀ d ∈ c :: tail, isAttributeNameChar d = true)
    (hm : ∀ d ∈ more.head?, isAttributeNameChar d = false) :
    readAttribute pos c (tail ++ more) =
      match trimStart more with
      | '=' :: after => do
        let valuePos := pos + (c :: tail).length + (more.takeWhile isBlank).length + 1
        let (content, stop) ← attributeValue (String.ofList (c :: tail)) pos valuePos after
        return ⟨String.ofList (c :: tail), ⟨pos, stop⟩, content⟩
      | _ => .ok ⟨String.ofList (c :: tail), ⟨pos, pos + (c :: tail).length⟩, .bare⟩ := by
  have hc : c ≠ '{' := ne_of_isAttributeNameChar (hn c List.mem_cons_self) (by decide)
  have htake : (c :: (tail ++ more)).takeWhile isAttributeNameChar = c :: tail :=
    takeWhile_append_stop hn hm
  have hdrop : (c :: (tail ++ more)).drop (c :: tail).length = more := by simp
  rw [readAttribute, if_neg hc, htake]
  dsimp only
  exact hdrop.symm ▸ rfl

theorem quotedEnd_value {value : List Char} (hq : '"' ∉ value) (hb : '{' ∉ value) (pos : Nat)
    (more : List Char) : quotedEnd '"' 0 pos (value ++ '"' :: more) = .ok (pos + value.length + 1) := by
  induction value generalizing pos with
  | nil => simp [quotedEnd]
  | cons c cs ih =>
    simp only [List.mem_cons, not_or] at hq hb
    rw [List.cons_append, quotedEnd, if_neg (Ne.symm hb.1), if_neg (Ne.symm hq.1), ih hq.2 hb.2,
      List.length_cons]
    congr 1
    omega

theorem soleExpression?_eq_none {value : List Char} (hb : '{' ∉ value) :
    soleExpression? value = .ok none := by
  have hcut : cutAt '{' value = (value, none) := by
    have hdrop : value.dropWhile (· != '{') = [] := by
      rw [List.dropWhile_eq_nil_iff]
      intro c hc
      rw [bne_iff_ne]
      rintro rfl
      exact hb hc
    rw [cutAt, hdrop]
  rw [soleExpression?, hcut]

theorem attributeValue_quoted {value : List Char} (hq : '"' ∉ value) (hb : '{' ∉ value) (name : String)
    (start pos : Nat) (more : List Char) :
    attributeValue name start pos ('"' :: value ++ '"' :: more) =
      .ok (.text (String.ofList value) (pos + 1), pos + value.length + 2) := by
  have htake : (value ++ '"' :: more).take (pos + 1 + value.length + 1 - pos - 2) = value := by
    rw [show pos + 1 + value.length + 1 - pos - 2 = value.length by omega, List.take_left]
  have hblank : isBlank '"' = false := by decide
  rw [attributeValue, List.cons_append, trimStart_cons hblank]
  simp only [List.takeWhile_cons, hblank, Bool.false_eq_true, ↓reduceIte, List.length_nil, Nat.add_zero,
    true_or, quotedEnd_value hq hb, bind, Except.bind, pure, Except.pure, htake,
    soleExpression?_eq_none hb]
  congr 2
  omega

theorem attributeValue_braced {code : List Char} (hb : Balanced (braces code)) (name : String)
    (start pos : Nat) (more : List Char) :
    attributeValue name start pos (braces code ++ more) =
      .ok (.expression (String.ofList code) (pos + 1), pos + code.length + 2) := by
  have hblank : isBlank '{' = false := by decide
  have hskip : skipExpression pos ('{' :: (code ++ ['}'] ++ more)) = .ok (pos + code.length + 2) := by
    have hskip := hb.skip pos more
    rwa [braces_length, ← Nat.add_assoc] at hskip
  have htake : (code ++ ['}'] ++ more).take (pos + code.length + 2 - pos - 2) = code := by
    rw [show pos + code.length + 2 - pos - 2 = code.length by omega, List.append_assoc, List.take_left]
  rw [attributeValue, braces, List.cons_append, List.cons_append, trimStart_cons hblank]
  simp only [List.takeWhile_cons, hblank, Bool.false_eq_true, ↓reduceIte, List.length_nil, Nat.add_zero,
    Char.reduceEq, or_self, hskip, bind, Except.bind, pure, Except.pure, htake]

theorem readAttribute_braces {code : List Char} (hb : Balanced (braces code)) (pos : Nat)
    (more : List Char) :
    readAttribute pos '{' (code ++ ['}'] ++ more) =
      .ok (bracedAttribute pos (pos + (braces code).length) code) := by
  have hskip : skipExpression pos ('{' :: (code ++ ['}'] ++ more)) = .ok (pos + (braces code).length) :=
    hb.skip pos more
  have htake : (code ++ ['}'] ++ more).take (pos + (braces code).length - pos - 2) = code := by
    rw [braces_length, Nat.add_sub_cancel_left, Nat.add_sub_cancel, List.append_assoc, List.take_left]
  rw [readAttribute, if_pos rfl, hskip]
  simp only [bind, Except.bind, pure, Except.pure, htake]

theorem bracedAttribute_spread (pos : Nat) (code : List Char) :
    bracedAttribute pos (pos + (braces ('.' :: '.' :: '.' :: code)).length)
        ('.' :: '.' :: '.' :: code) = (WrittenAttribute.spread code).locate pos := by
  have hdot : isBlank '.' = false := by decide
  have htrim : trim ('.' :: '.' :: '.' :: code) = '.' :: '.' :: '.' :: trimEnd code := by
    rw [trim, trimStart_cons hdot]
    exact @trimEnd_append_right ['.', '.', '.'] ⟨'.', rfl, hdot⟩ code
  have hdrop : dropStart? ['.', '.', '.'] ('.' :: '.' :: '.' :: trimEnd code) = some (trimEnd code) :=
    dropStart?_eq_some_iff.mpr rfl
  simp only [bracedAttribute, htrim, hdrop, List.takeWhile_cons, hdot, Bool.false_eq_true, ↓reduceIte,
    List.length_nil, Nat.add_zero]
  rfl

theorem bracedAttribute_shorthand (pos : Nat) {code : List Char} (h : ¬ ['.', '.', '.'] <+: trim code) :
    bracedAttribute pos (pos + (braces code).length) code =
      (WrittenAttribute.shorthand code).locate pos := by
  have hdrop : dropStart? ['.', '.', '.'] (trim code) = none := by
    rw [dropStart?, if_neg (by rwa [List.isPrefixOf_iff_prefix])]
  simp only [bracedAttribute, hdrop]
  rfl

theorem balanced_spread {code : List Char} (h : Balanced (braces code)) :
    Balanced (braces ('.' :: '.' :: '.' :: code)) :=
  balanced_cons_iff.mpr (balanced_cons_iff.mp h).dot.dot.dot

def StartsAttribute (c : Char) : Prop := isBlank c = false ∧ c ≠ '/' ∧ c ≠ '>' ∧ c ≠ '='

theorem startsAttribute_of_isAttributeNameChar {c : Char} (h : isAttributeNameChar c = true) :
    StartsAttribute c :=
  ⟨isBlank_eq_false_of_isAttributeNameChar h, ne_of_isAttributeNameChar h (by decide),
    ne_of_isAttributeNameChar h (by decide), ne_of_isAttributeNameChar h (by decide)⟩

theorem startsAttribute_brace : StartsAttribute '{' :=
  ⟨by decide, by decide, by decide, by decide⟩

theorem readAttribute_assigned {c : Char} {tail text : List Char} {pos stop : Nat}
    {content : AttributeContent} (hn : ∀ d ∈ c :: tail, isAttributeNameChar d = true)
    (h : attributeValue (String.ofList (c :: tail)) pos (pos + (c :: tail).length + 1) text =
      .ok (content, stop)) :
    readAttribute pos c (tail ++ '=' :: text) =
      .ok ⟨String.ofList (c :: tail), ⟨pos, stop⟩, content⟩ := by
  have hblank : isBlank '=' = false := by decide
  have hequals : ∀ d ∈ ('=' :: text).head?, isAttributeNameChar d = false := by
    intro d hd
    obtain rfl : d = '=' := by simpa using hd.symm
    decide
  rw [readAttribute_name pos hn hequals, trimStart_cons hblank]
  simp only [List.takeWhile_cons, hblank, Bool.false_eq_true, ↓reduceIte, List.length_nil, Nat.add_zero,
    h, bind, Except.bind, pure, Except.pure]

theorem readAttribute_print {a : WrittenAttribute} (h : a.WellFormed) (pos : Nat) {more : List Char}
    (hm : EndsAttribute more) :
    ∃ c tail, a.print = c :: tail ∧ StartsAttribute c ∧
      readAttribute pos c (tail ++ more) = .ok (a.locate pos) := by
  cases a with
  | bare name =>
    obtain ⟨hne, hn⟩ := h
    obtain ⟨c, tail, rfl⟩ := List.exists_cons_of_ne_nil hne
    refine ⟨c, tail, rfl, startsAttribute_of_isAttributeNameChar (hn c List.mem_cons_self), ?_⟩
    rw [readAttribute_name pos hn hm.1]
    split
    · next after he => exact absurd he (hm.2 after)
    · rfl
  | quoted name value =>
    obtain ⟨⟨hne, hn⟩, hq, hb⟩ := h
    obtain ⟨c, tail, rfl⟩ := List.exists_cons_of_ne_nil hne
    refine ⟨c, tail ++ '=' :: '"' :: value ++ ['"'], rfl,
      startsAttribute_of_isAttributeNameChar (hn c List.mem_cons_self), ?_⟩
    have hvalue := attributeValue_quoted hq hb (String.ofList (c :: tail)) pos
      (pos + (c :: tail).length + 1) more
    have hsplit : tail ++ '=' :: '"' :: value ++ ['"'] ++ more =
        tail ++ '=' :: ('"' :: value ++ '"' :: more) := by simp
    have hstop : pos + (c :: tail).length + 1 + value.length + 2 =
        pos + (WrittenAttribute.quoted (c :: tail) value).print.length := by
      simp only [WrittenAttribute.print, List.length_append, List.length_cons, List.length_nil]
      omega
    rw [hsplit, readAttribute_assigned hn hvalue, hstop]
    rfl
  | braced name code =>
    obtain ⟨⟨hne, hn⟩, hb⟩ := h
    obtain ⟨c, tail, rfl⟩ := List.exists_cons_of_ne_nil hne
    refine ⟨c, tail ++ '=' :: braces code, rfl,
      startsAttribute_of_isAttributeNameChar (hn c List.mem_cons_self), ?_⟩
    have hvalue := attributeValue_braced hb (String.ofList (c :: tail)) pos
      (pos + (c :: tail).length + 1) more
    have hsplit : tail ++ '=' :: braces code ++ more = tail ++ '=' :: (braces code ++ more) := by simp
    have hstop : pos + (c :: tail).length + 1 + code.length + 2 =
        pos + (WrittenAttribute.braced (c :: tail) code).print.length := by
      simp only [WrittenAttribute.print, List.length_append, List.length_cons, braces_length]
      omega
    rw [hsplit, readAttribute_assigned hn hvalue, hstop]
    rfl
  | shorthand code =>
    refine ⟨'{', code ++ ['}'], rfl, startsAttribute_brace, ?_⟩
    rw [readAttribute_braces h.1, bracedAttribute_shorthand pos h.2]
  | spread code =>
    refine ⟨'{', '.' :: '.' :: '.' :: code ++ ['}'], rfl, startsAttribute_brace, ?_⟩
    rw [readAttribute_braces (balanced_spread h), bracedAttribute_spread]

theorem endsAttribute_tagStop (sc : Bool) (more : List Char) : EndsAttribute (tagStop sc ++ more) := by
  have hslash : isBlank '/' = false := by decide
  have hgt : isBlank '>' = false := by decide
  cases sc with
  | true =>
    refine ⟨fun d hd => ?_, fun after => ?_⟩
    · obtain rfl : d = '/' := by simpa [tagStop] using hd.symm
      decide
    · simp [tagStop, trimStart_cons hslash]
  | false =>
    refine ⟨fun d hd => ?_, fun after => ?_⟩
    · obtain rfl : d = '>' := by simpa [tagStop] using hd.symm
      decide
    · simp [tagStop, trimStart_cons hgt]

theorem endsAttribute_print {a : WrittenAttribute} (h : a.WellFormed) (more : List Char) :
    EndsAttribute (' ' :: a.print ++ more) := by
  have hnil : EndsAttribute [] := ⟨by simp, by simp [trimStart]⟩
  obtain ⟨c, tail, hprint, ⟨hblank, -, -, hequals⟩, -⟩ := readAttribute_print h 0 hnil
  refine ⟨fun d hd => ?_, fun after => ?_⟩
  · obtain rfl : d = ' ' := by simpa using hd.symm
    decide
  · have htrim : trimStart (' ' :: a.print ++ more) = c :: tail ++ more := by
      rw [hprint, trimStart, List.cons_append, List.dropWhile_cons_of_pos (by decide)]
      exact trimStart_cons hblank
    rw [htrim]
    exact fun he => hequals (List.cons.inj he).1

theorem endsAttribute_printAttributes {as : List WrittenAttribute} (h : ∀ a ∈ as, a.WellFormed)
    (sc : Bool) (more : List Char) : EndsAttribute (printAttributes as ++ (tagStop sc ++ more)) := by
  cases as with
  | nil => exact endsAttribute_tagStop sc more
  | cons a rest =>
    rw [printAttributes, List.append_assoc]
    exact endsAttribute_print (h a List.mem_cons_self) _

theorem tagRest_print {as : List WrittenAttribute} (h : ∀ a ∈ as, a.WellFormed) (name : String)
    (start pos : Nat) (sc : Bool) (more : List Char) :
    tagRest name start 0 pos (printAttributes as ++ (tagStop sc ++ more)) =
      .ok ⟨locateAttributes pos as, sc, pos + (printAttributes as ++ tagStop sc).length⟩ := by
  induction as generalizing pos with
  | nil =>
    cases sc with
    | true => rfl
    | false => rfl
  | cons a rest ih =>
    have hends := endsAttribute_printAttributes (fun b hb => h b (List.mem_cons_of_mem _ hb)) sc more
    obtain ⟨c, tail, hprint, ⟨hblank, hslash, hgt, -⟩, hread⟩ :=
      readAttribute_print (h a List.mem_cons_self) (pos + 1) hends
    have hstop : (a.locate (pos + 1)).span.stop - (pos + 1) - 1 = tail.length := by
      simp only [WrittenAttribute.locate, hprint, List.length_cons]
      omega
    have hsplit : printAttributes (a :: rest) ++ (tagStop sc ++ more) =
        ' ' :: c :: (tail ++ (printAttributes rest ++ (tagStop sc ++ more))) := by
      simp [printAttributes, hprint]
    rw [hsplit, tagRest, if_pos (by decide), tagRest, if_neg (by simp [hblank]),
      if_neg (fun hc => hslash hc.1), if_neg hgt, hread]
    dsimp only
    have hnext : pos + 1 + 1 + tail.length = pos + 1 + a.print.length := by
      rw [hprint, List.length_cons]
      omega
    rw [hstop, tagRest_append, ih (fun b hb => h b (List.mem_cons_of_mem _ hb)), hnext]
    simp only [locateAttributes, printAttributes, List.cons_append, List.length_cons,
      List.length_append]
    congr 2
    omega

end ComponentDoc.Markup
