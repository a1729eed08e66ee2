import ComponentDoc.Proofs.Markup.AttributeReading

namespace ComponentDoc.Markup

open Text

def EndsText (more : List Char) : Prop := ∀ d ∈ more.head?, d = '<' ∨ d = '{'

theorem nextToken_text {c : Char} {tail more : List Char} (hl : '<' ∉ c :: tail) (hb : '{' ∉ c :: tail)
    (hm : EndsText more) (pos : Nat) :
    nextToken pos c (tail ++ more) =
      .ok (.text (String.ofList (c :: tail)) ⟨pos, pos + (c :: tail).length⟩) := by
  simp only [List.mem_cons, not_or] at hl hb
  have htail : ∀ d ∈ tail, (d != '<' && d != '{') = true := by
    intro d hd
    simp only [Bool.and_eq_true, bne_iff_ne]
    exact ⟨fun he => hl.2 (he ▸ hd), fun he => hb.2 (he ▸ hd)⟩
  have hstop : ∀ d ∈ more.head?, (d != '<' && d != '{') = false := by
    intro d hd
    rcases hm d hd with rfl | rfl <;> decide
  simp [nextToken, commentStart, hl.1, Ne.symm hl.1, Ne.symm hb.1, takeWhile_append_stop htail hstop]

theorem nextToken_mustache {code : List Char} (h : Balanced (braces code)) (pos : Nat)
    (more : List Char) :
    nextToken pos '{' (code ++ ['}'] ++ more) =
      .ok (.text (String.ofList (braces code)) ⟨pos, pos + (braces code).length⟩) := by
  have hskip : skipExpression pos ('{' :: (code ++ ['}'] ++ more)) = .ok (pos + (braces code).length) :=
    h.skip pos more
  have htake : ('{' :: (code ++ ['}'] ++ more)).take (braces code).length = braces code :=
    @List.take_left _ (braces code) more
  unfold nextToken
  simp only [commentStart, List.isPrefixOf, Char.reduceBEq, Bool.false_and, Bool.false_eq_true,
    ↓reduceIte, Char.reduceEq, hskip, bind, Except.bind, pure, Except.pure, Nat.add_sub_cancel_left,
    htake]

theorem indexOf?_commentStop {body : List Char} (h : ¬ commentStop <:+: body) (more : List Char) :
    indexOf? commentStop (body ++ (commentStop ++ more)) = some body.length := by
  induction body with
  | nil => exact indexOf?_append_self _ _ (by decide)
  | cons c cs ih =>
    have hcs : ¬ commentStop <:+: cs := fun hi => h (hi.trans (List.suffix_cons c cs).isInfix)
    have hp : ¬ commentStop.isPrefixOf (c :: (cs ++ (commentStop ++ more))) = true := by
      rw [List.isPrefixOf_iff_prefix]
      intro hp
      match cs, hp with
      | [], hp => simp [commentStop] at hp
      | [d], hp => simp [commentStop] at hp
      | d :: e :: cs, hp =>
        refine h (List.IsPrefix.isInfix ?_)
        simp only [commentStop, List.cons_append, List.cons_prefix_cons] at hp ⊢
        exact ⟨hp.1, hp.2.1, hp.2.2.1, List.nil_prefix⟩
    rw [List.cons_append, indexOf?, if_neg hp, ih hcs]
    rfl

theorem nextToken_commentStart (pos : Nat) (after : List Char) :
    nextToken pos '<' ('!' :: '-' :: '-' :: after) =
      match indexOf? commentStop after with
      | none => .error (.at .openComment pos (pos + (commentStart ++ after).length))
      | some i =>
        .ok (.comment (String.ofList ((commentStart ++ after).take (i + 7))) ⟨pos, pos + i + 7⟩) :=
  rfl

theorem nextToken_comment {body : List Char} (h : ¬ commentStop <:+: body) (pos : Nat)
    (more : List Char) :
    nextToken pos '<' ('!' :: '-' :: '-' :: (body ++ (commentStop ++ more))) =
      .ok (.comment (String.ofList (commentStart ++ body ++ commentStop))
        ⟨pos, pos + (commentStart ++ body ++ commentStop).length⟩) := by
  have hlen : (commentStart ++ body ++ commentStop).length = body.length + 7 := by
    simp only [commentStart, commentStop, List.length_append, List.length_cons, List.length_nil]
    omega
  have htake : (commentStart ++ (body ++ (commentStop ++ more))).take (body.length + 7) =
      commentStart ++ body ++ commentStop := by
    rw [← hlen, ← List.append_assoc, ← List.append_assoc, List.take_left]
  rw [nextToken_commentStart, indexOf?_commentStop h]
  dsimp only
  rw [htake, hlen, Nat.add_assoc]

theorem nextToken_slash (pos : Nat) (after : List Char) :
    nextToken pos '<' ('/' :: after) =
      match indexOf? ['>'] ('<' :: '/' :: after) with
      | none => .error (.at .openClosingTag pos (pos + ('<' :: '/' :: after).length))
      | some i =>
        .ok (.endTag (String.ofList (trim (slice 2 i ('<' :: '/' :: after)))) ⟨pos, pos + i + 1⟩) :=
  rfl

theorem nextToken_endTag {name : List Char} (hn : IsTagName name) (pos : Nat) (more : List Char) :
    nextToken pos '<' ('/' :: name ++ '>' :: more) =
      .ok (.endTag (String.ofList name) ⟨pos, pos + (name.length + 3)⟩) := by
  have hgt : '>' ∉ '<' :: '/' :: name := by
    simp only [List.mem_cons, Char.reduceEq, false_or]
    exact hn.not_mem (by decide)
  have hslice : slice 2 ('<' :: '/' :: name).length ('<' :: '/' :: name ++ '>' :: more) = name := by
    simp [slice]
  have hindex := indexOf?_append_singleton hgt more
  rw [List.cons_append, nextToken_slash, ← List.cons_append, ← List.cons_append, hindex]
  dsimp only
  rw [hslice, trim_of_no_blank hn.not_blank]
  rfl

theorem head?_printAttributes (as : List WrittenAttribute) (sc : Bool) (more : List Char) :
    ∀ d ∈ (printAttributes as ++ (tagStop sc ++ more)).head?, isTagNameChar d = false := by
  intro d hd
  cases as <;> cases sc <;> simp [printAttributes, tagStop] at hd <;> subst hd <;> decide

theorem nextToken_opening {name more : List Char} (hn : IsTagName name)
    (hm : ∀ d ∈ more.head?, isTagNameChar d = false) (pos : Nat) :
    nextToken pos '<' (name ++ more) = startToken pos name ('<' :: (name ++ more)) := by
  have hname : tagName? (name ++ more) = some name := tagName?_eq_some_iff.mpr ⟨hn, more, rfl, hm⟩
  obtain ⟨c, rest, rfl, -, -⟩ := id hn
  have hbang : c ≠ '!' := hn.head_ne (by decide)
  have hslash : c ≠ '/' := hn.head_ne (by decide)
  unfold nextToken
  simp only [commentStart, List.cons_append, List.isPrefixOf, beq_self_eq_true, Bool.true_and,
    beq_eq_false_iff_ne.mpr hbang.symm, beq_eq_false_iff_ne.mpr hslash.symm, Bool.false_and,
    Bool.false_eq_true, ↓reduceIte]
  rw [← List.cons_append, hname]

theorem nextToken_tag {name : List Char} {as : List WrittenAttribute} {sc : Bool} (hn : IsTagName name)
    (ha : ∀ a ∈ as, a.WellFormed) (hs : sc = true ∨ String.ofList name ∉ rawNames) (pos : Nat)
    (more : List Char) :
    nextToken pos '<' (name ++ (printAttributes as ++ (tagStop sc ++ more))) =
      .ok (.startTag (locateTag pos name as sc)) := by
  have hdrop : ('<' :: (name ++ (printAttributes as ++ (tagStop sc ++ more)))).drop (name.length + 1) =
      printAttributes as ++ (tagStop sc ++ more) := by simp
  have hstop : pos + 1 + name.length + (printAttributes as ++ tagStop sc).length =
      pos + (printTag name as sc).length := by
    simp only [printTag, List.cons_append, List.length_cons, List.length_append]
    omega
  rw [nextToken_opening hn (head?_printAttributes as sc more), startToken, hdrop, tagRest_print ha,
    hstop]
  exact if_pos (by simpa using hs)

/-- The tree and the fault of what starts at `pos`, going on with the tree `b`. -/
def continueAt (b : Builder) (pos : Nat) (text : List Char) :
    Except ParseError Builder × Option ParseError :=
  (ofTokens b (tokensFrom 0 pos text).1, (tokensFrom 0 pos text).2)

theorem continueAt_token {b b' : Builder} {pos : Nat} {c : Char} {tail more : List Char} {t : Token}
    (h : nextToken pos c (tail ++ more) = .ok t) (hs : t.stop = pos + (tail.length + 1))
    (hb : b.add t = .ok b') :
    continueAt b pos (c :: (tail ++ more)) = continueAt b' (pos + (tail.length + 1)) more := by
  have hsplit : c :: (tail ++ more) = c :: tail ++ more := rfl
  simp only [continueAt, tokensFrom_cons h hsplit (List.cons_ne_nil _ _) hs, ofTokens, hb,
    List.length_cons]

def Builder.pushAll (b : Builder) (ns : List Node) : Builder := ns.foldl Builder.push b

theorem pushAll_open (ns : List Node) (root : List Node) (tag : StartTag) (children : List Node)
    (rest : List OpenElement) :
    Builder.pushAll ⟨root, ⟨tag, children⟩ :: rest⟩ ns =
      ⟨root, ⟨tag, ns.reverse ++ children⟩ :: rest⟩ := by
  induction ns generalizing children with
  | nil => rfl
  | cons n ns ih =>
    rw [List.reverse_cons, List.append_assoc]
    exact ih (n :: children)

theorem pushAll_root (ns root : List Node) :
    Builder.pushAll ⟨root, []⟩ ns = ⟨ns.reverse ++ root, []⟩ := by
  induction ns generalizing root with
  | nil => rfl
  | cons n ns ih =>
    rw [List.reverse_cons, List.append_assoc]
    exact ih (n :: root)

theorem endsText_print {n : WrittenNode} (h : n.WellFormed) (ht : ¬ n.IsText) (more : List Char) :
    EndsText (n.print ++ more) := by
  intro d hd
  cases n with
  | text => exact absurd trivial ht
  | mustache code =>
    right
    simpa [WrittenNode.print, braces] using hd.symm
  | comment body =>
    left
    simpa [WrittenNode.print, commentStart] using hd.symm
  | element name attributes children =>
    left
    simpa [WrittenNode.print, printTag] using hd.symm
  | alone name attributes =>
    left
    simpa [WrittenNode.print, printTag] using hd.symm

theorem continueAt_tag {name : List Char} {as : List WrittenAttribute} {sc : Bool} {b b' : Builder}
    {pos : Nat} (hn : IsTagName name) (ha : ∀ a ∈ as, a.WellFormed)
    (hs : sc = true ∨ String.ofList name ∉ rawNames)
    (hb : b.add (.startTag (locateTag pos name as sc)) = .ok b') (more : List Char) :
    continueAt b pos (printTag name as sc ++ more) =
      continueAt b' (pos + (printTag name as sc).length) more := by
  have hsplit : printTag name as sc ++ more =
      '<' :: (name ++ printAttributes as ++ tagStop sc ++ more) := by simp [printTag]
  have hread := nextToken_tag hn ha hs pos more
  rw [← List.append_assoc, ← List.append_assoc] at hread
  rw [hsplit]
  exact continueAt_token hread rfl hb

theorem continueAt_close {name : List Char} {tag : StartTag} (hn : IsTagName name)
    (ht : tag.name = String.ofList name) (b : Builder) (children : List Node) (pos : Nat)
    (more : List Char) :
    continueAt ⟨b.root, ⟨tag, children⟩ :: b.opens⟩ pos ('<' :: '/' :: name ++ '>' :: more) =
      continueAt (b.push (.element tag (pos + (name.length + 3)) children.reverse))
        (pos + (name.length + 3)) more := by
  have hread := nextToken_endTag hn pos more
  have hsplit : '/' :: name ++ '>' :: more = '/' :: name ++ ['>'] ++ more := by simp
  have hlen : ('/' :: name ++ ['>']).length + 1 = name.length + 3 := by simp
  rw [hsplit] at hread
  rw [List.cons_append, hsplit, continueAt_token hread ?_ ?_, hlen]
  · rw [hlen]
    rfl
  · simp [Builder.add, Builder.close, ht]

mutual

theorem WrittenNode.WellFormed.read {n : WrittenNode} (h : n.WellFormed) (b : Builder) (pos : Nat)
    {more : List Char} (hm : n.IsText → EndsText more) :
    continueAt b pos (n.print ++ more) =
      continueAt (b.push (n.locate pos)) (pos + n.print.length) more := by
  match n with
  | .text content =>
    obtain ⟨hne, hl, hb⟩ := h
    obtain ⟨c, tail, rfl⟩ := List.exists_cons_of_ne_nil hne
    exact continueAt_token (nextToken_text hl hb (hm trivial) pos) rfl rfl
  | .mustache code =>
    have hlen : pos + (braces code).length = pos + ((code ++ ['}']).length + 1) := rfl
    exact continueAt_token (nextToken_mustache h pos more) hlen rfl
  | .comment body =>
    have hsplit : (WrittenNode.comment body).print ++ more =
        '<' :: ('!' :: '-' :: '-' :: (body ++ commentStop) ++ more) := by
      simp [WrittenNode.print, commentStart]
    have hread := nextToken_comment h pos more
    rw [show '!' :: '-' :: '-' :: (body ++ (commentStop ++ more)) =
      '!' :: '-' :: '-' :: (body ++ commentStop) ++ more by simp] at hread
    rw [hsplit]
    exact continueAt_token hread rfl rfl
  | .element name attributes children =>
    obtain ⟨⟨hn, hvoid, hraw⟩, ha, hc⟩ := h
    have hsplit : (WrittenNode.element name attributes children).print ++ more =
        printTag name attributes false ++
          (printAll children ++ ('<' :: '/' :: name ++ '>' :: more)) := by
      simp [WrittenNode.print]
    have hlen : pos + (printTag name attributes false).length + (printAll children).length +
        (name.length + 3) = pos + (WrittenNode.element name attributes children).print.length := by
      simp only [WrittenNode.print, List.length_append, List.length_cons, List.length_nil]
      omega
    have hopen : b.add (.startTag (locateTag pos name attributes false)) =
        .ok ⟨b.root, ⟨locateTag pos name attributes false, []⟩ :: b.opens⟩ := by
      simp [Builder.add, locateTag, hvoid]
    have hends : EndsText ('<' :: '/' :: name ++ '>' :: more) := by simp [EndsText]
    rw [hsplit, continueAt_tag hn ha (Or.inr hraw) hopen, hc.read _ _ hends, pushAll_open,
      List.append_nil, continueAt_close hn rfl, hlen, List.reverse_reverse]
    rfl
  | .alone name attributes =>
    obtain ⟨hn, ha⟩ := h
    exact continueAt_tag hn ha (Or.inl rfl) rfl more

theorem AllWellFormed.read {ns : List WrittenNode} (h : AllWellFormed ns) (b : Builder) (pos : Nat)
    {more : List Char} (hm : EndsText more) :
    continueAt b pos (printAll ns ++ more) =
      continueAt (b.pushAll (locateAll pos ns)) (pos + (printAll ns).length) more := by
  match ns with
  | [] => rfl
  | n :: rest =>
    obtain ⟨hn, hnext, hrest⟩ := h
    have hends : n.IsText → EndsText (printAll rest ++ more) := by
      intro ht
      cases rest with
      | nil => exact hm
      | cons m rest =>
        rw [printAll, List.append_assoc]
        exact endsText_print hrest.1 (hnext ht m rfl) _
    rw [printAll, List.append_assoc, hn.read b pos hends, hrest.read _ _ hm, List.length_append,
      Nat.add_assoc]
    rfl

end

theorem parse_eq_continueAt (text : List Char) :
    parse text =
      match continueAt .empty 0 text with
      | (.error e, _) => .error e
      | (.ok _, some e) => .error e
      | (.ok b, none) => b.finish := by
  unfold parse continueAt tokens
  dsimp only
  cases ofTokens .empty (tokensFrom 0 0 text).1 with
  | error e => rfl
  | ok b => cases (tokensFrom 0 0 text).2 <;> rfl

theorem parse_print {ns : List WrittenNode} (h : AllWellFormed ns) :
    parse (printAll ns) = .ok (locateAll 0 ns) := by
  have hends : EndsText [] := by simp [EndsText]
  have hread := h.read .empty 0 hends
  rw [List.append_nil] at hread
  rw [parse_eq_continueAt, hread, Builder.empty, pushAll_root, List.append_nil]
  simp only [continueAt, tokensFrom, ofTokens, Builder.finish, List.reverse_reverse]

theorem parse_print_paragraph :
    let ns : List WrittenNode := [.text ['a'],
      .element ['p'] [.bare ['b'], .quoted ['c'] ['d'], .spread ['e']] [.mustache ['f'], .alone ['g'] []]]
    AllWellFormed ns ∧ parse (printAll ns) = .ok (locateAll 0 ns) := by
  intro ns
  have h : AllWellFormed ns := by decide +kernel
  exact ⟨h, parse_print h⟩

/-- The blank after a spread expression is lost. -/
theorem spread_without_blank :
    AllWellFormed [.alone ['a'] [.spread ['x', ' ']]] ∧
      ∃ nodes, parse (printAll [.alone ['a'] [.spread ['x', ' ']]]) = .ok nodes ∧
        (tagsOf nodes).flatMap (fun tag => tag.attributes.map Attribute.expression?) ≠
          [some ("x ", 7)] := by
  have h : (parse (printAll [.alone ['a'] [.spread ['x', ' ']]])).map (fun nodes =>
      (tagsOf nodes).flatMap fun tag => tag.attributes.map Attribute.expression?) =
        .ok [some ("x", 7)] := by
    decide +kernel
  obtain ⟨nodes, hp, he⟩ := map_eq_ok.mp h
  refine ⟨by decide +kernel, nodes, hp, ?_⟩
  rw [he]
  decide

end ComponentDoc.Markup
