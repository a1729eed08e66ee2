import ComponentDoc.Documentation.Assembly
import ComponentDoc.Proofs.Markup.Places
import ComponentDoc.Proofs.Script.Regular

namespace ComponentDoc

open Text

namespace Script

theorem mem_preorder_of_wrapped? {root e : Node} (h : wrapped? root = some e) : e ∈ root.preorder := by
  have hfirst {n m : Node} (hm : n.named.head? = some m) (hn : n ∈ root.preorder) : m ∈ root.preorder :=
    Node.child_mem_preorder hn (Node.mem_of_mem_named (List.mem_of_mem_head? hm))
  obtain ⟨statement, hstatement, h⟩ := Option.bind_eq_some_iff.mp h
  obtain ⟨inside, hinside, h⟩ := Option.bind_eq_some_iff.mp h
  have hmem := hfirst hinside (hfirst hstatement root.self_mem_preorder)
  split at h
  · obtain rfl := Option.some.inj h
    cases hhead : inside.named.head? with
    | none => exact hmem
    | some m => exact hfirst hhead hmem
  · obtain rfl := Option.some.inj h
    exact hmem

theorem parseExpression_eq_ok [Reader] {text : List Char} {offset : Int} {lang : Option String} {s : Source} {e : Node}
    (h : parseExpression text offset lang = .ok (s, e)) :
    parse ('(' :: text ++ ['\n', ')']) (offset - 1) lang = .ok s ∧ e ∈ s.root.preorder := by
  unfold parseExpression at h
  cases hparse : parse ('(' :: text ++ ['\n', ')']) (offset - 1) lang with
  | error e =>
    rw [hparse] at h
    cases h
  | ok source =>
    rw [hparse] at h
    simp only [bind, Except.bind, Except.mapError] at h
    cases hwrapped : wrapped? source.root with
    | none =>
      rw [hwrapped] at h
      cases h
    | some inner =>
      rw [hwrapped] at h
      cases h
      exact ⟨rfl, mem_preorder_of_wrapped? hwrapped⟩

theorem inside_of_append_eq {s before after : List Char} {quote : Char} (hquote : quote ∉ ['\n', ')'])
    (h : s ++ ['\n', ')'] = before ++ quote :: after) : ∃ back, s = before ++ quote :: back := by
  rcases List.append_eq_append_iff.mp h with ⟨more, -, hmore⟩ | ⟨more, hs, hmore⟩
  · exact absurd (hmore ▸ List.mem_append_right more List.mem_cons_self) hquote
  · cases more with
    | nil => exact absurd ((List.cons.inj hmore).1 ▸ List.mem_cons_self) hquote
    | cons c back => exact ⟨back, (List.cons.inj hmore).1 ▸ hs⟩

theorem literal_standsAt {document handler literal body : List Char} {offset : Nat} {s : Source} {f : Node}
    (htext : s.text = '(' :: handler ++ ['\n', ')']) (hoffset : s.offset = offset - 1) (hwidth : s.KnowsWidth)
    (hhandler : StandsAt document offset handler) (hreads : f.Reads s.text literal)
    (hliteral : IsString literal body ∨ IsPlainTemplate literal body) :
    ∃ start, s.locOf f = Markup.spanAt start literal.length ∧ StandsAt document start literal ∧
      offset ≤ start ∧ start + literal.length ≤ offset + handler.length := by
  obtain ⟨quote, hquote, hshape⟩ := exists_quote hliteral
  obtain ⟨before, after, hsplit, hspan⟩ := hreads
  have hcharOffset (front : List Char) (hfront : front <+: s.text) :
      s.charOffset (byteLength front) = (offset - 1 + front.length : Int).toNat := by
    rw [Source.charOffset, Source.charAt_boundary hwidth hfront, hoffset]
  have hstart := hcharOffset before ⟨literal ++ after, by rw [hsplit, List.append_assoc]⟩
  have hstop := hcharOffset (before ++ literal) ⟨after, hsplit.symm⟩
  rw [htext] at hsplit
  -- The parentheses and the line feed are no quotes, so the literal lies inside.
  obtain ⟨front, rfl⟩ : ∃ front, before = '(' :: front := by
    cases before with
    | nil =>
      rw [hshape] at hsplit
      obtain rfl : '(' = quote := (List.cons.inj hsplit).1
      exact absurd hquote (by decide)
    | cons c front =>
      obtain rfl : '(' = c := (List.cons.inj hsplit).1
      exact ⟨front, rfl⟩
  have hinside : handler ++ ['\n', ')'] = front ++ literal ++ after := (List.cons.inj hsplit).2
  obtain ⟨back, rfl⟩ : ∃ back, handler = front ++ literal ++ back := by
    have hlast : handler ++ ['\n', ')'] = front ++ (quote :: body) ++ quote :: after := by
      rw [hinside, hshape]
      simp
    have hnot : quote ∉ ['\n', ')'] := by
      intro h
      simp only [List.mem_cons, List.not_mem_nil, or_false] at h hquote
      rcases h with rfl | rfl <;> exact absurd hquote (by decide)
    obtain ⟨back, hback⟩ := inside_of_append_eq hnot hlast
    exact ⟨back, by rw [hback, hshape]; simp⟩
  refine ⟨offset + front.length, ?_, hhandler.inside front back, Nat.le_add_right _ _, ?_⟩
  · rw [Source.locOf, Source.locOfBytes, hspan, hstart, hstop, Markup.spanAt]
    simp only [List.cons_append, List.length_cons, List.length_append, Span.mk.injEq]
    omega
  · simp only [List.length_append]
    omega

theorem locOf_stop_le {s : Source} (hwidth : s.KnowsWidth) {f g : Node} {piece : List Char} (hf : f.Reads s.text piece)
    (h : f.span.stop ≤ g.span.start) : (s.locOf f).stop ≤ (s.locOf g).start := by
  obtain ⟨before, after, htext, hspan⟩ := hf
  have hprefix : before ++ piece <+: s.text := ⟨after, htext.symm⟩
  rw [hspan] at h
  have hle := Source.le_charAt hwidth hprefix h
  rw [← Source.charAt_boundary hwidth hprefix] at hle
  refine Int.toNat_le_toNat (Int.add_le_add_left (Int.ofNat_le.mpr ?_) _)
  rwa [hspan]

end Script

open Script

def Item.NamedIn {α : Type} (x : Item α) (document : List Char) : Prop :=
  ∃ loc, x.loc = some loc ∧ CodeText.ofChars (loc.of document) = x.name

def Item.QuotedIn {α : Type} (x : Item α) (document : List Char) : Prop :=
  ∃ loc body, x.loc = some loc ∧ (IsString (loc.of document) body ∨ IsPlainTemplate (loc.of document) body) ∧
    unescape body = .ok x.name

theorem Item.start_ofComment {α : Type} (name : CodeText) (loc : Span) (comment : Option Comment) (detail : α) :
    (Item.ofComment name loc comment detail).start = loc.start := by
  rw [Item.start, Item.loc_ofComment]
  rfl

structure Placed {α : Type} (P : Item α → Prop) (low high : Nat) (items : List (Item α)) : Prop where
  each : ∀ x ∈ items, P x
  between : ∀ x ∈ items, low < x.start ∧ x.start ≤ high
  sorted : (items.map Item.start).Pairwise (· < ·)

section Placed

variable {α : Type} {P : Item α → Prop} {low high : Nat}

theorem placed_nil : Placed P low high [] := ⟨List.forall_mem_nil _, List.forall_mem_nil _, .nil⟩

theorem placed_singleton {x : Item α} (hx : P x) (hlow : low < x.start) (hhigh : x.start ≤ high) :
    Placed P low high [x] :=
  ⟨List.forall_mem_singleton.mpr hx, List.forall_mem_singleton.mpr ⟨hlow, hhigh⟩, List.pairwise_singleton _ _⟩

theorem Placed.imp {Q : Item α → Prop} {items : List (Item α)} (h : Placed P low high items)
    (hpq : ∀ x, P x → Q x) : Placed Q low high items :=
  { h with each := fun x hx => hpq x (h.each x hx) }

theorem placed_flatMap {β : Type} (span : β → Span) {items : β → List (Item α)} {pieces : List β}
    (hpieces : Span.Ascending (pieces.map span)) (hinside : ∀ b ∈ pieces, (span b).Within ⟨low, high⟩)
    (h : ∀ b ∈ pieces, Placed P (span b).start (span b).stop (items b)) : Placed P low high (pieces.flatMap items) := by
  refine ⟨fun x hx => ?_, fun x hx => ?_, ?_⟩
  · obtain ⟨b, hb, hx⟩ := List.mem_flatMap.mp hx
    exact (h b hb).each x hx
  · obtain ⟨b, hb, hx⟩ := List.mem_flatMap.mp hx
    obtain ⟨hstart, hstop⟩ := (h b hb).between x hx
    exact ⟨Nat.lt_of_le_of_lt (hinside b hb).1 hstart, Nat.le_trans hstop (hinside b hb).2⟩
  · rw [List.map_flatMap]
    refine List.pairwise_flatMap.mpr ⟨fun b hb => (h b hb).sorted, ?_⟩
    refine (List.pairwise_map.mp hpieces.apart).imp_of_mem fun ha hb hab m hm n hn => ?_
    obtain ⟨x, hx, rfl⟩ := List.mem_map.mp hm
    obtain ⟨y, hy, rfl⟩ := List.mem_map.mp hn
    exact Nat.lt_of_le_of_lt (Nat.le_trans ((h _ ha).between x hx).2 hab) ((h _ hb).between y hy).1

end Placed

namespace Markup

/-- No quote stands in the names of the dispatchers, as in no identifier. -/
def Context.NamesDispatchers (ctx : Context) : Prop :=
  ∀ name ∈ ctx.dispatchers, ∀ quote ∈ ['"', '\'', '`'], quote.toNat ∉ name.points

variable {ctx : Context} {s : Source} {comment : Option Comment}

theorem not_mem_of_dispatches (hdialect : ctx.dialect = .v3) (hnames : ctx.NamesDispatchers) {m : Script.Node}
    (h : ctx.dispatches s m) : ∀ quote ∈ ['"', '\'', '`'], quote ∉ s.chars m := by
  unfold Context.dispatches at h
  rw [hdialect] at h
  intro quote hquote hmem
  exact hnames _ (of_decide_eq_true h) quote hquote (List.mem_map_of_mem hmem)

theorem event?_callFindings (call : Script.Node) {x : Item Attachment}
    (h : x ∈ (callFindings s comment call).filterMap Finding.event?) : ∃ name f,
      s.stringArgument? call = .ok (some (name, f)) ∧ x = .ofComment name (s.locOf f) comment ⟨none⟩ := by
  unfold callFindings at h
  split at h
  · exact absurd h List.not_mem_nil
  · exact absurd h List.not_mem_nil
  · next name f hargument => exact ⟨name, f, hargument, List.mem_singleton.mp h⟩

theorem starts_callFindings (ns : List Script.Node) :
    (((ns.filter fun n => n.kind = .callExpression && (n.child? .callee).any (ctx.dispatches s)).flatMap
        (callFindings s comment)).filterMap Finding.event?).map Item.start =
      (ns.filterMap (s.givenString? (ctx.dispatches s))).map fun f => (s.locOf f).start := by
  induction ns with
  | nil => rfl
  | cons n ns ih =>
    have hown : ((callFindings s comment n).filterMap Finding.event?).map Item.start =
        ((s.stringArgument? n).toOption.bind (·.map Prod.snd)).toList.map fun f => (s.locOf f).start := by
      unfold callFindings
      cases s.stringArgument? n with
      | error e => rfl
      | ok argument =>
        cases argument with
        | none => rfl
        | some argument => exact congrArg List.singleton (Item.start_ofComment _ _ _ _)
    rw [List.filter_cons, List.filterMap_cons, Source.givenString?]
    split
    · rw [List.flatMap_cons, List.filterMap_append, List.map_append, ih, hown]
      cases s.stringArgument? n with
      | error e => rfl
      | ok argument => cases argument <;> rfl
    · exact ih

theorem string_standsAt [Reader] {document handler : List Char} {offset : Nat} {f : Script.Node} {name : CodeText}
    (hs : Script.parse ('(' :: handler ++ ['\n', ')']) (offset - 1) none = .ok s)
    (hhandler : StandsAt document offset handler) (hfaithful : s.Faithful) (hf : f ∈ s.root.preorder)
    (hvalue : stringValue? s f = .ok (some name)) :
    ∃ literal body, f.Reads s.text literal ∧ (s.locOf f).start < (s.locOf f).stop ∧
      (IsString literal body ∨ IsPlainTemplate literal body) ∧ unescape body = .ok name ∧
      (s.locOf f).of document = literal ∧ offset ≤ (s.locOf f).start ∧
      (s.locOf f).stop ≤ offset + handler.length := by
  obtain ⟨hwidth, htext, hoffset⟩ := Source.knowsWidth_of_parse hs
  obtain ⟨-, literal, body, hreads, hliteral, hname⟩ := hfaithful.literal hwidth hf hvalue
  obtain ⟨start, hloc, hstands, hlow, hhigh⟩ := literal_standsAt htext hoffset hwidth hhandler hreads hliteral
  obtain ⟨quote, -, hshape⟩ := exists_quote hliteral
  rw [hloc]
  have hlength : start < start + literal.length := Nat.lt_add_of_pos_right (by simp [hshape])
  exact ⟨literal, body, hreads, hlength, hliteral, hname, hstands.of_spanAt, hlow, hhigh⟩

def HandlerFaithful [Reader] (handler : String) (offset : Nat) : Prop :=
  ∀ s e, parseExpression handler.toList offset none = .ok (s, e) → s.Faithful

theorem handlerFindings_events [Reader] (hdialect : ctx.dialect = .v3) (hnames : ctx.NamesDispatchers)
    {document : List Char}
    {handler : String} {offset low high : Nat} (hhandler : StandsAt document offset handler.toList)
    (hlow : low < offset) (hhigh : offset + handler.length ≤ high) (htree : HandlerFaithful handler offset) :
    Placed (fun x => x.detail.parent = none ∧ x.QuotedIn document) low high
      ((ctx.handlerFindings comment handler offset).filterMap Finding.event?) := by
  unfold Context.handlerFindings
  split
  · split
    · exact placed_nil
    · next s e hparse =>
      obtain ⟨hs, he⟩ := parseExpression_eq_ok hparse
      have hwidth := (Source.knowsWidth_of_parse hs).1
      have hfaithful := htree s e hparse
      have hstring {f : Script.Node} {name : CodeText} (hf : f ∈ e.preorder)
          (hvalue : stringValue? s f = .ok (some name)) :=
        string_standsAt hs hhandler hfaithful (Node.mem_preorder_trans he hf) hvalue
      rw [List.filterMap_cons_none rfl]
      have hevent : ∀ x ∈ ((ctx.calls s e).flatMap (callFindings s comment)).filterMap Finding.event?,
          (x.detail.parent = none ∧ x.QuotedIn document) ∧ low < x.start ∧ x.start ≤ high := by
        intro x hx
        rw [List.filterMap_flatMap, List.mem_flatMap] at hx
        obtain ⟨call, hcall, hx⟩ := hx
        rw [Context.calls, List.mem_filter, walk_eq_preorder] at hcall
        obtain ⟨name, f, hargument, rfl⟩ := event?_callFindings call hx
        obtain ⟨hf, hvalue⟩ := mem_preorder_of_stringArgument? hargument
        obtain ⟨literal, body, -, hlt, hliteral, hname, hof, hstart, hstop⟩ :=
          hstring (Node.mem_preorder_trans hcall.1 hf) hvalue
        rw [String.length_toList] at hstop
        rw [Item.detail_ofComment, Item.start_ofComment]
        refine ⟨⟨rfl, s.locOf f, body, Item.loc_ofComment _ _ _ _, by rwa [hof], by rwa [Item.name_ofComment]⟩, ?_⟩
        omega
      refine ⟨fun x hx => (hevent x hx).1, fun x hx => (hevent x hx).2, ?_⟩
      rw [Context.calls, starts_callFindings, walk_eq_preorder, List.pairwise_map]
      refine (givenStrings_apart hwidth hfaithful (fun m => not_mem_of_dispatches hdialect hnames)
        he).imp_of_mem fun hf hg hfg => ?_
      obtain ⟨hmem, name, hvalue⟩ := mem_preorder_of_mem_givenStrings hf
      obtain ⟨literal, body, hreads, hlt, -⟩ := hstring hmem hvalue
      exact Nat.lt_of_lt_of_le hlt (locOf_stop_le hwidth hreads hfg)
  · exact placed_nil

end Markup

end ComponentDoc
