import ComponentDoc.Markup.Tree
import ComponentDoc.Proofs.Markup.Token

/-!
Reading markup loses and invents nothing. Main statement: the top-level nodes tile the text, the
children of an element tile its inside, and every node holds what stands at its place in the text.
-/

namespace ComponentDoc.Markup

/-- The nodes follow each other without gap from `start` to `stop`. -/
def Tiles : Nat → Nat → List Node → Prop
  | start, stop, [] => start = stop
  | start, stop, n :: rest => n.start = start ∧ start < n.stop ∧ Tiles n.stop stop rest

theorem Tiles.le {start stop : Nat} {ns : List Node} (h : Tiles start stop ns) : start ≤ stop := by
  induction ns generalizing start with
  | nil => exact Nat.le_of_eq h
  | cons n rest ih => exact h.2.1.le.trans (ih h.2.2)

theorem tiles_append_iff {start stop : Nat} {ms ns : List Node} :
    Tiles start stop (ms ++ ns) ↔ ∃ mid, Tiles start mid ms ∧ Tiles mid stop ns := by
  induction ms generalizing start with
  | nil => simp [Tiles]
  | cons m ms ih =>
    simp only [List.cons_append, Tiles, ih]
    constructor
    · rintro ⟨hs, hlt, mid, hm, hn⟩
      exact ⟨mid, ⟨hs, hlt, hm⟩, hn⟩
    · rintro ⟨mid, ⟨hs, hlt, hm⟩, hn⟩
      exact ⟨hs, hlt, mid, hm, hn⟩

theorem Tiles.concat {start mid : Nat} {ns : List Node} {n : Node} (h : Tiles start mid ns)
    (hs : n.start = mid) (hlt : mid < n.stop) : Tiles start n.stop (ns ++ [n]) :=
  tiles_append_iff.mpr ⟨mid, h, hs, hlt, rfl⟩

/-- How an element ends. `outer` are the names of the elements around it, with where these end. -/
inductive Ending (text : List Char) (outer : List (String × Nat)) (tag : StartTag) (stop : Nat)
    (children : List Node) : Prop
  | alone (single : tag.selfClosing = true ∨ isVoid tag.name = true) (empty : children = [])
      (same : stop = tag.span.stop)
  /-- The children reach up to the closing tag of the element. -/
  | closed (inside : Nat) (tiles : Tiles tag.span.stop inside children)
      (closing : IsClosingTag tag.name.toList ((⟨inside, stop⟩ : Span).of text))
  /-- The children reach up to the closing tag of an element around this one. -/
  | implied (tiles : Tiles tag.span.stop stop children) (name : String) (outerStop : Nat)
      (around : (name, outerStop) ∈ outer)
      (closing : IsClosingTag name.toList ((⟨stop, outerStop⟩ : Span).of text))

def StartTag.StandsIn (tag : StartTag) (text : List Char) : Prop :=
  tag.span.stop ≤ text.length ∧ tag.Covers tag.span.start (tag.span.of text)

mutual

/-- The node and all below it hold what stands at their places in the text. -/
def Node.Faithful (text : List Char) (outer : List (String × Nat)) : Node → Prop
  | .text content span | .comment content span =>
    span.stop ≤ text.length ∧ content.toList = span.of text
  | .element tag stop children =>
    tag.StandsIn text ∧ tag.span.start < tag.span.stop ∧ tag.span.stop ≤ stop ∧
      Ending text outer tag stop children ∧ AllFaithful text ((tag.name, stop) :: outer) children

def AllFaithful (text : List Char) (outer : List (String × Nat)) : List Node → Prop
  | [] => True
  | n :: rest => n.Faithful text outer ∧ AllFaithful text outer rest

end

theorem allFaithful_iff {text : List Char} {outer : List (String × Nat)} {ns : List Node} :
    AllFaithful text outer ns ↔ ∀ n ∈ ns, n.Faithful text outer := by
  induction ns with
  | nil => simp [AllFaithful]
  | cons n rest ih => simp [AllFaithful, ih]

theorem Ending.mono {text : List Char} {outer more : List (String × Nat)} {tag : StartTag} {stop : Nat}
    {children : List Node} (h : Ending text outer tag stop children) (hm : outer ⊆ more) :
    Ending text more tag stop children := by
  cases h with
  | alone single empty same => exact .alone single empty same
  | closed inside tiles closing => exact .closed inside tiles closing
  | implied tiles name outerStop around closing =>
    exact .implied tiles name outerStop (hm around) closing

mutual

theorem Node.Faithful.mono {text : List Char} {outer more : List (String × Nat)} {n : Node}
    (h : n.Faithful text outer) (hm : outer ⊆ more) : n.Faithful text more := by
  match n with
  | .text .. | .comment .. => exact h
  | .element tag stop children =>
    obtain ⟨ht, hlt, hle, he, hc⟩ := h
    exact ⟨ht, hlt, hle, he.mono hm, hc.mono (List.cons_subset_cons _ hm)⟩

theorem AllFaithful.mono {text : List Char} {outer more : List (String × Nat)} {ns : List Node}
    (h : AllFaithful text outer ns) (hm : outer ⊆ more) : AllFaithful text more ns := by
  match ns with
  | [] => exact trivial
  | n :: rest => exact ⟨h.1.mono hm, h.2.mono hm⟩

end

/-- The open elements and the root hold what was read of the text up to `pos`. -/
def OpensFit (text : List Char) (root : List Node) : Nat → List OpenElement → Prop
  | pos, [] => Tiles 0 pos root.reverse ∧ AllFaithful text [] root
  | pos, e :: rest =>
    e.tag.StandsIn text ∧ Tiles e.tag.span.stop pos e.children.reverse ∧
      AllFaithful text [] e.children ∧ OpensFit text root e.tag.span.start rest

def Builder.Fits (text : List Char) (pos : Nat) (b : Builder) : Prop := OpensFit text b.root pos b.opens

theorem Builder.Fits.push {text : List Char} {pos : Nat} {b : Builder} {n : Node}
    (h : b.Fits text pos) (hs : n.start = pos) (hlt : pos < n.stop) (hn : n.Faithful text []) :
    (b.push n).Fits text n.stop := by
  obtain ⟨root, opens⟩ := b
  cases opens with
  | nil =>
    obtain ⟨ht, ha⟩ := h
    refine ⟨?_, hn, ha⟩
    change Tiles 0 n.stop (n :: root).reverse
    rw [List.reverse_cons]
    exact ht.concat hs hlt
  | cons e rest =>
    obtain ⟨hw, ht, ha, hr⟩ := h
    refine ⟨hw, ?_, ⟨hn, ha⟩, hr⟩
    rw [List.reverse_cons]
    exact ht.concat hs hlt

theorem StartTag.StandsIn.lt {text : List Char} {tag : StartTag} (h : tag.StandsIn text) :
    tag.span.start < tag.span.stop := by
  obtain ⟨-, hs, -, inner, hu⟩ := h
  have hl := congrArg Span.stop hs
  rw [hu] at hl
  simp only [List.cons_append, List.length_cons] at hl
  omega

theorem close_fits {text : List Char} {root : List Node} {name : String} {span : Span}
    {inner : List Node} {opens rest : List OpenElement} {n : Node} {mid : Nat}
    (hlt : span.start < span.stop) (hc : IsClosingTag name.toList (span.of text))
    (hi : Tiles mid span.start inner) (hf : AllFaithful text [(name, span.stop)] inner)
    (hl : inner.length ≤ 1) (ho : OpensFit text root mid opens)
    (h : Builder.close name span inner opens = some (n, rest)) :
    OpensFit text root n.start rest ∧ n.start < n.stop ∧ n.stop = span.stop ∧ n.Faithful text [] := by
  -- `inner` is at most the one element that those passed over have become; each of these ends where
  -- the closing tag starts.
  induction opens generalizing inner mid with
  | nil => simp [Builder.close] at h
  | cons e opens ih =>
    obtain ⟨hw, ht, ha, hr⟩ := ho
    have hrev : inner.reverse = inner := by
      match inner, hl with
      | [], _ => rfl
      | [m], _ => rfl
    have htile : Tiles e.tag.span.stop span.start (inner ++ e.children).reverse := by
      rw [List.reverse_append, hrev]
      exact tiles_append_iff.mpr ⟨mid, ht, hi⟩
    have hall : AllFaithful text [(name, span.stop)] (inner ++ e.children).reverse := by
      rw [allFaithful_iff] at hf ha ⊢
      intro m hm
      rcases List.mem_append.mp (List.mem_reverse.mp hm) with hm | hm
      · exact hf m hm
      · exact (ha m hm).mono (List.nil_subset _)
    rw [Builder.close] at h
    split at h
    · next hname =>
      simp only [Option.some.injEq, Prod.mk.injEq] at h
      obtain ⟨rfl, rfl⟩ := h
      refine ⟨hr, hw.lt.trans_le (htile.le.trans hlt.le), rfl, hw, hw.lt, htile.le.trans hlt.le, ?_, ?_⟩
      · exact .closed span.start htile (hname ▸ hc)
      · rw [hname]
        exact hall
    · have hstop : e.tag.span.start < span.start := hw.lt.trans_le htile.le
      have hpassed : Node.Faithful text [(name, span.stop)]
          (.element e.tag span.start (inner ++ e.children).reverse) :=
        ⟨hw, hw.lt, htile.le, .implied htile name span.stop List.mem_cons_self hc,
          hall.mono (List.subset_cons_self _ _)⟩
      have htiles : Tiles e.tag.span.start span.start
          [.element e.tag span.start (inner ++ e.children).reverse] := ⟨rfl, hstop, rfl⟩
      exact ih htiles ⟨hpassed, trivial⟩ Nat.le.refl hr h

theorem StartTag.Covers.standsIn {text before used rest : List Char} {tag : StartTag}
    (h : tag.Covers before.length used) (he : text = before ++ used ++ rest) : tag.StandsIn text := by
  have hspan := h.1
  have hof : tag.span.of text = used := by
    rw [hspan, he]
    exact Span.of_append rest rfl rfl
  refine ⟨?_, ?_⟩
  · rw [hspan, he]
    simp only [List.length_append]
    omega
  · rw [hof, hspan]
    exact h

theorem content_fits {text : List Char} {content : String} {inside : Nat}
    (hle : inside + content.length ≤ text.length)
    (hof : (⟨inside, inside + content.length⟩ : Span).of text = content.toList)
    (outer : List (String × Nat)) :
    let children := if content.isEmpty then [] else [.text content ⟨inside, inside + content.length⟩]
    Tiles inside (inside + content.length) children ∧ AllFaithful text outer children := by
  dsimp only
  split
  · next he =>
    have hz : content.length = 0 := by
      rw [String.isEmpty_iff.mp he]
      rfl
    exact ⟨by rw [hz]; rfl, trivial⟩
  · next he =>
    have hpos : 0 < content.length := by
      rw [← String.length_toList, List.length_pos_iff]
      exact mt String.toList_eq_nil_iff.mp (mt String.isEmpty_iff.mpr he)
    exact ⟨⟨rfl, Nat.lt_add_of_pos_right hpos, rfl⟩, ⟨hle, hof.symm⟩, trivial⟩

theorem Builder.Fits.add {text before used rest : List Char} {b b' : Builder} {t : Token}
    (hb : b.Fits text before.length) (he : text = before ++ used ++ rest) (hne : used ≠ [])
    (hs : t.stop = before.length + used.length) (hc : t.Covers before.length used)
    (h : b.add t = .ok b') : b'.Fits text (before.length + used.length) := by
  have hpos := List.length_pos_iff.mpr hne
  have hle : before.length + used.length ≤ text.length := by
    simp only [he, List.length_append]
    omega
  have hof : (⟨before.length, before.length + used.length⟩ : Span).of text = used := by
    rw [he]
    exact Span.of_append rest rfl rfl
  cases t with
  | text content span =>
    obtain ⟨rfl, hu⟩ := hc
    cases h
    exact hb.push (n := .text content _) rfl (Nat.lt_add_of_pos_right hpos) ⟨hle, hu.trans hof.symm⟩
  | comment content span =>
    obtain ⟨rfl, hu⟩ := hc
    cases h
    exact hb.push (n := .comment content _) rfl (Nat.lt_add_of_pos_right hpos) ⟨hle, hu.trans hof.symm⟩
  | startTag tag =>
    have hw := hc.1.standsIn he
    have hstart : tag.span.start = before.length := by rw [hc.1.1]
    have hstop : tag.span.stop = before.length + used.length := by rw [hc.1.1]
    rw [← hstop]
    rw [← hstart] at hb
    rw [Builder.add] at h
    split at h
    · next hsingle =>
      cases h
      refine hb.push (n := .element tag tag.span.stop []) rfl hw.lt ⟨hw, hw.lt, le_rfl, ?_, trivial⟩
      exact .alone (Bool.or_eq_true_iff.mp hsingle) rfl rfl
    · cases h
      exact ⟨hw, rfl, trivial, hb⟩
  | rawElement tag content stop =>
    obtain ⟨hsc, hraw, rfl, opening, closing, rfl, htag, hend⟩ := hc
    have hopen : text = before ++ opening ++ (content.toList ++ closing ++ rest) := by
      rw [he]
      simp only [List.append_assoc]
    have hw := htag.standsIn hopen
    have hspan := htag.1
    have hstart : tag.span.start = before.length := by rw [hspan]
    have hstop : tag.span.stop = (before ++ opening).length := by rw [hspan, List.length_append]
    have hinside : tag.span.stop + content.length = (before ++ opening ++ content.toList).length := by
      rw [hstop, ← String.length_toList, ← List.length_append]
    have hend' : before.length + (opening ++ content.toList ++ closing).length =
        tag.span.stop + content.length + closing.length := by
      rw [hinside]
      simp only [List.length_append]
      omega
    rw [hend'] at hle
    have hcontent : (⟨tag.span.stop, tag.span.stop + content.length⟩ : Span).of text =
        content.toList := by
      rw [hopen, List.append_assoc content.toList, ← List.append_assoc (before ++ opening)]
      exact Span.of_append (closing ++ rest) hstop (by rw [String.length_toList])
    have hclosing : (⟨tag.span.stop + content.length,
        tag.span.stop + content.length + closing.length⟩ : Span).of text = closing := by
      rw [he, ← List.append_assoc, ← List.append_assoc]
      exact Span.of_append rest hinside rfl
    have hlast : tag.span.stop ≤ tag.span.stop + content.length + closing.length := by omega
    obtain ⟨htiles, hall⟩ := content_fits (by omega) hcontent
      [(tag.name, tag.span.stop + content.length + closing.length)]
    rw [hend'] at h ⊢
    rw [← hstart] at hb
    cases h
    refine hb.push (n := .element tag _ _) rfl (hw.lt.trans_le hlast) ⟨hw, hw.lt, hlast, ?_, hall⟩
    exact .closed (tag.span.stop + content.length) htiles (hclosing.symm ▸ hend.isClosingTag htag.2.1)
  | endTag name span =>
    obtain ⟨rfl, hu⟩ := hc
    rw [Builder.add] at h
    split at h
    · next n opens hclose =>
      cases h
      have hnone : Tiles before.length before.length [] := rfl
      have hall : AllFaithful text [(name, before.length + used.length)] [] := trivial
      have hlen : ([] : List Node).length ≤ 1 := Nat.zero_le 1
      obtain ⟨ho, hlt, hstop, hn⟩ := close_fits (Nat.lt_add_of_pos_right hpos)
        (hof.symm ▸ hu) hnone hall hlen hb hclose
      rw [show before.length + used.length = n.stop from hstop.symm]
      exact Builder.Fits.push (b := { b with opens }) ho rfl hlt hn
    · simp at h

theorem Builder.Fits.ofTokens {text rest : List Char} {b b' : Builder} {pos : Nat} {ts : List Token}
    (before : List Char) (hr : TokenRun pos rest ts) (hp : pos = before.length)
    (he : text = before ++ rest) (hb : b.Fits text pos) (h : ofTokens b ts = .ok b') :
    b'.Fits text text.length := by
  induction hr generalizing before b with
  | done pos =>
    cases h
    rw [List.append_nil] at he
    rwa [he, ← hp, ← he]
  | @token pos c rest used more t ts read split stop nonempty covers tail ih =>
    subst hp
    rw [split, ← List.append_assoc] at he
    rw [Markup.ofTokens] at h
    split at h
    · simp at h
    · next b₁ ha =>
      refine ih (before ++ used) List.length_append.symm he ?_ h
      exact hb.add he nonempty stop covers ha

theorem parse_eq_ok {text : List Char} {nodes : List Node} (h : parse text = .ok nodes) :
    ∃ ts b, tokens text = (ts, none) ∧ TokenRun 0 text ts ∧ ofTokens .empty ts = .ok b ∧ b.opens = [] ∧
      nodes = b.root.reverse := by
  rw [parse] at h
  split at h
  next ts fault htokens =>
  split at h
  · simp at h
  · next b hb =>
    split at h
    · simp at h
    · next hf =>
      rw [Builder.finish] at h
      split at h
      · next hopen =>
        exact ⟨ts, b, htokens, tokenRun_of_tokensFrom htokens, hb, hopen, (Except.ok.inj h).symm⟩
      · simp at h

theorem builder_empty_fits (text : List Char) : Builder.empty.Fits text 0 := ⟨rfl, trivial⟩

theorem parse_faithful {text : List Char} {nodes : List Node} (h : parse text = .ok nodes) :
    Tiles 0 text.length nodes ∧ ∀ n ∈ nodes, n.Faithful text [] := by
  obtain ⟨ts, b, -, hr, hb, hopen, rfl⟩ := parse_eq_ok h
  have hfit := (builder_empty_fits text).ofTokens [] hr rfl rfl hb
  rw [Builder.Fits, hopen] at hfit
  obtain ⟨htiles, hall⟩ := hfit
  exact ⟨htiles, fun n hn => allFaithful_iff.mp hall n (List.mem_reverse.mp hn)⟩

theorem parse_faithful_list_item_left_open : ∃ nodes,
    parse "<ul><li>a<br><p/>{b}</ul><!--c-->".toList = .ok nodes ∧ nodes.length = 2 ∧ Tiles 0 33 nodes ∧
      ∀ n ∈ nodes, n.Faithful "<ul><li>a<br><p/>{b}</ul><!--c-->".toList [] := by
  have h : (parse "<ul><li>a<br><p/>{b}</ul><!--c-->".toList).map List.length = .ok 2 := by
    decide +kernel
  obtain ⟨nodes, hp, hl⟩ := map_eq_ok.mp h
  obtain ⟨htiles, hall⟩ := parse_faithful hp
  exact ⟨nodes, hp, hl, htiles, hall⟩

end ComponentDoc.Markup
