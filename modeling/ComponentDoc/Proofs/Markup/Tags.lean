import ComponentDoc.Proofs.Markup.Attribute
import ComponentDoc.Proofs.Markup.Tiling
import ComponentDoc.Proofs.Span

namespace ComponentDoc.Markup

open Text

theorem Shaped.start_eq {pos : Nat} {used more : List Char} {a : Attribute} (h : Shaped pos more used a) :
    a.span.start = pos := by
  cases h with
  | bare | assigned => rfl
  | @alone inner =>
    unfold bracedAttribute
    dsimp only
    split <;> rfl

def Attribute.StandsIn (a : Attribute) (text : List Char) : Prop :=
  ∃ before used more, text = before ++ used ++ more ∧ Shaped before.length more used a

structure AttributesStand (text : List Char) (pos stop : Nat) (attributes : List Attribute) : Prop where
  le : pos ≤ stop
  standsIn : ∀ a ∈ attributes, a.StandsIn text
  inside : ∀ a ∈ attributes, a.span.Within ⟨pos, stop⟩
  ascending : Span.Ascending (attributes.map (·.span))

theorem AttributesStand.of_le {text : List Char} {pos next stop : Nat} {attributes : List Attribute}
    (h : AttributesStand text next stop attributes) (hle : pos ≤ next) : AttributesStand text pos stop attributes :=
  { h with
    le := hle.trans h.le
    inside := fun a ha => ⟨hle.trans (h.inside a ha).1, (h.inside a ha).2⟩ }

theorem TagRead.attributesStand {text rest : List Char} {pos : Nat} {r : TagRest} (h : TagRead pos rest r)
    (before : List Char) (hp : pos = before.length) (he : text = before ++ rest) :
    AttributesStand text pos r.stop r.attributes := by
  induction h generalizing before with
  | @blank pos c rest r isBlank tail ih =>
    exact (ih (before ++ [c]) (by simp [hp]) (by simp [he])).of_le (Nat.le_succ _)
  | slash | sign => exact ⟨Nat.le_add_right _ _, List.forall_mem_nil _, List.forall_mem_nil _, Span.ascending_nil⟩
  | @whole pos used more a r shaped tail ih =>
    have hstop := shaped.stop_eq
    have hstart := shaped.start_eq
    subst hp
    have hrest := ih (before ++ used) (by simp) (by simp [he])
    refine ⟨(Nat.le_add_right _ _).trans hrest.le, ?_, ?_, ?_⟩
    · exact List.forall_mem_cons.mpr ⟨⟨before, used, more, by simp [he], shaped⟩, hrest.standsIn⟩
    · refine List.forall_mem_cons.mpr ⟨⟨hstart.ge, hstop ▸ hrest.le⟩, ?_⟩
      exact (hrest.of_le (Nat.le_add_right _ _)).inside
    · refine Span.ascending_cons_iff.mpr ⟨hstart ▸ hstop ▸ Nat.le_add_right _ _, fun p hp => ?_, hrest.ascending⟩
      obtain ⟨b, hb, rfl⟩ := List.mem_map.mp hp
      exact hstop ▸ (hrest.inside b hb).1

structure StartTag.ReadIn (tag : StartTag) (text : List Char) : Prop where
  standsIn : tag.StandsIn text
  attributes : AttributesStand text (tag.span.start + 1 + tag.name.length) tag.span.stop tag.attributes

def Token.tags : Token → List StartTag
  | .startTag tag | .rawElement tag _ _ => [tag]
  | _ => []

theorem Started.tag_eq {pos : Nat} {name more : List Char} {t : Token} (h : Started pos name more t) :
    ∀ tag ∈ t.tags, ∃ r, tagRest (String.ofList name) pos 0 (pos + 1 + name.length) more = .ok r ∧
      tag = ⟨String.ofList name, ⟨pos, r.stop⟩, r.attributes, r.selfClosing⟩ := by
  cases h with
  | tag rest | raw rest => exact List.forall_mem_singleton.mpr ⟨_, rest, rfl⟩

theorem Started.tagRead {pos : Nat} {name more : List Char} {t : Token} (h : Started pos name more t) :
    ∀ tag ∈ t.tags, tag.name = String.ofList name ∧ tag.span.start = pos ∧
      ∃ r, TagRead (pos + 1 + name.length) more r ∧ tag.attributes = r.attributes ∧ tag.span.stop = r.stop := by
  intro tag htag
  obtain ⟨r, hr, rfl⟩ := h.tag_eq tag htag
  exact ⟨rfl, rfl, r, tagRead_of_tagRest hr, rfl, rfl⟩

theorem tags_readIn {text before rest used more : List Char} {pos : Nat} {c : Char} {t : Token}
    (h : nextToken pos c rest = .ok t) (hp : pos = before.length) (he : text = before ++ c :: rest)
    (hsplit : c :: rest = used ++ more) (hc : t.Covers pos used) :
    ∀ tag ∈ t.tags, tag.ReadIn text ∧ tag.span.Within ⟨pos, pos + used.length⟩ := by
  have hcovers : ∀ tag ∈ t.tags, ∃ opening closing, used = opening ++ closing ∧ tag.Covers pos opening := by
    cases t with
    | startTag tag => exact List.forall_mem_singleton.mpr ⟨used, [], by simp, hc.1⟩
    | rawElement tag content stop =>
      obtain ⟨-, -, -, opening, closing, rfl, htag, -⟩ := hc
      exact List.forall_mem_singleton.mpr ⟨opening, content.toList ++ closing, by simp, htag⟩
    | text | comment | endTag => exact List.forall_mem_nil _
  intro tag htag
  obtain ⟨opening, closing, rfl, hopening⟩ := hcovers tag htag
  have hspan := hopening.1
  have hwithin : tag.span.Within ⟨pos, pos + (opening ++ closing).length⟩ := by
    rw [hspan, List.length_append, ← Nat.add_assoc]
    exact ⟨le_rfl, Nat.le_add_right _ _⟩
  refine ⟨⟨?_, ?_⟩, hwithin⟩
  · subst hp
    have hread : text = before ++ opening ++ (closing ++ more) := by rw [he, hsplit]; simp
    exact hopening.standsIn hread
  · have hscanned := nextToken_scanned h
    generalize c :: rest = shown at hscanned he
    cases hscanned with
    | @opening name more t isName whole read =>
      obtain ⟨hname, hstart, r, hr, hattributes, hstop⟩ := (startToken_started read).tagRead tag htag
      have hlength : tag.name.length = name.length := by rw [hname, String.length_ofList]
      rw [hstart, hstop, hattributes, hlength]
      subst hp
      refine hr.attributesStand (before ++ '<' :: name) ?_ (by simp [he])
      simp only [List.length_append, List.length_cons]
      omega
    | comment | endTag | mustache | plain => exact absurd htag List.not_mem_nil

theorem TokenRun.tags_readIn {text rest : List Char} (before : List Char) {pos : Nat} {ts : List Token}
    (h : TokenRun pos rest ts) (hp : pos = before.length) (he : text = before ++ rest) :
    (∀ tag ∈ ts.flatMap Token.tags, tag.ReadIn text ∧ pos ≤ tag.span.start) ∧
      Span.Ascending ((ts.flatMap Token.tags).map (·.span)) := by
  induction h generalizing before with
  | done => exact ⟨List.forall_mem_nil _, Span.ascending_nil⟩
  | @token pos c rest used more t ts read split stop nonempty covers tail ih =>
    have htags := Markup.tags_readIn read hp he split covers
    obtain ⟨hlater, hascending⟩ := ih (before ++ used) (by simp [hp]) (by simp [he, split])
    have hapart : ∀ p ∈ t.tags.map (·.span), ∀ q ∈ (ts.flatMap Token.tags).map (·.span), p.stop ≤ q.start := by
      intro p hp q hq
      obtain ⟨tag, htag, rfl⟩ := List.mem_map.mp hp
      obtain ⟨tag', htag', rfl⟩ := List.mem_map.mp hq
      exact (htags tag htag).2.2.trans (hlater tag' htag').2
    have hown : Span.Ascending (t.tags.map (·.span)) := by
      have hle : ∀ tag ∈ t.tags, tag.span.start ≤ tag.span.stop := fun tag htag =>
        (htags tag htag).1.standsIn.lt.le
      cases t with
      | startTag tag | rawElement tag =>
        exact Span.ascending_cons_iff.mpr ⟨hle tag List.mem_cons_self, List.forall_mem_nil _, Span.ascending_nil⟩
      | text | comment | endTag => exact Span.ascending_nil
    rw [List.flatMap_cons, List.map_append]
    refine ⟨List.forall_mem_append.mpr ⟨fun tag htag => ⟨(htags tag htag).1, (htags tag htag).2.1⟩, ?_⟩,
      Span.ascending_append hown hascending hapart⟩
    exact fun tag htag => ⟨(hlater tag htag).1, (Nat.le_add_right _ _).trans (hlater tag htag).2⟩

theorem tagsOf_eq (ns : List Node) : tagsOf ns = ns.flatMap Node.tags := by
  induction ns with
  | nil => rfl
  | cons n ns ih => rw [tagsOf, List.flatMap_cons, ih]

def OpenElement.tags (e : OpenElement) : List StartTag := e.tag :: tagsOf e.children.reverse

def Builder.tags (b : Builder) : List StartTag :=
  tagsOf b.root.reverse ++ b.opens.reverse.flatMap OpenElement.tags

theorem Builder.tags_push (b : Builder) (n : Node) : (b.push n).tags = b.tags ++ n.tags := by
  obtain ⟨root, opens⟩ := b
  cases opens with
  | nil => simp [push, tags, tagsOf_eq]
  | cons e rest => simp [push, tags, OpenElement.tags, tagsOf_eq]

theorem tags_close {name : String} {span : Span} {inner : List Node} {opens rest : List OpenElement} {n : Node}
    (h : Builder.close name span inner opens = some (n, rest)) :
    rest.reverse.flatMap OpenElement.tags ++ n.tags =
      opens.reverse.flatMap OpenElement.tags ++ tagsOf inner.reverse := by
  induction opens generalizing inner with
  | nil => simp [Builder.close] at h
  | cons e opens ih =>
    rw [Builder.close] at h
    split at h
    · obtain ⟨rfl, rfl⟩ := Prod.mk.inj (Option.some.inj h)
      simp [Node.tags, OpenElement.tags, tagsOf_eq]
    · rw [ih h]
      simp [Node.tags, OpenElement.tags, tagsOf_eq]

theorem Builder.tags_add {b b' : Builder} {t : Token} (h : b.add t = .ok b') : b'.tags = b.tags ++ t.tags := by
  cases t with
  | text | comment =>
    cases h
    exact tags_push b _
  | startTag tag =>
    rw [add] at h
    split at h
    · cases h
      exact tags_push b _
    · cases h
      simp [tags, OpenElement.tags, Token.tags, tagsOf]
  | rawElement tag content stop =>
    cases h
    rw [tags_push, Node.tags]
    split <;> rfl
  | endTag name span =>
    rw [add] at h
    split at h
    · next n rest hclose =>
      cases h
      have hclosed := tags_close hclose
      rw [tags_push, tags, List.append_assoc, hclosed]
      simp [tags, Token.tags, tagsOf]
    · simp at h

theorem tags_ofTokens {b b' : Builder} {ts : List Token} (h : ofTokens b ts = .ok b') :
    b'.tags = b.tags ++ ts.flatMap Token.tags := by
  induction ts generalizing b with
  | nil =>
    cases h
    simp
  | cons t ts ih =>
    rw [ofTokens] at h
    split at h
    · simp at h
    · next b₁ hadd => rw [ih h, Builder.tags_add hadd, List.flatMap_cons, List.append_assoc]

theorem tagsOf_eq_flatMap {text : List Char} {nodes : List Node} (h : parse text = .ok nodes) :
    ∃ ts, TokenRun 0 text ts ∧ tagsOf nodes = ts.flatMap Token.tags := by
  obtain ⟨ts, b, -, hrun, hb, hopen, rfl⟩ := parse_eq_ok h
  have htags := tags_ofTokens hb
  rw [Builder.tags, hopen] at htags
  exact ⟨ts, hrun, by simpa [Builder.tags, Builder.empty, tagsOf] using htags⟩

theorem tagsOf_readIn {text : List Char} {nodes : List Node} (h : parse text = .ok nodes) :
    (∀ tag ∈ tagsOf nodes, tag.ReadIn text) ∧ Span.Ascending ((tagsOf nodes).map (·.span)) := by
  obtain ⟨ts, hrun, heq⟩ := tagsOf_eq_flatMap h
  obtain ⟨hread, hascending⟩ := hrun.tags_readIn [] rfl rfl
  rw [heq]
  exact ⟨fun tag htag => (hread tag htag).1, hascending⟩

end ComponentDoc.Markup
