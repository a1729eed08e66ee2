import ComponentDoc.Proofs.Markup.Handlers
import ComponentDoc.Proofs.Script.Parse

namespace ComponentDoc.Markup

open Text

variable {ctx : Context} {text : List Char} {comment : Option Comment}

mutual

/-- Every element at or below a node, in document order, each with the comment that belongs to it;
`pending` belongs to the node. -/
def Node.commented (ctx : Context) (pending : Option Comment) : Node → List (StartTag × Option Comment)
  | .text .. | .comment .. => []
  | .element tag _ children => (tag, pending) :: commentedOf ctx none children

def commentedOf (ctx : Context) (pending : Option Comment) : List Node → List (StartTag × Option Comment)
  | [] => []
  | n :: rest => n.commented ctx pending ++ commentedOf ctx (ctx.pendingAfter pending n) rest

end

mutual

theorem Node.map_fst_commented (ctx : Context) (pending : Option Comment) : (n : Node) →
    (n.commented ctx pending).map Prod.fst = n.tags
  | .text .. | .comment .. => by rw [Node.commented, Node.tags, List.map_nil]
  | .element tag _ children => by
    rw [Node.commented, Node.tags, List.map_cons, map_fst_commentedOf ctx none children]

theorem map_fst_commentedOf (ctx : Context) (pending : Option Comment) : (ns : List Node) →
    (commentedOf ctx pending ns).map Prod.fst = tagsOf ns
  | [] => by rw [commentedOf, tagsOf, List.map_nil]
  | n :: rest => by
    rw [commentedOf, tagsOf, List.map_append, n.map_fst_commented ctx pending, map_fst_commentedOf ctx _ rest]

end

mutual

theorem Node.filterMap_findings [Script.Reader] {β : Type} {view : Finding → Option β}
    (hview : ∀ c, view (.comment c) = none)
    (pending : Option Comment) : (n : Node) → (n.findings ctx pending).filterMap view =
      (n.commented ctx pending).flatMap fun t => (ctx.elementFindings t.2 t.1).filterMap view
  | .text .. => by rw [Node.findings, Node.commented, List.filterMap_nil, List.flatMap_nil]
  | .comment content span => by
    rw [Node.findings, Node.commented, List.flatMap_nil]
    split
    · rw [List.filterMap_cons_none (hview _), List.filterMap_nil]
    · exact List.filterMap_nil
  | .element tag _ children => by
    rw [Node.findings, Node.commented, List.filterMap_append, List.flatMap_cons,
      filterMap_findingsOf hview none children]

theorem filterMap_findingsOf [Script.Reader] {β : Type} {view : Finding → Option β}
    (hview : ∀ c, view (.comment c) = none)
    (pending : Option Comment) : (ns : List Node) → (findingsOf ctx pending ns).filterMap view =
      (commentedOf ctx pending ns).flatMap fun t => (ctx.elementFindings t.2 t.1).filterMap view
  | [] => by rw [findingsOf, commentedOf, List.filterMap_nil, List.flatMap_nil]
  | n :: rest => by
    rw [findingsOf, commentedOf, List.filterMap_append, List.flatMap_append,
      n.filterMap_findings hview pending, filterMap_findingsOf hview _ rest]

end

theorem eventFindings_only_events [Script.Reader] (element : String) (a : Attribute) :
    ∀ f ∈ ctx.eventFindings element comment a, f.component? = none ∧ f.slot? = none ∧ f.ref? = none := by
  have hcall (s : Script.Source) (call : Script.Node) :
      ∀ f ∈ callFindings s comment call, f.component? = none ∧ f.slot? = none ∧ f.ref? = none := by
    unfold callFindings
    split <;> exact List.forall_mem_singleton.mpr ⟨rfl, rfl, rfl⟩
  have hhandler (handler : String) (offset : Nat) :
      ∀ f ∈ ctx.handlerFindings comment handler offset, f.component? = none ∧ f.slot? = none ∧ f.ref? = none := by
    unfold Context.handlerFindings
    split
    · split
      · exact List.forall_mem_singleton.mpr ⟨rfl, rfl, rfl⟩
      · refine List.forall_mem_cons.mpr ⟨⟨rfl, rfl, rfl⟩, fun f hf => ?_⟩
        obtain ⟨call, -, hf⟩ := List.mem_flatMap.mp hf
        exact hcall _ call f hf
    · exact List.forall_mem_nil _
  unfold Context.eventFindings
  split
  · exact hhandler _ _
  · split
    · exact List.forall_mem_nil _
    · exact hhandler _ _
  · exact List.forall_mem_singleton.mpr ⟨rfl, rfl, rfl⟩

theorem refFindings_only_refs (element : String) (a : Attribute) :
    ∀ f ∈ ctx.refFindings element comment a, f.component? = none ∧ f.slot? = none ∧ f.event? = none := by
  unfold Context.refFindings
  split
  · split <;> exact List.forall_mem_singleton.mpr ⟨rfl, rfl, rfl⟩
  · exact List.forall_mem_singleton.mpr ⟨rfl, rfl, rfl⟩

theorem attributeFindings_no_elements [Script.Reader] (element : String) (a : Attribute) :
    ∀ f ∈ ctx.attributeFindings element comment a, f.component? = none ∧ f.slot? = none := by
  unfold Context.attributeFindings
  split
  · exact List.forall_mem_nil _
  · split
    · exact fun f hf => ⟨(eventFindings_only_events element a f hf).1, (eventFindings_only_events element a f hf).2.1⟩
    · split
      · exact fun f hf => ⟨(refFindings_only_refs element a f hf).1, (refFindings_only_refs element a f hf).2.1⟩
      · exact List.forall_mem_nil _

theorem componentFindings_only_components (tag : StartTag) :
    ∀ f ∈ ctx.componentFindings tag comment, f.event? = none ∧ f.slot? = none ∧ f.ref? = none := by
  unfold Context.componentFindings
  dsimp only
  split
  · exact List.forall_mem_singleton.mpr ⟨rfl, rfl, rfl⟩
  · exact List.forall_mem_nil _

theorem slotFindings_only_slots (tag : StartTag) :
    ∀ f ∈ ctx.slotFindings tag comment, f.component? = none ∧ f.event? = none ∧ f.ref? = none := by
  refine List.forall_mem_append.mpr ⟨fun f hf => ?_, List.forall_mem_singleton.mpr ⟨rfl, rfl, rfl⟩⟩
  obtain ⟨notice, -, rfl⟩ := List.mem_map.mp hf
  exact ⟨rfl, rfl, rfl⟩

theorem filterMap_elementFindings [Script.Reader] {β : Type} {view : Finding → Option β} (hdialect : ctx.dialect = .v3)
    (tag : StartTag) : (ctx.elementFindings comment tag).filterMap view =
      (ctx.componentFindings tag comment).filterMap view ++
        (tag.attributes.flatMap fun a => (ctx.attributeFindings tag.name comment a).filterMap view) ++
        if tag.name = "slot" then (ctx.slotFindings tag comment).filterMap view else [] := by
  rw [Context.elementFindings, hdialect, List.filterMap_append, List.filterMap_append, List.filterMap_flatMap,
    apply_ite (List.filterMap view), List.filterMap_nil]

theorem StartTag.StandsIn.name {tag : StartTag} (h : tag.StandsIn text) :
    StandsAt text (tag.span.start + 1) tag.name.toList := by
  have hof := Span.standsAt h.lt.le h.1
  obtain ⟨-, -, -, inner, hused⟩ := h
  rw [hused, show '<' :: tag.name.toList ++ inner ++ tagStop tag.selfClosing =
    ['<'] ++ tag.name.toList ++ (inner ++ tagStop tag.selfClosing) by simp] at hof
  exact hof.inside

theorem namedIn_ofComment {α : Type} {piece : List Char} {start : Nat} (h : StandsAt text start piece)
    (comment : Option Comment) (detail : α) :
    (Item.ofComment (.ofChars piece) (spanAt start piece.length) comment detail).NamedIn text :=
  ⟨_, Item.loc_ofComment _ _ _ _, by rw [h.of_spanAt, Item.name_ofComment]⟩

theorem namedIn_ofComment_string {α : Type} {name : String} {start : Nat} (h : StandsAt text start name.toList)
    (comment : Option Comment) (detail : α) :
    (Item.ofComment name (spanAt start name.length) comment detail).NamedIn text :=
  String.length_toList (s := name) ▸ namedIn_ofComment h comment detail

theorem componentFindings_components {tag : StartTag} (h : tag.StandsIn text) :
    Placed (·.NamedIn text) tag.span.start tag.span.stop
      ((ctx.componentFindings tag comment).filterMap Finding.component?) := by
  unfold Context.componentFindings
  dsimp only
  split
  · have hhead := h.name.of_prefix (prefix_cutAt '.' tag.name.toList)
    refine placed_singleton (namedIn_ofComment hhead _ _) ?_ ?_ <;> rw [Item.start_ofComment]
    · exact Nat.lt_succ_self _
    · exact h.lt
  · exact placed_nil

theorem Attribute.exists_expression {a : Attribute} (h : a.isShorthand) :
    ∃ code offset, a.expression? = some (code, offset) := by
  unfold isShorthand at h
  split at h
  · next code offset hcontent => exact ⟨code, offset, by rw [expression?, hcontent]⟩
  · cases h

theorem slotParameter_eq {a : Attribute} (h : a.StandsIn text) (hspread : a.isSpread = false) :
    ∃ start, slotParameter a = .ofComment a.name (spanAt start a.name.length) none ⟨⟩ ∧
      StandsAt text start a.name.toList ∧ a.span.start ≤ start ∧ start < a.span.stop := by
  by_cases hshort : a.isShorthand
  · obtain ⟨code, offset, hcode⟩ := a.exists_expression hshort
    obtain ⟨hstands, hstart, hstop⟩ := h.expression hspread hcode
    obtain ⟨htrim, hlength⟩ := standsAt_trim hstands
    rw [← h.shorthand_name hshort hcode] at htrim hlength
    rw [String.length_toList, String.length_toList] at hlength
    refine ⟨_, by simp only [slotParameter, hcode, hshort, if_true], htrim, ?_, ?_⟩
    · exact hstart.le.trans (Nat.le_add_right _ _)
    · omega
  · have hname := (h.name (Bool.eq_false_iff.mpr hshort) hspread).1
    refine ⟨a.span.start, ?_, hname, le_rfl, h.start_lt_stop⟩
    cases hcode : a.expression? <;> simp [slotParameter, hcode, hshort]

theorem slotParameters_placed {tag : StartTag} {start : Nat}
    (h : AttributesStand text start tag.span.stop tag.attributes) :
    (∀ p ∈ slotParameters tag, p.NamedIn text) ∧ ((slotParameters tag).map Item.start).Pairwise (· < ·) := by
  have hplace {a : Attribute} (ha : a ∈ tag.attributes.filter fun a =>
      a.name ≠ "name" && !a.isSpread && a.directive?.isNone) := by
    obtain ⟨hmem, hkept⟩ := List.mem_filter.mp ha
    simp only [Bool.and_eq_true, Bool.not_eq_true'] at hkept
    exact slotParameter_eq (h.standsIn a hmem) hkept.1.2
  constructor
  · refine List.forall_mem_map.mpr fun a ha => ?_
    obtain ⟨start, heq, hstands, -⟩ := hplace ha
    exact heq ▸ namedIn_ofComment_string hstands _ _
  · rw [slotParameters, List.pairwise_map, List.pairwise_map]
    refine ((List.pairwise_map.mp h.ascending.apart).filter _).imp_of_mem fun ha hb hab => ?_
    obtain ⟨start, heq, -, -, hstop⟩ := hplace ha
    obtain ⟨start', heq', -, hstart', -⟩ := hplace hb
    rw [heq, heq', Item.start_ofComment, Item.start_ofComment]
    exact hstop.trans_le (hab.trans hstart')

theorem slotFindings_slots (hdialect : ctx.dialect = .v3) (tag : StartTag) (comment : Option Comment) :
    ∃ detail : Slot, detail.parameters.getD [] = slotParameters tag ∧
      (ctx.slotFindings tag comment).filterMap Finding.slot? =
        [.ofComment (slotName tag).1 (spanAt (tag.span.start + 1) tag.name.length) comment detail] := by
  have hnotices (notices : List Notice) : (notices.map Finding.notice).filterMap Finding.slot? = [] := by
    rw [List.filterMap_map]
    exact List.filterMap_eq_nil_iff.mpr fun _ _ => rfl
  unfold Context.slotFindings
  rw [List.filterMap_append, hnotices, List.nil_append, hdialect]
  refine ⟨_, ?_, rfl⟩
  cases slotParameters tag <;> rfl

def EventStands (text : List Char) (x : Item Attachment) : Prop :=
  (x.detail.parent ≠ none → x.NamedIn text) ∧ (x.detail.parent = none → x.QuotedIn text)

def StartTag.handlers (tag : StartTag) : List (String × Nat) :=
  (tag.attributes.filter fun a => !a.isSpread && a.directive? = some "on").filterMap Attribute.expression?

/-- The trees of the handlers show them as they are written. -/
def HandlersFaithful [Script.Reader] (tags : List StartTag) : Prop :=
  ∀ tag ∈ tags, ∀ handler ∈ tag.handlers, HandlerFaithful handler.1 handler.2

theorem attributeFindings_events [Script.Reader] (hdialect : ctx.dialect = .v3) (hnames : ctx.NamesDispatchers)
    {tag : StartTag}
    (htree : ∀ handler ∈ tag.handlers, HandlerFaithful handler.1 handler.2) {a : Attribute} (ha : a ∈ tag.attributes)
    (h : a.StandsIn text) : Placed (EventStands text) a.span.start a.span.stop
      ((ctx.attributeFindings tag.name comment a).filterMap Finding.event?) := by
  unfold Context.attributeFindings
  split
  · exact placed_nil
  · next hspread =>
    replace hspread := Bool.eq_false_iff.mpr hspread
    split
    · next hon =>
      unfold Context.eventFindings
      split
      · next handler offset hcode =>
        obtain ⟨hstands, hstart, hstop⟩ := h.expression hspread hcode
        have hmem : (handler, offset) ∈ tag.handlers :=
          List.mem_filterMap.mpr ⟨a, List.mem_filter.mpr ⟨ha, by simp [hspread, hon]⟩, hcode⟩
        have hfaithful : HandlerFaithful handler offset := htree (handler, offset) hmem
        refine (handlerFindings_events hdialect hnames hstands hstart hstop.le hfaithful).imp fun x hx => ?_
        exact ⟨fun hparent => absurd hx.1 hparent, fun _ => hx.2⟩
      · rw [hdialect]
        exact placed_nil
      · next hcode hvalue =>
        have hshort : a.isShorthand = false := by
          refine Bool.eq_false_iff.mpr fun hshort => ?_
          obtain ⟨code, offset, hsome⟩ := a.exists_expression hshort
          rw [hcode] at hsome
          cases hsome
        obtain ⟨htarget, hstop⟩ := h.target hon hshort hspread
        refine placed_singleton ⟨fun _ => namedIn_ofComment_string htarget _ _, fun h => ?_⟩ ?_ ?_
        · rw [Item.detail_ofComment] at h
          cases h
        · rw [Item.start_ofComment]
          exact Nat.lt_add_of_pos_right (Nat.succ_pos _)
        · rw [Item.start_ofComment]
          exact hstop
    · split
      · rw [List.filterMap_eq_nil_iff.mpr fun f hf => (refFindings_only_refs _ a f hf).2.2]
        exact placed_nil
      · exact placed_nil

theorem attributeFindings_refs [Script.Reader] (hdialect : ctx.dialect = .v3) {a : Attribute} (h : a.StandsIn text)
    (element : String) : Placed (·.NamedIn text) a.span.start a.span.stop
      ((ctx.attributeFindings element comment a).filterMap Finding.ref?) := by
  unfold Context.attributeFindings
  split
  · exact placed_nil
  · next hspread =>
    replace hspread := Bool.eq_false_iff.mpr hspread
    split
    · rw [List.filterMap_eq_nil_iff.mpr fun f hf => (eventFindings_only_events element a f hf).2.2]
      exact placed_nil
    · split
      · unfold Context.refFindings
        rw [hdialect]
        dsimp only
        split
        · exact placed_nil
        · exact placed_nil
        · next name code offset _ hcode =>
          obtain ⟨⟨written, offset'⟩, hwritten, hparts⟩ := Option.map_eq_some_iff.mp hcode
          obtain ⟨rfl, rfl, rfl⟩ : trim written.toList = name ∧ written.toList = code ∧ offset' = offset := by
            simpa using hparts
          obtain ⟨hstands, hstart, hstop⟩ := h.expression hspread hwritten
          obtain ⟨htrim, hlength⟩ := standsAt_trim hstands
          rw [String.length_toList] at hlength
          refine placed_singleton (namedIn_ofComment htrim _ _) ?_ ?_ <;> rw [Item.start_ofComment]
          · exact hstart.trans_le (Nat.le_add_right _ _)
          · change offset' + _ ≤ _
            omega
      · exact placed_nil

section Element

variable (hdialect : ctx.dialect = .v3) {tag : StartTag} (h : tag.ReadIn text)

theorem StartTag.ReadIn.placed_flatMap {α : Type} {P : Item α → Prop} {items : Attribute → List (Item α)}
    (h : tag.ReadIn text) (hitems : ∀ a ∈ tag.attributes, Placed P a.span.start a.span.stop (items a)) :
    Placed P tag.span.start tag.span.stop (tag.attributes.flatMap items) := by
  refine ComponentDoc.placed_flatMap _ h.attributes.ascending (fun a ha => ?_) hitems
  obtain ⟨hstart, hstop⟩ := h.attributes.inside a ha
  exact ⟨(Nat.le_add_right_of_le (Nat.le_succ _)).trans hstart, hstop⟩

theorem flatMap_attributeFindings_eq_nil [Script.Reader] {β : Type} {view : Finding → Option β}
    (hview : ∀ a, ∀ f ∈ ctx.attributeFindings tag.name comment a, view f = none) :
    (tag.attributes.flatMap fun a => (ctx.attributeFindings tag.name comment a).filterMap view) = [] :=
  List.flatMap_eq_nil_iff.mpr fun a _ => List.filterMap_eq_nil_iff.mpr (hview a)

theorem ite_slotFindings_eq_nil {β : Type} {view : Finding → Option β}
    (hview : ∀ f ∈ ctx.slotFindings tag comment, view f = none) :
    (if tag.name = "slot" then (ctx.slotFindings tag comment).filterMap view else []) = [] := by
  rw [List.filterMap_eq_nil_iff.mpr hview, ite_self]

include hdialect h

theorem elementFindings_components [Script.Reader] : Placed (·.NamedIn text) tag.span.start tag.span.stop
    ((ctx.elementFindings comment tag).filterMap Finding.component?) := by
  rw [filterMap_elementFindings hdialect,
    flatMap_attributeFindings_eq_nil fun a f hf => (attributeFindings_no_elements _ a f hf).1,
    ite_slotFindings_eq_nil fun f hf => (slotFindings_only_slots tag f hf).1, List.append_nil, List.append_nil]
  exact componentFindings_components h.standsIn

theorem elementFindings_events [Script.Reader] (hnames : ctx.NamesDispatchers)
    (htree : ∀ handler ∈ tag.handlers, HandlerFaithful handler.1 handler.2) :
    Placed (EventStands text) tag.span.start tag.span.stop
      ((ctx.elementFindings comment tag).filterMap Finding.event?) := by
  rw [filterMap_elementFindings hdialect,
    List.filterMap_eq_nil_iff.mpr fun f hf => (componentFindings_only_components tag f hf).1,
    ite_slotFindings_eq_nil fun f hf => (slotFindings_only_slots tag f hf).2.1, List.nil_append, List.append_nil]
  exact h.placed_flatMap fun a ha =>
    attributeFindings_events hdialect hnames htree ha (h.attributes.standsIn a ha)

theorem elementFindings_refs [Script.Reader] : Placed (·.NamedIn text) tag.span.start tag.span.stop
    ((ctx.elementFindings comment tag).filterMap Finding.ref?) := by
  rw [filterMap_elementFindings hdialect,
    List.filterMap_eq_nil_iff.mpr fun f hf => (componentFindings_only_components tag f hf).2.2,
    ite_slotFindings_eq_nil fun f hf => (slotFindings_only_slots tag f hf).2.2, List.nil_append, List.append_nil]
  exact h.placed_flatMap fun a ha => attributeFindings_refs hdialect (h.attributes.standsIn a ha) _

theorem elementFindings_slots [Script.Reader] : Placed
    (fun x => (∃ loc, x.loc = some loc ∧ loc.of text = "slot".toList) ∧
      (∀ p ∈ x.detail.parameters.getD [], p.NamedIn text) ∧
      ((x.detail.parameters.getD []).map Item.start).Pairwise (· < ·))
    tag.span.start tag.span.stop ((ctx.elementFindings comment tag).filterMap Finding.slot?) := by
  rw [filterMap_elementFindings hdialect,
    List.filterMap_eq_nil_iff.mpr fun f hf => (componentFindings_only_components tag f hf).2.1,
    flatMap_attributeFindings_eq_nil fun a f hf => (attributeFindings_no_elements _ a f hf).2, List.nil_append]
  split
  · next hname =>
    obtain ⟨detail, hparameters, heq⟩ := slotFindings_slots hdialect tag comment
    obtain ⟨hnamed, hsorted⟩ := slotParameters_placed h.attributes
    rw [heq]
    refine placed_singleton ⟨?_, ?_⟩ ?_ ?_
    · refine ⟨_, Item.loc_ofComment _ _ _ _, ?_⟩
      rw [← String.length_toList, h.standsIn.name.of_spanAt, hname]
    · rw [Item.detail_ofComment, hparameters]
      exact ⟨hnamed, hsorted⟩
    · rw [Item.start_ofComment]
      exact Nat.lt_succ_self _
    · rw [Item.start_ofComment]
      exact h.standsIn.lt
  · exact placed_nil

end Element

/-- The candidates stand where the document has what they are named by, and those of each kind one after
another. -/
structure Candidates.StandIn (c : Candidates) (document : List Char) : Prop where
  components : ∀ x ∈ c.components, x.NamedIn document
  forwarded : ∀ x ∈ c.events, x.detail.parent ≠ none → x.NamedIn document
  dispatched : ∀ x ∈ c.events, x.detail.parent = none → x.QuotedIn document
  refs : ∀ x ∈ c.refs, x.NamedIn document
  slots : ∀ x ∈ c.slots, ∃ loc, x.loc = some loc ∧ loc.of document = "slot".toList
  parameters : ∀ x ∈ c.slots, ∀ p ∈ x.detail.parameters.getD [], p.NamedIn document
  sortedComponents : (c.components.map Item.start).Pairwise (· < ·)
  sortedEvents : (c.events.map Item.start).Pairwise (· < ·)
  sortedRefs : (c.refs.map Item.start).Pairwise (· < ·)
  sortedSlots : (c.slots.map Item.start).Pairwise (· < ·)
  sortedParameters : ∀ x ∈ c.slots, ((x.detail.parameters.getD []).map Item.start).Pairwise (· < ·)

theorem findingsOf_placed [Script.Reader] {α : Type} {P : Item α → Prop} {view : Finding → Option (Item α)}
    {nodes : List Node}
    (hparse : parse text = .ok nodes) (hview : ∀ c, view (.comment c) = none)
    (h : ∀ tag ∈ tagsOf nodes, ∀ comment, tag.ReadIn text →
      Placed P tag.span.start tag.span.stop ((ctx.elementFindings comment tag).filterMap view)) :
    Placed P 0 text.length ((findingsOf ctx none nodes).filterMap view) := by
  obtain ⟨hread, hascending⟩ := tagsOf_readIn hparse
  rw [filterMap_findingsOf hview]
  have hmem {t : StartTag × Option Comment} (ht : t ∈ commentedOf ctx none nodes) : t.1 ∈ tagsOf nodes := by
    rw [← map_fst_commentedOf ctx none nodes]
    exact List.mem_map_of_mem ht
  refine placed_flatMap (fun t => t.1.span) ?_ (fun t ht => ?_) fun t ht => h _ (hmem ht) _ (hread _ (hmem ht))
  · rwa [← map_fst_commentedOf ctx none nodes, List.map_map] at hascending
  · exact ⟨Nat.zero_le _, (hread _ (hmem ht)).standsIn.1⟩

theorem ofFindings_of_candidates [Script.Reader] {nodes : List Node} {c : Candidates}
    (h : (candidates ctx nodes).1 = .ok c) :
    Candidates.ofFindings (findingsOf ctx none nodes) = c := by
  unfold candidates at h
  dsimp only at h
  split at h
  · cases h
  · exact Except.ok.inj h

/-- The candidates of markup stand where it has what they are named by. -/
theorem candidates_standIn [Script.Reader] {nodes : List Node} {c : Candidates} (hparse : parse text = .ok nodes)
    (hdialect : ctx.dialect = .v3) (hnames : ctx.NamesDispatchers) (htree : HandlersFaithful (tagsOf nodes))
    (hc : (candidates ctx nodes).1 = .ok c) : c.StandIn text := by
  obtain rfl := ofFindings_of_candidates hc
  have hcomponents := findingsOf_placed hparse (fun _ => rfl)
    fun tag _ comment h => elementFindings_components hdialect h
  have hevents := findingsOf_placed hparse (fun _ => rfl)
    fun tag ht comment h => elementFindings_events hdialect h hnames (htree tag ht)
  have hrefs := findingsOf_placed hparse (fun _ => rfl)
    fun tag _ comment h => elementFindings_refs hdialect h
  have hslots := findingsOf_placed hparse (fun _ => rfl)
    fun tag _ comment h => elementFindings_slots hdialect h
  exact
    { components := hcomponents.each
      forwarded := fun x hx => (hevents.each x hx).1
      dispatched := fun x hx => (hevents.each x hx).2
      refs := hrefs.each
      slots := fun x hx => (hslots.each x hx).1
      parameters := fun x hx => (hslots.each x hx).2.1
      sortedComponents := hcomponents.sorted
      sortedEvents := hevents.sorted
      sortedRefs := hrefs.sorted
      sortedSlots := hslots.sorted
      sortedParameters := fun x hx => (hslots.each x hx).2.2 }

theorem handlerFaithful_of_nested {handler : String} {offset : Nat}
    (h : (Script.parseExpression handler.toList offset none).toOption.all fun read => read.1.root.Nested) :
    HandlerFaithful handler offset := by
  intro s e hread
  rw [hread] at h
  exact Script.faithful_of_parse (Script.parseExpression_eq_ok hread).1 rfl (of_decide_eq_true h)

theorem candidates_standIn_wide :
    let document := "<Größe.Teil on:ende|once on:click=\x7b() => \x7b const é = `x`; dispatch('\\u\x7be9\x7d', é); " ++
      "dispatch(`b`) \x7d\x7d/>\n<slot \x7bitem\x7d ü='\x7b1\x7d' bind:this=\x7b feld \x7d " ++
      "on:input=\"\x7be => dispatch('c')\x7d\"/>"
    let ctx : Context := ⟨.v3, [("Größe", ⟨"Größe", "./größe", ⟨0, 0⟩, none⟩)], ["dispatch"]⟩
    ∃ nodes c, parse document.toList = .ok nodes ∧ HandlersFaithful (tagsOf nodes) ∧
      (candidates ctx nodes).1 = .ok c ∧ c.components.map Item.name = ["Größe"] ∧
      c.events.map Item.name = ["ende", "é", "b", "c"] ∧ c.refs.map Item.name = ["feld"] ∧
      c.slots.map (fun x => (x.detail.parameters.getD []).map Item.name) = [[("item" : CodeText), "ü"]] ∧
      c.StandIn document.toList := by
  intro document ctx
  have hread : (parse document.toList).toOption.any fun nodes => (∀ tag ∈ tagsOf nodes, ∀ handler ∈ tag.handlers,
        (Script.parseExpression handler.1.toList handler.2 none).toOption.all fun read => read.1.root.Nested) ∧
      (candidates ctx nodes).1.toOption.any fun (c : Candidates) => c.components.map Item.name = ["Größe"] ∧
        c.events.map Item.name = ["ende", "é", "b", "c"] ∧ c.refs.map Item.name = ["feld"] ∧
        c.slots.map (fun x => (x.detail.parameters.getD []).map Item.name) = [[("item" : CodeText), "ü"]] := by
    decide +kernel
  obtain ⟨nodes, hparse, hread⟩ := exists_ok_of_any hread
  obtain ⟨hnested, hread⟩ := of_decide_eq_true hread
  have htree : HandlersFaithful (tagsOf nodes) := fun tag ht handler hh =>
    handlerFaithful_of_nested (hnested tag ht handler hh)
  obtain ⟨c, hc, hnames⟩ := exists_ok_of_any hread
  obtain ⟨hcomponents, hevents, hrefs, hparameters⟩ := of_decide_eq_true hnames
  have hdispatchers : ctx.NamesDispatchers := by
    have hpoints : ("dispatch" : CodeText).points = [100, 105, 115, 112, 97, 116, 99, 104] := rfl
    simp [ctx, Context.NamesDispatchers, hpoints]
  have hstand := candidates_standIn hparse rfl hdispatchers htree hc
  exact ⟨nodes, c, hparse, htree, hc, hcomponents, hevents, hrefs, hparameters, hstand⟩

end ComponentDoc.Markup
