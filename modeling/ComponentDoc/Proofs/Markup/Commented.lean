import ComponentDoc.Proofs.Markup.Candidates
import ComponentDoc.Script.Parse
import Mathlib.Data.Option.Basic

namespace ComponentDoc

structure Item.Bears {α : Type} (i : Item α) (comment : Option Comment) : Prop where
  description : i.description = comment.bind (·.description)
  visibility : i.visibility = comment.elim .everyone (·.visibility)
  keywords : i.keywords = comment.map (·.keywords)

theorem Item.bears_ofComment {α : Type} (name : CodeText) (loc : Span) (comment : Option Comment) (detail : α) :
    (Item.ofComment name loc comment detail).Bears comment := by
  cases comment <;> exact ⟨rfl, rfl, rfl⟩

namespace Markup

open Text

variable {ctx : Context} {comment : Option Comment}

/-- An element of a tree, told by its start tag, and the nodes before it that have the same parent. -/
structure Position where
  before : List Node
  tag : StartTag

mutual

/-- The elements at or below a node, in document order; `before` are the nodes before it that have its parent. -/
def Node.positions (before : List Node) : Node → List Position
  | .text .. | .comment .. => []
  | .element tag _ children => ⟨before, tag⟩ :: positionsOf [] children

def positionsOf (before : List Node) : List Node → List Position
  | [] => []
  | n :: rest => n.positions before ++ positionsOf (before ++ [n]) rest

end

/-- The lists of nodes that have the same parent, the top-level nodes among them. -/
inductive Siblings (nodes : List Node) : List Node → Prop
  | top : Siblings nodes nodes
  | inside {siblings children : List Node} {tag : StartTag} {stop : Nat} (above : Siblings nodes siblings)
      (mem : Node.element tag stop children ∈ siblings) : Siblings nodes children

/-- The element is one of the nodes that have the same parent. -/
inductive Position.IsAmong (p : Position) (siblings : List Node) : Prop
  | mk (j stop : Nat) (children : List Node) (element : siblings[j]? = some (.element p.tag stop children))
      (before : p.before = siblings.take j)

mutual

theorem Node.map_tag_positions (before : List Node) : (n : Node) →
    (n.positions before).map Position.tag = n.tags
  | .text .. | .comment .. => by rw [Node.positions, Node.tags, List.map_nil]
  | .element tag _ children => by
    rw [Node.positions, Node.tags, List.map_cons, map_tag_positionsOf [] children]

theorem map_tag_positionsOf (before : List Node) : (ns : List Node) →
    (positionsOf before ns).map Position.tag = tagsOf ns
  | [] => by rw [positionsOf, tagsOf, List.map_nil]
  | n :: rest => by
    rw [positionsOf, tagsOf, List.map_append, n.map_tag_positions before, map_tag_positionsOf _ rest]

end

theorem positionsOf_append (before front back : List Node) :
    positionsOf before (front ++ back) = positionsOf before front ++ positionsOf (before ++ front) back := by
  induction front generalizing before with
  | nil => rw [List.nil_append, positionsOf, List.nil_append, List.append_nil]
  | cons n front ih =>
    rw [List.cons_append, positionsOf, positionsOf, ih, List.append_assoc, List.append_assoc, List.singleton_append]

theorem positionsOf_element (before front back children : List Node) (tag : StartTag) (stop : Nat) :
    positionsOf before (front ++ .element tag stop children :: back) = positionsOf before front ++
      (⟨before ++ front, tag⟩ :: positionsOf [] children) ++
        positionsOf (before ++ front ++ [.element tag stop children]) back := by
  rw [positionsOf_append, positionsOf, Node.positions, ← List.append_assoc]

theorem Siblings.positions_subset {nodes siblings : List Node} (h : Siblings nodes siblings) :
    positionsOf [] siblings ⊆ positionsOf [] nodes := by
  induction h with
  | top => exact List.Subset.refl _
  | inside _ mem ih =>
    obtain ⟨front, back, rfl⟩ := List.append_of_mem mem
    refine List.Subset.trans (fun p hp => ?_) ih
    rw [positionsOf_element]
    exact List.mem_append_left _ (List.mem_append_right _ (List.mem_cons_of_mem _ hp))

mutual

theorem Node.isAmong_of_mem_positions {nodes before rest : List Node} {p : Position} : (n : Node) →
    Siblings nodes (before ++ n :: rest) → p ∈ n.positions before →
      ∃ siblings, Siblings nodes siblings ∧ p.IsAmong siblings
  | .text .., _, hp | .comment .., _, hp => by
    rw [Node.positions] at hp
    exact absurd hp List.not_mem_nil
  | .element tag stop children, h, hp => by
    rw [Node.positions] at hp
    obtain rfl | hp := List.mem_cons.mp hp
    · exact ⟨_, h, before.length, stop, children, by simp, by simp⟩
    · have hmem : Node.element tag stop children ∈ before ++ .element tag stop children :: rest :=
        List.mem_append_right before List.mem_cons_self
      exact isAmong_of_mem_positionsOf children (.inside h hmem) hp

theorem isAmong_of_mem_positionsOf {nodes before : List Node} {p : Position} : (ns : List Node) →
    Siblings nodes (before ++ ns) → p ∈ positionsOf before ns → ∃ siblings, Siblings nodes siblings ∧ p.IsAmong siblings
  | [], _, hp => by
    rw [positionsOf] at hp
    exact absurd hp List.not_mem_nil
  | n :: rest, h, hp => by
    rw [positionsOf] at hp
    obtain hp | hp := List.mem_append.mp hp
    · exact n.isAmong_of_mem_positions h hp
    · exact isAmong_of_mem_positionsOf rest (by rwa [List.append_assoc, List.singleton_append]) hp

end

theorem mem_positionsOf_iff {nodes : List Node} {p : Position} :
    p ∈ positionsOf [] nodes ↔ ∃ siblings, Siblings nodes siblings ∧ p.IsAmong siblings := by
  constructor
  · exact isAmong_of_mem_positionsOf nodes .top
  · rintro ⟨siblings, h, j, stop, children, element, before⟩
    refine h.positions_subset ?_
    obtain ⟨hj, hget⟩ := List.getElem?_eq_some_iff.mp element
    rw [← List.take_append_drop j siblings, List.drop_eq_getElem_cons hj, hget, positionsOf_element]
    exact List.mem_append_left _ (List.mem_append_right _ (List.mem_cons.mpr (.inl (by rw [← before]; rfl))))

def Node.isBlankText : Node → Bool
  | .text content _ => allBlank content.toList
  | _ => false

/-- The comment that belongs to an element after the nodes `before`: the last of these that is no blank text, if it
is a comment and not one on the component. -/
def Context.commentAfter (ctx : Context) (before : List Node) : Option Comment :=
  match before.reverse.find? fun n => !n.isBlankText with
  | some (.comment content span) =>
    let c := readComment content span
    if ctx.isOnComponent c then none else some c
  | _ => none

theorem commentAfter_concat (ctx : Context) (before : List Node) (n : Node) :
    ctx.commentAfter (before ++ [n]) = ctx.pendingAfter (ctx.commentAfter before) n := by
  rw [Context.commentAfter, List.reverse_append, List.reverse_singleton, List.singleton_append, List.find?_cons]
  cases n with
  | text content span =>
    rw [Node.isBlankText, Context.pendingAfter]
    cases allBlank content.toList with
    | true => rfl
    | false => rfl
  | comment content span => rfl
  | element tag stop children => rfl

mutual

theorem Node.commented_commentAfter (ctx : Context) (before : List Node) : (n : Node) →
    n.commented ctx (ctx.commentAfter before) =
      (n.positions before).map fun p => (p.tag, ctx.commentAfter p.before)
  | .text .. | .comment .. => by rw [Node.commented, Node.positions, List.map_nil]
  | .element tag _ children => by
    -- No comment is passed into an element: its children start as the top-level nodes do.
    rw [Node.commented, Node.positions, List.map_cons, ← commentedOf_commentAfter ctx [] children]
    rfl

theorem commentedOf_commentAfter (ctx : Context) (before : List Node) : (ns : List Node) →
    commentedOf ctx (ctx.commentAfter before) ns =
      (positionsOf before ns).map fun p => (p.tag, ctx.commentAfter p.before)
  | [] => by rw [commentedOf, positionsOf, List.map_nil]
  | n :: rest => by
    rw [commentedOf, positionsOf, List.map_append, n.commented_commentAfter ctx before, ← commentAfter_concat,
      commentedOf_commentAfter ctx _ rest]

end

def Context.findingsAt [Script.Reader] (ctx : Context) (p : Position) : List Finding :=
  ctx.elementFindings (ctx.commentAfter p.before) p.tag

theorem filterMap_findingsOf_eq [Script.Reader] {β : Type} {view : Finding → Option β}
    (hview : ∀ c, view (.comment c) = none)
    (nodes : List Node) : (findingsOf ctx none nodes).filterMap view =
      (positionsOf [] nodes).flatMap fun p => (ctx.findingsAt p).filterMap view := by
  have hstart : commentedOf ctx none nodes = _ := commentedOf_commentAfter ctx [] nodes
  rw [filterMap_findingsOf hview, hstart, List.flatMap_map]
  rfl

/-- What an element shows bears the comment on the element, a component the one on its import if there is none. -/
def Finding.Bears (imports : Imports) (comment : Option Comment) : Finding → Prop
  | .component x => ∃ binding, imports.get? x.name = some binding ∧ x.Bears (comment.or binding.comment)
  | .event x | .ref x => x.Bears comment
  | .slot x => x.Bears comment
  | .comment _ => False
  | .notice _ | .failure _ => True

theorem callFindings_bear (s : Script.Source) (call : Script.Node) :
    ∀ f ∈ callFindings s comment call, f.Bears ctx.imports comment := by
  unfold callFindings
  split
  · exact List.forall_mem_singleton.mpr trivial
  · exact List.forall_mem_singleton.mpr trivial
  · exact List.forall_mem_singleton.mpr (Item.bears_ofComment _ _ _ _)

theorem handlerFindings_bear [Script.Reader] (handler : String) (offset : Nat) :
    ∀ f ∈ ctx.handlerFindings comment handler offset, f.Bears ctx.imports comment := by
  unfold Context.handlerFindings
  split
  · split
    · exact List.forall_mem_singleton.mpr trivial
    · refine List.forall_mem_cons.mpr ⟨trivial, fun f hf => ?_⟩
      obtain ⟨call, -, hf⟩ := List.mem_flatMap.mp hf
      exact callFindings_bear _ call f hf
  · exact List.forall_mem_nil _

theorem eventFindings_bear [Script.Reader] (element : String) (a : Attribute) :
    ∀ f ∈ ctx.eventFindings element comment a, f.Bears ctx.imports comment := by
  unfold Context.eventFindings
  split
  · exact handlerFindings_bear _ _
  · split
    · exact List.forall_mem_nil _
    · exact handlerFindings_bear _ _
  · exact List.forall_mem_singleton.mpr (Item.bears_ofComment _ _ _ _)

theorem refFindings_bear (element : String) (a : Attribute) :
    ∀ f ∈ ctx.refFindings element comment a, f.Bears ctx.imports comment := by
  unfold Context.refFindings
  split
  · split
    · exact List.forall_mem_singleton.mpr trivial
    · exact List.forall_mem_singleton.mpr trivial
    · exact List.forall_mem_singleton.mpr (Item.bears_ofComment _ _ _ _)
  · exact List.forall_mem_singleton.mpr (Item.bears_ofComment _ _ _ _)

theorem attributeFindings_bear [Script.Reader] (element : String) (a : Attribute) :
    ∀ f ∈ ctx.attributeFindings element comment a, f.Bears ctx.imports comment := by
  unfold Context.attributeFindings
  split
  · exact List.forall_mem_nil _
  · split
    · exact eventFindings_bear element a
    · split
      · exact refFindings_bear element a
      · exact List.forall_mem_nil _

theorem componentFindings_bear (tag : StartTag) :
    ∀ f ∈ ctx.componentFindings tag comment, f.Bears ctx.imports comment := by
  unfold Context.componentFindings
  dsimp only
  split
  · next binding hbinding =>
    refine List.forall_mem_singleton.mpr ⟨binding, ?_, Item.bears_ofComment _ _ _ _⟩
    rwa [Item.name_ofComment]
  · exact List.forall_mem_nil _

theorem slotFindings_bear (tag : StartTag) :
    ∀ f ∈ ctx.slotFindings tag comment, f.Bears ctx.imports comment := by
  refine List.forall_mem_append.mpr ⟨fun f hf => ?_, List.forall_mem_singleton.mpr (Item.bears_ofComment _ _ _ _)⟩
  obtain ⟨notice, -, rfl⟩ := List.mem_map.mp hf
  exact trivial

theorem elementFindings_bear [Script.Reader] (tag : StartTag) :
    ∀ f ∈ ctx.elementFindings comment tag, f.Bears ctx.imports comment := by
  refine List.forall_mem_append.mpr ⟨List.forall_mem_append.mpr ⟨?_, fun f hf => ?_⟩, ?_⟩
  · split
    · exact componentFindings_bear tag
    · exact List.forall_mem_nil _
  · obtain ⟨a, -, hf⟩ := List.mem_flatMap.mp hf
    exact attributeFindings_bear tag.name a f hf
  · split
    · exact slotFindings_bear tag
    · exact List.forall_mem_nil _

mutual

def Node.comments : Node → List Comment
  | .text .. => []
  | .comment content span => [readComment content span]
  | .element _ _ children => commentsOf children

def commentsOf : List Node → List Comment
  | [] => []
  | n :: rest => n.comments ++ commentsOf rest

end

/-- A description with a text after it, on a line of its own; an empty text changes nothing. -/
def appendText (description : Option String) (text : String) : Option String :=
  if text = "" then description else some (description.elim text fun d => d ++ "\n" ++ text)

/-- The comment `folded` is `c` without the first keyword `component`, whose text it has at the end of its
description. -/
inductive FoldsInto (c folded : Comment) : Prop
  | mk (front back : List Keyword) (k : Keyword) (split : c.keywords = front ++ k :: back)
      (named : k.name = componentKeyword) (first : ∀ k' ∈ front, k'.name ≠ componentKeyword)
      (eq : folded = ⟨appendText c.description k.description, front ++ back, c.loc⟩)

theorem filterMap_comment?_elementFindings [Script.Reader] (tag : StartTag) :
    (ctx.elementFindings comment tag).filterMap Finding.comment? = [] := by
  rw [List.filterMap_eq_nil_iff]
  intro f hf
  have hbears := elementFindings_bear tag f hf
  cases f with
  | comment c => exact hbears.elim
  | _ => rfl

mutual

theorem Node.filterMap_comment?_findings [Script.Reader] (pending : Option Comment) : (n : Node) →
    (n.findings ctx pending).filterMap Finding.comment? = (n.comments.filter ctx.isOnComponent).map componentComment
  | .text .. => by rw [Node.findings, Node.comments, List.filterMap_nil, List.filter_nil, List.map_nil]
  | .comment content span => by
    rw [Node.findings, Node.comments]
    by_cases h : ctx.isOnComponent (readComment content span)
    · rw [if_pos h, List.filter_cons_of_pos h]
      rfl
    · rw [if_neg h, List.filter_cons_of_neg h]
      rfl
  | .element tag _ children => by
    rw [Node.findings, Node.comments, List.filterMap_append, filterMap_comment?_elementFindings, List.nil_append,
      filterMap_comment?_findingsOf none children]

theorem filterMap_comment?_findingsOf [Script.Reader] (pending : Option Comment) : (ns : List Node) →
    (findingsOf ctx pending ns).filterMap Finding.comment? =
      ((commentsOf ns).filter ctx.isOnComponent).map componentComment
  | [] => by rw [findingsOf, commentsOf, List.filterMap_nil, List.filter_nil, List.map_nil]
  | n :: rest => by
    rw [findingsOf, commentsOf, List.filterMap_append, List.filter_append, List.map_append,
      n.filterMap_comment?_findings pending, filterMap_comment?_findingsOf _ rest]

end

theorem nonempty?_ne_empty (s : String) : Comment.nonempty? s ≠ some "" := by
  unfold Comment.nonempty?
  split
  · exact nofun
  · next h => exact fun heq => h (String.isEmpty_iff.mpr (Option.some.inj heq))

theorem description_readComment (content : String) (span : Span) :
    (readComment content span).description ≠ some "" := by
  rw [readComment, Comment.ofText]
  generalize Comment.sections _ = parts
  exact nonempty?_ne_empty _

mutual

theorem Node.description_ne_empty {c : Comment} : (n : Node) → c ∈ n.comments → c.description ≠ some ""
  | .text .., hc => by
    rw [Node.comments] at hc
    exact absurd hc List.not_mem_nil
  | .comment content span, hc => by
    rw [Node.comments] at hc
    rw [List.mem_singleton.mp hc]
    exact description_readComment content span
  | .element _ _ children, hc => by
    rw [Node.comments] at hc
    exact description_ne_empty children hc

theorem description_ne_empty {c : Comment} : (ns : List Node) → c ∈ commentsOf ns → c.description ≠ some ""
  | [], hc => by
    rw [commentsOf] at hc
    exact absurd hc List.not_mem_nil
  | n :: rest, hc => by
    rw [commentsOf] at hc
    obtain hc | hc := List.mem_append.mp hc
    · exact n.description_ne_empty hc
    · exact description_ne_empty rest hc

end

theorem nonempty?_of_ne {s : String} (h : s ≠ "") : Comment.nonempty? s = some s := by
  rw [Comment.nonempty?, if_neg (by simpa using h)]

theorem nonempty?_intercalate {description : Option String} (hd : description ≠ some "") (text : String) :
    Comment.nonempty? ("\n".intercalate ((description.toList ++ [text]).filter (· ≠ ""))) =
      appendText description text := by
  cases description with
  | none =>
    by_cases ht : text = ""
    · simp [appendText, ht, Comment.nonempty?]
    · simp [appendText, ht, nonempty?_of_ne]
  | some d =>
    have hne : d ≠ "" := fun h => hd (congrArg some h)
    by_cases ht : text = ""
    · simp [appendText, ht, hne, nonempty?_of_ne]
    · simp [appendText, ht, hne, nonempty?_of_ne]

theorem foldsInto_componentComment {c : Comment} (h : c.has componentKeyword) (hd : c.description ≠ some "") :
    FoldsInto c (componentComment c) := by
  rw [← Comment.first?_isSome] at h
  obtain ⟨k, hk⟩ := Option.isSome_iff_exists.mp h
  obtain ⟨hnamed, front, back, hsplit, hfront⟩ := List.find?_eq_some_iff_append.mp hk
  replace hnamed : k.name = componentKeyword := by simpa using hnamed
  replace hfront : ∀ k' ∈ front, k'.name ≠ componentKeyword := fun k' hk' => by simpa using hfront k' hk'
  refine ⟨front, back, k, hsplit, hnamed, hfront, ?_⟩
  have hmem : k ∉ front := fun hk => hfront k hk hnamed
  have herase : c.keywords.erase k = front ++ back := by
    rw [hsplit, List.erase_append_right _ hmem, List.erase_cons_head]
  rw [componentComment, hk]
  simp only [Option.elim_some, Option.map_some, Option.toList_some]
  rw [herase, nonempty?_intercalate hd]

/-- What is found in markup: each kind of items element by element, in document order. -/
structure Candidates.Commented [Script.Reader] (c : Candidates) (ctx : Context) (nodes : List Node) : Prop where
  components : c.components = (positionsOf [] nodes).flatMap fun p => (ctx.findingsAt p).filterMap Finding.component?
  events : c.events = (positionsOf [] nodes).flatMap fun p => (ctx.findingsAt p).filterMap Finding.event?
  slots : c.slots = (positionsOf [] nodes).flatMap fun p => (ctx.findingsAt p).filterMap Finding.slot?
  refs : c.refs = (positionsOf [] nodes).flatMap fun p => (ctx.findingsAt p).filterMap Finding.ref?
  bears : ∀ p ∈ positionsOf [] nodes, ∀ f ∈ ctx.findingsAt p, f.Bears ctx.imports (ctx.commentAfter p.before)
  onComponent : ctx.dialect = .v3 →
    Option.Rel FoldsInto ((commentsOf nodes).find? (·.has componentKeyword)) c.componentComment
  notOnComponent : ctx.dialect = .v2 → c.componentComment = none

theorem commented_ofFindings [Script.Reader] (ctx : Context) (nodes : List Node) :
    (Candidates.ofFindings (findingsOf ctx none nodes)).Commented ctx nodes where
  components := filterMap_findingsOf_eq (fun _ => rfl) nodes
  events := filterMap_findingsOf_eq (fun _ => rfl) nodes
  slots := filterMap_findingsOf_eq (fun _ => rfl) nodes
  refs := filterMap_findingsOf_eq (fun _ => rfl) nodes
  bears p _ := elementFindings_bear p.tag
  onComponent hdialect := by
    have hcomments : ctx.isOnComponent = fun c => c.has componentKeyword := by
      funext c
      simp [Context.isOnComponent, hdialect]
    rw [Candidates.ofFindings, ← List.head?_filterMap, filterMap_comment?_findingsOf, hcomments, List.head?_map,
      List.head?_filter]
    cases hfound : (commentsOf nodes).find? (·.has componentKeyword) with
    | none => exact .none
    | some c =>
      have hhas := List.find?_some hfound
      have hdescription := description_ne_empty nodes (List.mem_of_find?_eq_some hfound)
      exact .some (foldsInto_componentComment hhas hdescription)
  notOnComponent hdialect := by
    have hcomments : ctx.isOnComponent = fun _ => false := by
      funext c
      simp [Context.isOnComponent, hdialect]
    rw [Candidates.ofFindings, ← List.head?_filterMap, filterMap_comment?_findingsOf, hcomments, List.filter_false]
    rfl

theorem candidates_commented [Script.Reader] (ctx : Context) (nodes : List Node) :
    (positionsOf [] nodes).map Position.tag = tagsOf nodes ∧
      (∀ p, p ∈ positionsOf [] nodes ↔ ∃ siblings, Siblings nodes siblings ∧ p.IsAmong siblings) ∧
      ∀ c, (candidates ctx nodes).1 = .ok c → c.Commented ctx nodes := by
  refine ⟨map_tag_positionsOf [] nodes, fun p => mem_positionsOf_iff, fun c hc => ?_⟩
  obtain rfl := ofFindings_of_candidates hc
  exact commented_ofFindings ctx nodes

theorem candidates_commented_nested :
    let document := "<!-- @component Shows\n@author me -->\n<!-- One -->\n<Panel><!-- Two --> <p on:click/>" ++
      "<!-- Three -->\x7bname\x7d<p on:input/></Panel>\n<Panel/><!-- @component Again --><p on:blur/>"
    let ctx : Context := ⟨.v3, [("Panel", ⟨"Panel", "./panel", ⟨0, 0⟩, some ⟨some "Imported", [], none⟩⟩)], []⟩
    ∃ nodes c, parse document.toList = .ok nodes ∧ (candidates ctx nodes).1 = .ok c ∧
      c.components.map (fun x => x.description) = [some "One", some "Imported"] ∧
      c.events.map (fun x => (x.name, x.description)) =
        [(("click" : CodeText), some "Two"), ("input", none), ("blur", none)] ∧
      c.componentComment.map (fun d => (d.description, d.keywords)) =
        some (some "Shows", [⟨"author", "me"⟩]) ∧
      c.Commented ctx nodes := by
  intro document ctx
  have hread : (parse document.toList).toOption.any fun nodes =>
      (candidates ctx nodes).1.toOption.any fun (c : Candidates) =>
        c.components.map (fun x => x.description) = [some "One", some "Imported"] ∧
        c.events.map (fun x => (x.name, x.description)) =
          [(("click" : CodeText), some "Two"), ("input", none), ("blur", none)] ∧
        c.componentComment.map (fun d => (d.description, d.keywords)) =
          some (some "Shows", [⟨"author", "me"⟩]) := by
    decide +kernel
  obtain ⟨nodes, hparse, hread⟩ := exists_ok_of_any hread
  obtain ⟨c, hc, hshown⟩ := exists_ok_of_any hread
  obtain ⟨hcomponents, hevents, hcomment⟩ := of_decide_eq_true hshown
  exact ⟨nodes, c, hparse, hc, hcomponents, hevents, hcomment, (candidates_commented ctx nodes).2.2 c hc⟩

end Markup

end ComponentDoc
