import ComponentDoc.Proofs.Script.Grammar.Statements
import ComponentDoc.Script.Parse
import ComponentDoc.Script.Source

namespace ComponentDoc.Script

open Std.Do
open Script.Parser

set_option mvcgen.warning false

section Comments

variable {script : Manuscript} {n m : Node} {ns comments : List Node}

theorem Node.IsComment.regular (h : n.IsComment) : n.Regular script := by
  have hkind := h.kind
  refine ⟨fun _ => ⟨h.field, h.children, h.covers⟩, fun _ => by simp [h.children], ?_, ?_, ?_, ?_, ?_⟩ <;>
    · intro hk
      rw [hk] at hkind
      cases hkind

theorem Node.withComments_eq (n : Node) (comments : List Node) :
    n.withComments comments = { n with children := placeComments n.children comments } := by
  cases n
  rfl

inductive Interspersed : List Node → List Node → Prop
  | nil : Interspersed [] []
  | comment {c : Node} {ms ns : List Node} : c.IsComment → Interspersed ms ns → Interspersed (c :: ms) ns
  | node {n : Node} {inside ms ns : List Node} : (∀ c ∈ inside, c.IsComment) → Interspersed ms ns →
      Interspersed (n.withComments inside :: ms) (n :: ns)

namespace Interspersed

theorem comments_append {ms : List Node} (hcomments : ∀ c ∈ comments, c.IsComment) (h : Interspersed ms ns) :
    Interspersed (comments ++ ms) ns := by
  induction comments with
  | nil => exact h
  | cons c comments ih =>
    obtain ⟨hc, hcomments⟩ := List.forall_mem_cons.mp hcomments
    exact .comment hc (ih hcomments)

variable {ms : List Node}

theorem mem (h : Interspersed ms ns) (hm : m ∈ ms) :
    m.IsComment ∨ ∃ n ∈ ns, ∃ inside, (∀ c ∈ inside, c.IsComment) ∧ m = n.withComments inside := by
  induction h with
  | nil => cases hm
  | comment hc _ ih =>
    rcases List.mem_cons.mp hm with rfl | hm
    · exact .inl hc
    · exact ih hm
  | @node n inside ms ns hin _ ih =>
    rcases List.mem_cons.mp hm with rfl | hm
    · exact .inr ⟨n, List.mem_cons_self, inside, hin, rfl⟩
    · exact (ih hm).imp_right fun ⟨n, hn, h⟩ => ⟨n, List.mem_cons_of_mem _ hn, h⟩

theorem kind_of_mem (h : Interspersed ms ns) (hm : m ∈ ms) : m.kind.isComment ∨ ∃ n ∈ ns, m.kind = n.kind := by
  rcases h.mem hm with hcomment | ⟨n, hn, inside, -, rfl⟩
  · exact .inl hcomment.kind
  · exact .inr ⟨n, hn, by rw [Node.withComments_eq]⟩

theorem exists_mem (h : Interspersed ms ns) (hn : n ∈ ns) : ∃ m ∈ ms, m.kind = n.kind := by
  induction h with
  | nil => cases hn
  | comment _ _ ih =>
    obtain ⟨m, hm, hkind⟩ := ih hn
    exact ⟨m, List.mem_cons_of_mem _ hm, hkind⟩
  | node _ _ ih =>
    rcases List.mem_cons.mp hn with rfl | hn
    · exact ⟨_, List.mem_cons_self, by rw [Node.withComments_eq]⟩
    · obtain ⟨m, hm, hkind⟩ := ih hn
      exact ⟨m, List.mem_cons_of_mem _ hm, hkind⟩

theorem find?_field {f : Field} (h : Interspersed ms ns) (hm : m ∈ ms.find? fun c => c.field = some f) :
    ∃ n ∈ ns.find? fun c => c.field = some f, ∃ inside, m = n.withComments inside := by
  induction h with
  | nil => cases hm
  | comment hc _ ih =>
    rw [List.find?_cons_of_neg (by simp [hc.field])] at hm
    exact ih hm
  | @node n inside ms ns _ _ ih =>
    by_cases hfield : n.field = some f
    · rw [List.find?_cons_of_pos (by simpa [Node.withComments_eq] using hfield)] at hm
      obtain rfl := Option.some.inj hm
      exact ⟨n, List.find?_cons_of_pos (by simpa using hfield), inside, rfl⟩
    · rw [List.find?_cons_of_neg (by simpa [Node.withComments_eq] using hfield)] at hm
      rw [List.find?_cons_of_neg (by simpa using hfield)]
      exact ih hm

theorem parts (h : Interspersed ms ns) (hns : ∀ n ∈ ns, ¬n.kind.isComment) :
    (ms.filter fun m => !m.kind.isComment).map (fun m => (m.kind, m.field)) = ns.map fun n => (n.kind, n.field) := by
  induction h with
  | nil => rfl
  | comment hc _ ih => rw [List.filter_cons_of_neg (by simp [hc.kind]), ih hns]
  | node hin _ ih =>
    obtain ⟨hn, hns⟩ := List.forall_mem_cons.mp hns
    rw [List.filter_cons_of_pos (by simpa [Node.withComments_eq] using hn), List.map_cons, List.map_cons, ih hns,
      Node.withComments_eq]

theorem call {callee arguments : Node} {types : List Node} (h : Interspersed ms (callee :: types ++ [arguments]))
    (hns : ∀ n ∈ callee :: types ++ [arguments], ¬n.kind.isComment) :
    ∃ callee' types' arguments', (ms.filter fun m => !m.kind.isComment) = callee' :: types' ++ [arguments'] ∧
      (types' = [] ↔ types = []) ∧ callee'.field = callee.field ∧ arguments'.field = arguments.field ∧
        arguments'.kind = arguments.kind := by
  have hparts := h.parts hns
  rw [List.map_append, List.map_cons] at hparts
  obtain ⟨front, back, heq, hfront, hback⟩ := List.map_eq_append_iff.mp hparts
  obtain ⟨callee', types', rfl, hcallee, htypes⟩ := List.map_eq_cons_iff.mp hfront
  obtain ⟨arguments', rfl, harguments⟩ := List.map_eq_singleton_iff.mp hback
  refine ⟨callee', types', arguments', heq, ?_, (Prod.mk.inj hcallee).2, (Prod.mk.inj harguments).2,
    (Prod.mk.inj harguments).1⟩
  rw [← List.map_eq_nil_iff, htypes, List.map_eq_nil_iff]

end Interspersed

theorem interspersed_placeComments (hcomments : ∀ c ∈ comments, c.IsComment) :
    Interspersed (placeComments ns comments) ns := by
  induction ns generalizing comments with
  | nil =>
    rw [placeComments, ← comments.append_nil]
    exact Interspersed.nil.comments_append hcomments
  | cons n ns ih =>
    rw [placeComments]
    have hafter (k : Nat) : ∀ c ∈ comments.drop k, c.IsComment := fun c hc => hcomments c (List.mem_of_mem_drop hc)
    refine .comments_append (fun c hc => hcomments c ((List.takeWhile_prefix _).subset hc)) (.node ?_ (ih ?_))
    · exact fun c hc => hafter _ c ((List.takeWhile_prefix _).subset hc)
    · exact fun c hc => hafter _ c (List.mem_of_mem_drop hc)

theorem regular_withComments (hn : n.Clean script) (hcomments : ∀ c ∈ comments, c.IsComment) :
    (n.withComments comments).Regular script := by
  obtain ⟨⟨hregular, hnot⟩, hchildren⟩ := clean_iff.mp hn
  have hnone : ∀ c ∈ n.children, ¬c.kind.isComment := fun c hc => (clean_iff.mp (hchildren c hc)).1.2
  have hplaced : Interspersed (placeComments n.children comments) n.children := interspersed_placeComments hcomments
  have hleaf (h : ∀ c ∈ n.children, c.kind.isComment) : ∀ m ∈ placeComments n.children comments, m.kind.isComment := by
    intro m hm
    rcases hplaced.kind_of_mem hm with hcomment | ⟨c, hc, heq⟩
    · exact hcomment
    · exact heq ▸ h c hc
  rw [Node.withComments_eq]
  exact
    { comment := fun h => absurd h hnot
      token := fun h => hleaf (hregular.token h)
      string := fun h => ⟨hleaf (hregular.string h).1, (hregular.string h).2⟩
      template := fun h => by
        obtain ⟨hsubstitutions, body, hreads, hcloses⟩ := hregular.template h
        refine ⟨fun m hm => ?_, body, hreads, fun hplain => hcloses fun c hc hsubstitution => ?_⟩
        · rcases hplaced.kind_of_mem hm with hcomment | ⟨c, hc, heq⟩
          · exact .inr hcomment
          · exact heq ▸ hsubstitutions c hc
        · obtain ⟨m, hm, heq⟩ := hplaced.exists_mem hc
          exact hplain m hm (heq.trans hsubstitution)
      call := fun h => by
        obtain ⟨callee, types, arguments, hfilter, htypes, hcallee, harguments, hkinds⟩ := hregular.call h
        rw [List.filter_eq_self.mpr fun c hc => by simp [hnone c hc]] at hfilter
        rw [hfilter] at hplaced hnone ⊢
        obtain ⟨callee', types', arguments', hfilter', hnil, hfield, hfield', hkind⟩ := hplaced.call hnone
        exact ⟨callee', types', arguments', hfilter', fun hne => htypes (mt hnil.mpr hne), hfield.trans hcallee,
          hfield'.trans harguments, by rwa [hkind]⟩
      number := hregular.number
      constructed := fun h m hm => by
        obtain ⟨c, hc, inside, rfl⟩ := hplaced.find?_field hm
        rw [Node.withComments_eq]
        exact hregular.constructed h c hc }

theorem Node.IsComment.regular_below (h : n.IsComment) : ∀ m ∈ n.preorder, m.Regular script := by
  rw [n.preorder_eq, h.children]
  exact List.forall_mem_singleton.mpr h.regular

theorem regular_below_withComments (hn : n.Clean script) (hcomments : ∀ c ∈ comments, c.IsComment) :
    ∀ m ∈ (n.withComments comments).preorder, m.Regular script := by
  induction n using Node.treeInduction generalizing comments with
  | node n ih =>
    rw [Node.preorder_eq, List.forall_mem_cons, List.forall_mem_flatMap]
    refine ⟨regular_withComments hn hcomments, ?_⟩
    rw [Node.withComments_eq]
    intro m hm
    rcases (interspersed_placeComments hcomments).mem hm with hcomment | ⟨c, hc, inside, hinside, rfl⟩
    · exact hcomment.regular_below
    · exact ih c hc ((clean_iff.mp hn).2 c hc) hinside

theorem regular_below_placeComments (hns : ∀ n ∈ ns, n.Clean script) (hcomments : ∀ c ∈ comments, c.IsComment) :
    ∀ n ∈ placeComments ns comments, ∀ m ∈ n.preorder, m.Regular script := by
  intro n hn
  rcases (interspersed_placeComments hcomments).mem hn with hcomment | ⟨c, hc, inside, hinside, rfl⟩
  · exact hcomment.regular_below
  · exact regular_below_withComments (hns c hc) hinside

end Comments

theorem sound_parseGoal (script : Manuscript) (limit depth : Nat) :
    Grammar.Sound ⟨script.typed, limit, parseGoal script.typed limit depth⟩ script := by
  induction depth with
  | zero =>
    refine ⟨rfl, fun low goal _ => ?_, fun low => ?_, nofun⟩
    · exact triple_iff.mpr fun _ _ _ _ h => by cases h
    · exact triple_iff.mpr fun _ _ _ _ h => by cases h
  | succ depth ih =>
    refine ⟨rfl, fun low goal helement => ?_, fun low => Grammar.elementRule_spec ih (v := ⟨script, low⟩),
      Grammar.gives_elementRule⟩
    cases goal with
    | statement => exact Grammar.makes_statementRule ih (v := ⟨script, low⟩)
    | block => exact Grammar.makes_blockRule ih (v := ⟨script, low⟩)
    | sequence => exact Grammar.makes_sequenceRule ih (v := ⟨script, low⟩)
    | assignment => exact Grammar.makes_assignmentRule ih (v := ⟨script, low⟩)
    | operation => exact Grammar.makes_operationRule ih (v := ⟨script, low⟩)
    | unary => exact Grammar.makes_unaryRule ih (v := ⟨script, low⟩)
    | binding => exact Grammar.makes_bindingRule ih (v := ⟨script, low⟩)
    | type => exact Grammar.makes_typeRule ih (v := ⟨script, low⟩)
    | element => exact absurd rfl helement

theorem makes_programStatements {v : View} {limit : Nat} : Makes v (programStatements v.script.typed limit) := by
  have hstatement := (sound_parseGoal v.script limit (32 * limit)).parse v.low .statement nofun
  mvcgen [programStatements, hstatement]
  all_goals simp_all

theorem interpreterLine_prefix (script : List Char) : interpreterLine script <+: script := by
  unfold interpreterLine
  split
  · exact (List.cons_prefix_cons.mpr ⟨rfl, List.cons_prefix_cons.mpr ⟨rfl, List.takeWhile_prefix _⟩⟩)
  · exact List.nil_prefix

theorem standsIn_start (script : Manuscript) : (Cursor.start script.text).StandsIn ⟨script, 0⟩ := by
  have hplace : (⟨script, 0⟩ : View).At script.text 0 [] := ⟨⟨[], rfl, rfl⟩, Nat.le_refl _, List.forall_mem_nil _⟩
  unfold Cursor.start
  dsimp only
  split
  · exact ⟨hplace.gapFrom trivial, .inr rfl⟩
  · exact ⟨hplace.gapFrom trivial, .inl rfl⟩

theorem standsIn_begun (script : Manuscript) :
    (if (interpreterLine script.text).isEmpty then Cursor.start script.text
      else Cursor.after false [] (script.text.drop (interpreterLine script.text).length)
        (byteLength (interpreterLine script.text))).StandsIn ⟨script, 0⟩ := by
  split
  · exact standsIn_start script
  · obtain ⟨rest, hrest⟩ := interpreterLine_prefix script.text
    have hplace : (⟨script, 0⟩ : View).At (script.text.drop (interpreterLine script.text).length)
        (byteLength (interpreterLine script.text)) [] :=
      ⟨⟨_, (List.prefix_iff_eq_append.mp ⟨rest, hrest⟩).symm, rfl⟩, Nat.zero_le _, List.forall_mem_nil _⟩
    exact standsIn_after false hplace

theorem regular_of_parseProgram {script : Manuscript} {root : Node}
    (h : parseProgram script.typed script.text = some root) : ∀ m ∈ root.preorder, m.Regular script := by
  unfold parseProgram at h
  simp only [Option.bind_eq_bind, Option.bind_eq_some_iff] at h
  obtain ⟨⟨items, c⟩, hitems, h⟩ := h
  obtain ⟨hc, hclean⟩ := triple_iff.mp makes_programStatements _ items c (standsIn_begun script) hitems
  have hcomments : ∀ n ∈ c.comments.reverse, n.IsComment := fun n hn => hc.place.comments n (List.mem_reverse.mp hn)
  have hfirst : ∀ n ∈ (if (interpreterLine script.text).isEmpty then []
      else [⟨.hashBangLine, none, ⟨0, byteLength (interpreterLine script.text)⟩, []⟩] : List Node), n.Clean script := by
    split <;> simp
  dsimp only at h
  generalize (if (interpreterLine script.text).isEmpty then [] else _ : List Node) = first at h hfirst
  split at h
  · cases h
  · obtain rfl := Option.some.inj h
    rw [Node.preorder_eq, List.forall_mem_cons, List.forall_mem_flatMap, List.forall_mem_append]
    refine ⟨⟨nofun, nofun, nofun, nofun, nofun, nofun, nofun⟩, fun n hn m hm => (hfirst n hn m hm).1, ?_⟩
    exact regular_below_placeComments (allClean_list.mp hclean) hcomments

section Reading

variable {text : List Char} {offset : Int} {lang : Option String} {s : Source}

theorem regular_of_parse (h : parse text offset lang = .ok s) :
    ∀ m ∈ s.root.preorder, m.Regular ⟨s.text, isTyped lang⟩ := by
  unfold parse Reader.read instReader at h
  dsimp only at h
  cases hroot : parseProgram (isTyped lang) text with
  | none =>
    rw [hroot] at h
    cases h
  | some root =>
    rw [hroot] at h
    obtain rfl := Except.ok.inj h
    exact @regular_of_parseProgram ⟨text, isTyped lang⟩ root hroot

theorem isNumber_of_parse (h : parse text offset lang = .ok s) :
    ∀ m ∈ s.root.preorder, m.kind = .number → IsNumber (s.chars m) := by
  intro m hm hkind
  obtain ⟨literal, hreads, hnumber⟩ := (regular_of_parse h m hm).number hkind
  rwa [hreads.chars (Source.knowsWidth_of_parse h).1]

theorem constructed_of_parse (h : parse text offset lang = .ok s) :
    ∀ m ∈ s.root.preorder, m.kind = .newExpression → ∀ c ∈ m.child? .constructed,
      c.kind = .identifier ∨ c.kind = .memberExpression → s.chars c ≠ [] := by
  intro m hm hkind c hc hname
  obtain ⟨piece, hne, hreads⟩ := (regular_of_parse h m hm).constructed hkind c hc hname
  rwa [hreads.chars (Source.knowsWidth_of_parse h).1]

theorem Node.Regular.isCallFree_of_comment {script : Manuscript} {n : Node} (h : n.Regular script)
    (hkind : n.kind.isComment) : n.IsCallFree := by
  rw [Node.IsCallFree, n.preorder_eq, (h.comment hkind).2.1]
  refine List.forall_mem_singleton.mpr fun hcall => ?_
  rw [hcall] at hkind
  cases hkind

theorem Node.Regular.call_children {script : Manuscript} {n callee arguments : Node} (h : n.Regular script)
    (huntyped : script.typed = false) (hchildren : ∀ c ∈ n.children, c.Regular script)
    (hkind : n.kind = .callExpression)
    (hcallee : n.child? .callee = some callee) (harguments : n.child? .arguments = some arguments) :
    (arguments.kind = .arguments ∨ arguments.kind = .templateString) ∧
      ∀ c ∈ n.children, c.kind.isComment ∨ c = callee ∨ c = arguments := by
  obtain ⟨callee', types, arguments', hfilter, htypes, hfield, hfield', hkinds⟩ := h.call hkind
  obtain rfl : types = [] := by
    by_contra hne
    exact Bool.false_ne_true (huntyped.symm.trans (htypes hne))
  have hparts {c : Node} (hc : c ∈ n.children) : c.kind.isComment ∨ c = callee' ∨ c = arguments' := by
    by_cases hcomment : c.kind.isComment
    · exact .inl hcomment
    · have hmem : c ∈ n.children.filter fun c => !c.kind.isComment := by simp [hc, hcomment]
      rw [hfilter, List.cons_append, List.nil_append, List.mem_cons, List.mem_singleton] at hmem
      exact .inr hmem
  have hpart {c : Node} {f : Field} (hc : n.child? f = some c) : c = callee' ∨ c = arguments' := by
    have hmem := Node.mem_of_child? hc
    refine (hparts hmem).resolve_left fun hcomment => ?_
    have hf : c.field = some f := by simpa using List.find?_some hc
    simp [((hchildren c hmem).comment hcomment).1] at hf
  have hcallee' : callee = callee' := by
    refine (hpart hcallee).resolve_right fun h => ?_
    have hf : callee.field = some .callee := by simpa using List.find?_some hcallee
    simp [h, hfield'] at hf
  have harguments' : arguments = arguments' := by
    refine (hpart harguments).resolve_left fun h => ?_
    have hf : arguments.field = some .arguments := by simpa using List.find?_some harguments
    simp [h, hfield] at hf
  rw [hcallee', harguments']
  exact ⟨hkinds, fun c hc => hparts hc⟩

theorem faithful_of_parse (h : parse text offset lang = .ok s) (huntyped : isTyped lang = false)
    (hnested : s.root.Nested) : s.Faithful := by
  have hregular := regular_of_parse h
  have hfree {n : Node} (hn : n ∈ s.root.preorder) (hkind : n.kind ≠ .callExpression)
      (hchildren : ∀ c ∈ n.children, c.kind.isComment) : n.IsCallFree := by
    rw [Node.IsCallFree, n.preorder_eq, List.forall_mem_cons, List.forall_mem_flatMap]
    exact ⟨hkind, fun c hc => (hregular c (Node.child_mem_preorder hn hc)).isCallFree_of_comment (hchildren c hc)⟩
  refine ⟨hnested, fun n hn hkind => ?_, fun n hn hkind => ?_, fun n hn hkind hplain => ?_, fun n hn hkind => ?_⟩
  · refine hfree hn (fun hcall => ?_) ((hregular n hn).token hkind)
    rw [hcall] at hkind
    cases hkind
  · obtain ⟨hchildren, hspelled⟩ := (hregular n hn).string hkind
    exact ⟨hfree hn (by simp [hkind]) hchildren, hspelled⟩
  · obtain ⟨hchildren, body, hreads, hcloses⟩ := (hregular n hn).template hkind
    exact ⟨hfree hn (by simp [hkind]) fun c hc => (hchildren c hc).resolve_left (hplain c hc), _, body, hreads, rfl,
      hcloses hplain⟩
  · intro callee hcallee arguments harguments
    have hin : ∀ c ∈ n.children, c.Regular ⟨s.text, isTyped lang⟩ := fun c hc =>
      hregular c (Node.child_mem_preorder hn hc)
    obtain ⟨hkinds, hparts⟩ := (hregular n hn).call_children huntyped hin hkind hcallee harguments
    refine ⟨?_, fun c hc => ?_⟩
    · rcases hkinds with hk | hk <;> simp [hk]
    · rcases hparts c hc with hcomment | rfl | rfl
      · exact .inr (.inr ((hin c hc).isCallFree_of_comment hcomment))
      · exact .inl rfl
      · exact .inr (.inl rfl)

end Reading

end ComponentDoc.Script
