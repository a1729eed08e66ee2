import ComponentDoc.Proofs.Script.Numerals
import ComponentDoc.Proofs.Script.Offsets
import ComponentDoc.Proofs.Script.Tree
import ComponentDoc.Proofs.Span
import ComponentDoc.Script.Entry
import Mathlib.Data.List.GetD

/-!
What the trees of scripts have in common: quoted nodes have their quotes, strings and templates without
substitutions have nothing but comments below them, a call consists of what is called and its arguments, and the
name of what constructs an object is spelled out. Main statement: in such a tree the strings that calls get stand in
the order of the calls.
-/

namespace ComponentDoc.Script

def Kind.isComment (k : Kind) : Bool := k = .comment || k = .htmlComment

def ReadsAt (text : List Char) (span : Span) (piece : List Char) : Prop :=
  ∃ before after, text = before ++ piece ++ after ∧ span = ⟨byteLength before, byteLength (before ++ piece)⟩

def Node.Reads (n : Node) (text piece : List Char) : Prop := ReadsAt text n.span piece

/-- The first quote after `body` that is not escaped is the last character; before it is no substitution. -/
def Closes (quote : Char) (body : List Char) : Prop :=
  quotedRest quote .plain (body ++ [quote]) = some (.quote, [])

def IsString (literal body : List Char) : Prop :=
  ∃ quote, (quote = '"' ∨ quote = '\'') ∧ literal = quote :: body ++ [quote] ∧ (Closes quote body ∨ quote ∉ body)

def IsPlainTemplate (literal body : List Char) : Prop := literal = '`' :: body ++ ['`'] ∧ Closes '`' body

structure Manuscript where
  text : List Char
  typed : Bool

/-- If the node is a name or a member, the script spells it out. -/
def Node.IsSpelled (n : Node) (text : List Char) : Prop :=
  n.kind = .identifier ∨ n.kind = .memberExpression → ∃ piece, piece ≠ [] ∧ n.Reads text piece

structure Node.Regular (n : Node) (script : Manuscript) : Prop where
  comment : n.kind.isComment → n.field = none ∧ n.children = [] ∧ n.span.start < n.span.stop
  token : n.kind.isToken → ∀ c ∈ n.children, c.kind.isComment
  string : n.kind = .string → (∀ c ∈ n.children, c.kind.isComment) ∧
    ∃ literal body, n.Reads script.text literal ∧ IsString literal body
  template : n.kind = .templateString → (∀ c ∈ n.children, c.kind = .templateSubstitution ∨ c.kind.isComment) ∧
    ∃ body, n.Reads script.text ('`' :: body ++ ['`']) ∧
      ((∀ c ∈ n.children, c.kind ≠ .templateSubstitution) → Closes '`' body)
  call : n.kind = .callExpression → ∃ callee types arguments,
    n.children.filter (fun c => !c.kind.isComment) = callee :: types ++ [arguments] ∧ (types ≠ [] → script.typed) ∧
      callee.field = some .callee ∧ arguments.field = some .arguments ∧
        (arguments.kind = .arguments ∨ arguments.kind = .templateString)
  number : n.kind = .number → ∃ literal, n.Reads script.text literal ∧ IsNumber literal
  constructed : n.kind = .newExpression → ∀ c ∈ n.child? .constructed, c.IsSpelled script.text

/-- At and below the node children stand one after another inside their parents. -/
def Node.Nested (n : Node) : Prop :=
  ∀ m ∈ n.preorder, Span.Ascending (m.children.map (·.span)) ∧ ∀ c ∈ m.children, c.span.Within m.span

instance (n : Node) : Decidable n.Nested := inferInstanceAs (Decidable (∀ m ∈ _, _))

theorem Node.Nested.within {root n m : Node} (h : root.Nested) (hn : n ∈ root.preorder) (hm : m ∈ n.preorder) :
    m.span.Within n.span := by
  induction n using Node.treeInduction with
  | node n ih =>
    rw [n.preorder_eq, List.mem_cons, List.mem_flatMap] at hm
    rcases hm with rfl | ⟨c, hc, hm⟩
    · exact ⟨Nat.le_refl _, Nat.le_refl _⟩
    · obtain ⟨hstart, hstop⟩ := ih c hc (Node.child_mem_preorder hn hc) hm
      obtain ⟨hstart', hstop'⟩ := (h n hn).2 c hc
      exact ⟨Nat.le_trans hstart' hstart, Nat.le_trans hstop hstop'⟩

theorem Node.Nested.apart {root n : Node} (h : root.Nested) (hn : n ∈ root.preorder) :
    n.children.Pairwise fun c d => ∀ m ∈ d.preorder, c.span.stop ≤ m.span.start := by
  apply (List.pairwise_map.mp (h n hn).1.apart).imp_of_mem
  intro c d _ hd hcd m hm
  exact Nat.le_trans hcd (h.within (child_mem_preorder hn hd) hm).1

def Node.IsCallFree (n : Node) : Prop := ∀ m ∈ n.preorder, m.kind ≠ .callExpression

/-- The tree shows the script as it is written: nodes lie inside each other, strings have their quotes, and a call is
what is called with its arguments. -/
structure Source.Faithful (s : Source) : Prop where
  nested : s.root.Nested
  token : ∀ n ∈ s.root.preorder, n.kind.isToken → n.IsCallFree
  string : ∀ n ∈ s.root.preorder, n.kind = .string →
    n.IsCallFree ∧ ∃ literal body, n.Reads s.text literal ∧ IsString literal body
  template : ∀ n ∈ s.root.preorder, n.kind = .templateString → (∀ c ∈ n.children, c.kind ≠ .templateSubstitution) →
    n.IsCallFree ∧ ∃ literal body, n.Reads s.text literal ∧ IsPlainTemplate literal body
  call : ∀ n ∈ s.root.preorder, n.kind = .callExpression →
    ∀ callee ∈ n.child? .callee, ∀ arguments ∈ n.child? .arguments, arguments.kind ≠ .callExpression ∧
      ∀ c ∈ n.children, c = callee ∨ c = arguments ∨ c.IsCallFree

section Characters

variable {s : Source} {before : List Char} {n : Nat}

theorem le_of_mem_charTable {first i : Nat} {text : List Char} (h : i ∈ charTable first text) : first ≤ i := by
  induction text generalizing first with
  | nil => exact Nat.le_of_eq (List.mem_singleton.mp h).symm
  | cons c text ih =>
    rcases List.mem_append.mp h with h | h
    · exact Nat.le_of_eq (List.eq_of_mem_replicate h).symm
    · exact Nat.le_of_succ_le (ih h)

theorem pairwise_charTable (first : Nat) (text : List Char) : (charTable first text).Pairwise (· ≤ ·) := by
  induction text generalizing first with
  | nil => exact List.pairwise_singleton _ _
  | cons c text ih =>
    refine List.pairwise_append.mpr ⟨List.pairwise_replicate.mpr (.inr (Nat.le_refl _)), ih _, fun i hi j hj => ?_⟩
    rw [List.eq_of_mem_replicate hi]
    exact Nat.le_of_succ_le (le_of_mem_charTable hj)

theorem charTable_getElem {text : List Char} (h : before <+: text) :
    ∃ hlt : byteLength before < (charTable 0 text).length, (charTable 0 text)[byteLength before] = before.length := by
  obtain ⟨hlt, hget⟩ := List.getElem?_eq_some_iff.mp (charTable_boundary 0 h)
  exact ⟨hlt, hget.trans (Nat.zero_add _)⟩

theorem Source.charAt_le (h : s.KnowsWidth) (hb : before <+: s.text) (hn : n ≤ byteLength before) :
    s.charAt n ≤ before.length := by
  obtain ⟨hlt, hget⟩ := charTable_getElem hb
  have hin : n ≤ byteLength s.text := by
    rw [length_charTable] at hlt
    omega
  obtain ⟨hlt', hget'⟩ := List.getElem?_eq_some_iff.mp (charAt_eq_charTable h hin)
  rw [← hget, ← hget']
  exact Span.getElem_le_getElem (pairwise_charTable 0 s.text) hn hlt

theorem Source.le_charAt (h : s.KnowsWidth) (hb : before <+: s.text) (hn : byteLength before ≤ n) :
    before.length ≤ s.charAt n := by
  by_cases hin : n ≤ byteLength s.text
  · obtain ⟨hlt, hget⟩ := charTable_getElem hb
    obtain ⟨hlt', hget'⟩ := List.getElem?_eq_some_iff.mp (charAt_eq_charTable h hin)
    rw [← hget, ← hget']
    exact Span.getElem_le_getElem (pairwise_charTable 0 s.text) hn hlt'
  · unfold charAt
    split
    · rw [List.getD_eq_default _ _ (by rw [length_charTable]; omega)]
      exact hb.length_le
    · exact Nat.le_trans (length_le_byteLength before) hn

theorem mem_chars_of_within (h : s.KnowsWidth) {f m : Node} {piece : List Char} (hf : f.Reads s.text piece)
    (hin : f.span.Within m.span) {c : Char} (hc : c ∈ piece) : c ∈ s.chars m := by
  obtain ⟨before, after, htext, hspan⟩ := hf
  obtain ⟨hstart, hstop⟩ := hin
  rw [hspan] at hstart hstop
  have hlow := Source.charAt_le h ⟨piece ++ after, by rw [htext, List.append_assoc]⟩ hstart
  have hhigh := Source.le_charAt h ⟨after, htext.symm⟩ hstop
  obtain ⟨i, hi, rfl⟩ := List.mem_iff_getElem.mp hc
  rw [List.length_append] at hhigh
  refine List.mem_of_getElem? (i := before.length + i - s.charAt m.span.start) ?_
  rw [Source.chars, Source.slice, Text.slice, List.getElem?_take_of_lt (by omega), List.getElem?_drop,
    Nat.add_sub_cancel' (by omega), htext, List.append_assoc, List.getElem?_append_right (Nat.le_add_right _ _),
    Nat.add_sub_cancel_left, List.getElem?_append_left hi, List.getElem?_eq_getElem hi]

end Characters

section Strings

variable {s : Source} {n : Node}

theorem stringValue?_eq_some {name : CodeText} (h : stringValue? s n = .ok (some name)) :
    (n.kind = .string ∨ n.kind = .templateString ∧ ∀ c ∈ n.children, c.kind ≠ .templateSubstitution) ∧
      unescape (inner (s.chars n)) = .ok name := by
  have hmap {r : Except LiteralError CodeText} (hr : r.map some = .ok (some name)) : r = .ok name := by
    cases r with
    | error e => cases hr
    | ok a =>
      cases hr
      rfl
  unfold stringValue? at h
  split at h
  · next hkind => exact ⟨.inl hkind, hmap h⟩
  · split at h
    · next hkind =>
      split at h
      · cases h
      · next hnone => exact ⟨.inr ⟨hkind, by simpa using hnone⟩, hmap h⟩
    · cases h

theorem Node.Reads.chars (h : s.KnowsWidth) {piece : List Char} (hn : n.Reads s.text piece) : s.chars n = piece := by
  obtain ⟨before, after, htext, hspan⟩ := hn
  rw [Source.chars, Source.slice, hspan, Source.charAt_boundary h ⟨piece ++ after, by rw [htext, List.append_assoc]⟩,
    Source.charAt_boundary h ⟨after, htext.symm⟩, Text.slice, htext, List.length_append, Nat.add_sub_cancel_left,
    List.append_assoc, List.drop_left, List.take_left]

theorem Source.Faithful.literal (h : s.Faithful) (hwidth : s.KnowsWidth) (hn : n ∈ s.root.preorder) {name : CodeText}
    (hvalue : stringValue? s n = .ok (some name)) : n.IsCallFree ∧ ∃ literal body, n.Reads s.text literal ∧
      (IsString literal body ∨ IsPlainTemplate literal body) ∧ unescape body = .ok name := by
  obtain ⟨hkind, hunescape⟩ := stringValue?_eq_some hvalue
  have hinner (quote : Char) (body : List Char) : inner (quote :: body ++ [quote]) = body := by
    rw [inner, List.cons_append, List.drop_one, List.tail_cons, List.dropLast_concat]
  rcases hkind with hkind | ⟨hkind, hplain⟩
  · obtain ⟨hfree, literal, body, hreads, hstring⟩ := h.string n hn hkind
    refine ⟨hfree, literal, body, hreads, .inl hstring, ?_⟩
    obtain ⟨quote, -, rfl, -⟩ := hstring
    rwa [hreads.chars hwidth, hinner] at hunescape
  · obtain ⟨hfree, literal, body, hreads, htemplate⟩ := h.template n hn hkind hplain
    refine ⟨hfree, literal, body, hreads, .inr htemplate, ?_⟩
    rwa [hreads.chars hwidth, htemplate.1, hinner] at hunescape

theorem exists_quote {literal body : List Char} (h : IsString literal body ∨ IsPlainTemplate literal body) :
    ∃ quote, quote ∈ ['"', '\'', '`'] ∧ literal = quote :: body ++ [quote] := by
  rcases h with ⟨quote, hquote, rfl, -⟩ | ⟨rfl, -⟩
  · exact ⟨quote, by rcases hquote with rfl | rfl <;> simp, rfl⟩
  · exact ⟨'`', by simp, rfl⟩

end Strings

section Calls

variable {s : Source} {isCalled : Node → Bool} {n f : Node}

def Source.givenString? (s : Source) (isCalled : Node → Bool) (n : Node) : Option Node :=
  if n.kind = .callExpression && (n.child? .callee).any isCalled then
    match s.stringArgument? n with
    | .ok (some (_, f)) => some f
    | _ => none
  else none

def Source.givenStrings (s : Source) (isCalled : Node → Bool) (n : Node) : List Node :=
  n.preorder.filterMap (s.givenString? isCalled)

theorem givenStrings_eq (n : Node) : s.givenStrings isCalled n =
    (s.givenString? isCalled n).toList ++ n.children.flatMap (s.givenStrings isCalled) := by
  rw [Source.givenStrings, n.preorder_eq, List.filterMap_cons, List.filterMap_flatMap]
  cases s.givenString? isCalled n <;> rfl

theorem stringArgument?_eq_some {call : Node} {name : CodeText}
    (h : s.stringArgument? call = .ok (some (name, f))) :
    ∃ arguments, call.child? .arguments = some arguments ∧ arguments.named.head? = some f ∧
      stringValue? s f = .ok (some name) := by
  unfold Source.stringArgument? at h
  split at h
  · next g hg =>
    obtain ⟨arguments, harguments, hhead⟩ := Option.bind_eq_some_iff.mp hg
    cases hvalue : stringValue? s g with
    | error e =>
      rw [hvalue] at h
      cases h
    | ok value =>
      rw [hvalue] at h
      cases value with
      | none => cases h
      | some value =>
        cases h
        exact ⟨arguments, harguments, hhead, hvalue⟩
  · cases h

theorem mem_preorder_of_stringArgument? {call : Node} {name : CodeText}
    (h : s.stringArgument? call = .ok (some (name, f))) : f ∈ call.preorder ∧ stringValue? s f = .ok (some name) := by
  obtain ⟨arguments, harguments, hhead, hvalue⟩ := stringArgument?_eq_some h
  have hmem := Node.child_mem_preorder call.self_mem_preorder (Node.mem_of_child? harguments)
  exact ⟨Node.child_mem_preorder hmem (Node.mem_of_mem_named (List.mem_of_mem_head? hhead)), hvalue⟩

theorem givenString?_eq_some (h : s.givenString? isCalled n = some f) :
    n.kind = .callExpression ∧ (∃ callee, n.child? .callee = some callee ∧ isCalled callee) ∧
      ∃ name, s.stringArgument? n = .ok (some (name, f)) := by
  unfold Source.givenString? at h
  split at h
  · next hcall =>
    obtain ⟨hkind, hcallee⟩ := Bool.and_eq_true_iff.mp hcall
    split at h
    · next name g hargument =>
      obtain rfl := Option.some.inj h
      exact ⟨of_decide_eq_true hkind, (Option.any_eq_true _ _).mp hcallee, name, hargument⟩
    · cases h
  · cases h

theorem givenStrings_of_isCallFree (h : n.IsCallFree) : s.givenStrings isCalled n = [] := by
  refine List.filterMap_eq_nil_iff.mpr fun m hm => if_neg fun hcall => h m hm ?_
  exact of_decide_eq_true (Bool.and_eq_true_iff.mp hcall).1

section Ordered

variable (hwidth : s.KnowsWidth) (hfaithful : s.Faithful)
  (hcalled : ∀ m, isCalled m → ∀ quote ∈ ['"', '\'', '`'], quote ∉ s.chars m)

theorem mem_preorder_of_mem_givenStrings (h : f ∈ s.givenStrings isCalled n) :
    f ∈ n.preorder ∧ ∃ name, stringValue? s f = .ok (some name) := by
  obtain ⟨m, hm, hf⟩ := List.mem_filterMap.mp h
  obtain ⟨-, -, name, hargument⟩ := givenString?_eq_some hf
  obtain ⟨hmem, hvalue⟩ := mem_preorder_of_stringArgument? hargument
  exact ⟨Node.mem_preorder_trans hm hmem, name, hvalue⟩

include hwidth hfaithful hcalled

theorem givenStrings_of_called (hn : n ∈ s.root.preorder) (h : isCalled n) : s.givenStrings isCalled n = [] := by
  refine List.eq_nil_iff_forall_not_mem.mpr fun f hf => ?_
  obtain ⟨hmem, name, hvalue⟩ := mem_preorder_of_mem_givenStrings hf
  obtain ⟨-, literal, body, hreads, hliteral, -⟩ := hfaithful.literal hwidth (Node.mem_preorder_trans hn hmem) hvalue
  obtain ⟨quote, hquote, rfl⟩ := exists_quote hliteral
  have hin := hfaithful.nested.within hn hmem
  exact hcalled n h quote hquote (mem_chars_of_within hwidth hreads hin List.mem_cons_self)

theorem givenString?_first (hn : n ∈ s.root.preorder) (h : s.givenString? isCalled n = some f) :
    ∀ c ∈ n.children, ∀ g ∈ s.givenStrings isCalled c, f.span.stop ≤ g.span.start := by
  obtain ⟨hkind, ⟨callee, hcallee, hcalls⟩, name, hargument⟩ := givenString?_eq_some h
  obtain ⟨arguments, harguments, hhead, hvalue⟩ := stringArgument?_eq_some hargument
  obtain ⟨hnot, hparts⟩ := hfaithful.call n hn hkind callee hcallee arguments harguments
  have ha := Node.child_mem_preorder hn (Node.mem_of_child? harguments)
  intro c hc g hg
  rcases hparts c hc with rfl | rfl | hfree
  · rw [givenStrings_of_called hwidth hfaithful hcalled (Node.child_mem_preorder hn hc) hcalls] at hg
    exact absurd hg List.not_mem_nil
  · -- The first argument is the first child that has a name; what stands before it are tokens.
    have hown : s.givenString? isCalled c = none := if_neg fun h => hnot (by simpa using (Bool.and_eq_true_iff.mp h).1)
    rw [givenStrings_eq, hown, Option.toList_none, List.nil_append, List.mem_flatMap] at hg
    obtain ⟨d, hd, hg⟩ := hg
    rw [Node.named, List.head?_filter, List.find?_eq_some_iff_append] at hhead
    obtain ⟨-, front, back, hchildren, hfront⟩ := hhead
    have hmem : d ∈ s.root.preorder := Node.child_mem_preorder ha hd
    rw [hchildren, List.mem_append, List.mem_cons] at hd
    rcases hd with hd | rfl | hd
    · have htoken : d.kind.isToken := by simpa [Kind.isNamed] using hfront d hd
      rw [givenStrings_of_isCallFree (hfaithful.token d hmem htoken)] at hg
      exact absurd hg List.not_mem_nil
    · rw [givenStrings_of_isCallFree (hfaithful.literal hwidth hmem hvalue).1] at hg
      exact absurd hg List.not_mem_nil
    · have hapart := hfaithful.nested.apart ha
      rw [hchildren, List.pairwise_append, List.pairwise_cons] at hapart
      exact hapart.2.1.1 d hd g (mem_preorder_of_mem_givenStrings hg).1
  · rw [givenStrings_of_isCallFree hfree] at hg
    exact absurd hg List.not_mem_nil

theorem givenStrings_apart (hn : n ∈ s.root.preorder) :
    (s.givenStrings isCalled n).Pairwise fun f g => f.span.stop ≤ g.span.start := by
  induction n using Node.treeInduction with
  | node n ih =>
    have hin {c : Node} (hc : c ∈ n.children) := Node.child_mem_preorder hn hc
    have hchildren : (n.children.flatMap (s.givenStrings isCalled)).Pairwise
        fun f g => f.span.stop ≤ g.span.start := by
      refine List.pairwise_flatMap.mpr ⟨fun c hc => ih c hc (hin hc), ?_⟩
      refine (hfaithful.nested.apart hn).imp_of_mem fun hc hd hcd f hf g hg => ?_
      have hfin := hfaithful.nested.within (hin hc) (mem_preorder_of_mem_givenStrings hf).1
      exact Nat.le_trans hfin.2 (hcd g (mem_preorder_of_mem_givenStrings hg).1)
    rw [givenStrings_eq]
    cases hf : s.givenString? isCalled n with
    | none => exact hchildren
    | some f =>
      refine List.pairwise_cons.mpr ⟨fun g hg => ?_, hchildren⟩
      obtain ⟨c, hc, hg⟩ := List.mem_flatMap.mp hg
      exact givenString?_first hwidth hfaithful hcalled hn hf c hc g hg

end Ordered

end Calls

end ComponentDoc.Script
