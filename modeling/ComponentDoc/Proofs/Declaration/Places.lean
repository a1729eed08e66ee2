import ComponentDoc.Extraction
import ComponentDoc.Proofs.Declaration.Reading
import ComponentDoc.Proofs.Document.Placement
import ComponentDoc.Proofs.Keyed
import ComponentDoc.Proofs.Script.Binding
import ComponentDoc.Proofs.Script.Offsets
import ComponentDoc.Proofs.Declaration.Legible
import ComponentDoc.Script.Parse

namespace ComponentDoc

open Script

namespace Reading

def Ensures {α : Type} (r : Reading α) (Q : α → Prop) : Prop :=
  ∀ p a p', (ExceptT.run r).run p = (.ok a, p') → Q a

section Rules

variable {α β : Type} {Q : α → Prop} {S : β → Prop}

theorem ensures_pure {a : α} (h : Q a) : (pure a : Reading α).Ensures Q := by
  intro p b p' hrun
  cases hrun
  exact h

theorem ensures_throw (e : Failure) : (throw e : Reading α).Ensures Q := by
  intro p b p' hrun
  cases hrun

theorem Ensures.imp {r : Reading α} {Q' : α → Prop} (h : r.Ensures Q) (himp : ∀ a, Q a → Q' a) : r.Ensures Q' :=
  fun p a p' hrun => himp a (h p a p' hrun)

theorem ensures_bind {r : Reading α} {f : α → Reading β} (hr : r.Ensures Q)
    (hf : ∀ a, Q a → (f a).Ensures S) : (r >>= f).Ensures S := by
  intro p b p' hrun
  rw [ExceptT.run_bind, StateT.run_bind] at hrun
  cases hfirst : (ExceptT.run r).run p with
  | mk a p₁ =>
    rw [hfirst] at hrun
    cases a with
    | error e => cases hrun
    | ok a => exact hf a (hr p a p₁ hfirst) p₁ b p' hrun

theorem ensures_then {r : Reading α} {f : α → Reading β} (hf : ∀ a, (f a).Ensures S) : (r >>= f).Ensures S :=
  ensures_bind (Q := fun _ => True) (fun _ _ _ _ => trivial) fun a _ => hf a

theorem ensures_gather {f : α → Reading (List β)} {l : List α} (h : ∀ a ∈ l, (f a).Ensures fun bs => ∀ b ∈ bs, S b) :
    (gather f l).Ensures fun bs => ∀ b ∈ bs, S b := by
  induction l with
  | nil => exact ensures_pure (List.forall_mem_nil S)
  | cons a l ih =>
    refine ensures_bind (h a List.mem_cons_self) fun bs hbs => ?_
    refine ensures_bind (ih fun b hb => h b (List.mem_cons_of_mem _ hb)) fun cs hcs => ?_
    exact ensures_pure (List.forall_mem_append.mpr ⟨hbs, hcs⟩)

end Rules

end Reading

/-- Some node of the script has the name for its text, and stands at the location. -/
def Script.Source.Names (s : Source) (name : CodeText) (loc : Span) : Prop :=
  ∃ n ∈ s.root.preorder, s.nameOf n = name ∧ s.locOf n = loc

namespace TopLevel

open Reading

variable {s : Source}

def Finding.Stands (s : Source) : Finding → Prop
  | data d => s.Names d.name d.loc
  | computed d => s.Names d.name d.loc
  | function d => s.Names d.name d.loc
  | exported _ _ => True

abbrev Finds (s : Source) (r : Reading (List Finding)) : Prop := r.Ensures fun fs => ∀ f ∈ fs, f.Stands s

theorem finds_nothing : Finds s (pure []) := ensures_pure (List.forall_mem_nil _)

theorem finds_one {f : Finding} (h : f.Stands s) : Finds s (pure [f]) :=
  ensures_pure (List.forall_mem_singleton.mpr h)

theorem finds_readFunction {nameNode : Option Node} (h : ∀ n ∈ nameNode, n ∈ s.root.preorder) (fn : Node)
    (comment : Option Comment) : Finds s (readFunction s nameNode fn comment) := by
  cases nameNode with
  | none => exact finds_nothing
  | some n => exact ensures_then fun _ => finds_one ⟨n, h n rfl, rfl, rfl⟩

theorem ensures_readProperty {n : Node} (h : n ∈ s.root.preorder) (annotated : Option String)
    (initial : Option Node) (comment : Option Comment) :
    (readProperty s annotated initial comment n).Ensures (Finding.Stands s) := by
  refine ensures_then fun _ => ?_
  cases initial with
  | none => exact ensures_pure ⟨n, h, rfl, rfl⟩
  | some i => exact ensures_then fun _ => ensures_pure ⟨n, h, rfl, rfl⟩

theorem finds_readDeclarator {d : Node} (h : d ∈ s.root.preorder) (constant : Bool) (comment : Option Comment) :
    Finds s (readDeclarator s constant comment d) := by
  have hchild {c : Node} {f : Field} (hc : d.child? f = some c) : c ∈ s.root.preorder :=
    Node.child_mem_preorder h (Node.mem_of_child? hc)
  unfold readDeclarator
  split
  · exact finds_readFunction (fun n hn => hchild hn) _ _
  · dsimp only
    split
    · exact finds_nothing
    · next pattern hpattern =>
      refine ensures_gather fun n hn => ?_
      have hmem := Node.mem_preorder_trans (hchild hpattern) (Node.mem_preorder_of_mem_bound hn)
      refine ensures_bind (ensures_readProperty hmem _ _ _) fun f hf => finds_one hf

theorem finds_readVariables {declaration : Node} (h : declaration ∈ s.root.preorder) (statement : Node)
    (exported : Bool) : Finds s (readVariables s statement declaration exported) := by
  unfold readVariables
  split
  · exact finds_nothing
  · refine ensures_then fun comment => ensures_gather fun d hd => ?_
    exact finds_readDeclarator
      (Node.child_mem_preorder h (Node.mem_of_mem_named (List.mem_filter.mp hd).1)) _ _

theorem finds_readSpecifier (n : Node) : Finds s (readSpecifier s n) := by
  unfold readSpecifier
  split
  · exact finds_nothing
  · split
    · exact ensures_then fun _ => finds_one trivial
    · exact finds_nothing

theorem finds_readExport {statement : Node} (h : statement ∈ s.root.preorder) :
    Finds s (readExport s statement) := by
  unfold readExport
  dsimp only
  split
  · exact ensures_gather fun n _ => finds_readSpecifier n
  · split
    · exact ensures_then fun _ => finds_nothing
    · next declaration hd =>
      have hd := Node.child_mem_preorder h (Node.mem_of_child? hd)
      unfold readExported
      split
      · refine ensures_then fun _ => finds_readFunction (fun n hn => ?_) _ _
        exact Node.child_mem_preorder hd (Node.mem_of_child? hn)
      · refine ensures_then fun _ => finds_readFunction (fun n hn => ?_) _ _
        exact Node.child_mem_preorder hd (Node.mem_of_child? hn)
      · exact finds_readVariables hd _ _
      · exact finds_readVariables hd _ _
      · exact finds_nothing

theorem mem_preorder_of_assignment? {body : Option Node} {root a : Node} (hbody : ∀ b ∈ body, b ∈ root.preorder)
    (h : assignment? body = some a) : a ∈ root.preorder := by
  obtain ⟨b, hb, h⟩ := Option.bind_eq_some_iff.mp (Option.filter_eq_some_iff.mp h).1
  split at h
  · obtain ⟨e, he, hparens⟩ := Option.bind_eq_some_iff.mp h
    have he := Node.child_mem_preorder (hbody b hb) (Node.mem_of_mem_named (List.mem_of_mem_head? he))
    exact Node.mem_preorder_trans he (Node.mem_preorder_of_withoutParens hparens)
  · simp at h

theorem finds_readReaction {statement : Node} (h : statement ∈ s.root.preorder) :
    Finds s (readReaction s statement) := by
  unfold readReaction
  split
  · exact finds_nothing
  · split
    · exact ensures_then fun _ => finds_nothing
    · next assignment hassignment =>
      split
      · exact ensures_then fun _ => finds_nothing
      · next target htarget =>
        have hmem := mem_preorder_of_assignment?
          (fun b hb => Node.child_mem_preorder h (Node.mem_of_child? hb)) hassignment
        have hleft := Node.mem_of_child? (Option.filter_eq_some_iff.mp htarget).1
        exact ensures_then fun _ => finds_one ⟨target, Node.child_mem_preorder hmem hleft, rfl, rfl⟩

theorem finds_readStatement {statement : Node} (h : statement ∈ s.root.preorder) :
    Finds s (readStatement s statement) := by
  unfold readStatement
  split
  · exact finds_readExport h
  · exact finds_readVariables h _ _
  · exact finds_readVariables h _ _
  · exact finds_readReaction h
  · exact finds_nothing

end TopLevel

theorem Script.mem_preorder_of_importedName? {n m : Node} (h : importedName? n = some m) : m ∈ n.children := by
  unfold importedName? at h
  dsimp only at h
  split at h
  · exact Node.mem_of_mem_named (List.mem_filter.mp (List.mem_of_getLast? h)).1
  · exact (Option.or_eq_some_iff.mp h).elim Node.mem_of_child? fun h => Node.mem_of_child? h.2
  · exact Node.mem_of_mem_named (List.mem_filter.mp (List.mem_of_mem_head? h)).1
  · simp at h

theorem ensures_readImport {s : Source} {statement : Node} (h : statement ∈ s.root.preorder) :
    (readImport s statement).Ensures fun bs => ∀ b ∈ bs, s.Names b.name b.loc := by
  unfold readImport
  split
  · exact Reading.ensures_throw _
  · refine Reading.ensures_then fun _ => Reading.ensures_then fun _ => Reading.ensures_pure fun b hb => ?_
    obtain ⟨m, hm, rfl⟩ := List.mem_map.mp hb
    obtain ⟨n, hn, hname⟩ := List.mem_filterMap.mp hm
    rw [walk_eq_preorder] at hn
    have hn := Node.mem_preorder_trans h hn
    exact ⟨m, Node.child_mem_preorder hn (Script.mem_preorder_of_importedName? hname), rfl, rfl⟩

theorem Imports.mem_foldl_set {bindings : List ImportBinding} {found : Imports} {e : CodeText × ImportBinding}
    (h : e ∈ bindings.foldl (fun found b => Keyed.set b.name b found) found) :
    (e.2 ∈ bindings ∧ e.1 = e.2.name) ∨ e ∈ found := by
  induction bindings generalizing found with
  | nil => exact .inr h
  | cons b bindings ih =>
    rcases ih h with ⟨hmem, hname⟩ | h
    · exact .inl ⟨List.mem_cons_of_mem _ hmem, hname⟩
    · rcases Keyed.mem_set h with rfl | h
      · exact .inl ⟨List.mem_cons_self, rfl⟩
      · exact .inr h

theorem ensures_readImports (s : Source) :
    (readImports s).Ensures fun imports => ∀ e ∈ imports, s.Names e.1 e.2.loc := by
  refine Reading.ensures_bind (Reading.ensures_gather fun statement hstatement => ensures_readImport ?_)
    fun bs hbs => Reading.ensures_pure fun e he => ?_
  · exact Node.child_mem_preorder s.root.self_mem_preorder
      (Node.mem_of_mem_named (List.mem_filter.mp hstatement).1)
  · obtain ⟨hmem, hname⟩ := (Imports.mem_foldl_set he).resolve_right List.not_mem_nil
    exact hname ▸ hbs _ hmem

/-- The local names that a script declares, and their locations: of data, computed properties, functions
and imports. -/
def Declarations.places (d : Declarations) : List (CodeText × Span) :=
  d.data.map (fun x => (x.name, x.loc)) ++ d.computed.map (fun x => (x.name, x.loc)) ++
    d.functions.map (fun x => (x.name, x.loc)) ++ d.imports.map fun e => (e.1, e.2.loc)

theorem TopLevel.map_place_lendComments (data : List DataDeclaration) (met : List CodeText)
    (computed : List ComputedDeclaration) :
    (lendComments data met computed).map (fun x => (x.name, x.loc)) = computed.map fun x => (x.name, x.loc) := by
  induction computed generalizing met with
  | nil => rfl
  | cons c computed ih =>
    rw [lendComments, List.map_cons, List.map_cons, ih]
    congr 1
    by_cases hmet : c.name ∈ met <;> simp [hmet]

theorem TopLevel.ensures_read (s : Source) : (read s).Ensures fun d => ∀ x ∈ d.places, s.Names x.1 x.2 := by
  refine Reading.ensures_bind (ensures_readImports s) fun imports himports => ?_
  refine Reading.ensures_bind (Reading.ensures_gather fun statement hstatement => finds_readStatement ?_)
    fun findings hfindings => ?_
  · exact Node.child_mem_preorder s.root.self_mem_preorder (Node.mem_of_mem_named hstatement)
  refine Reading.ensures_then fun _ => Reading.ensures_then fun events => Reading.ensures_then fun _ => ?_
  refine Reading.ensures_pure fun x hx => ?_
  have hview {α : Type} {view : Finding → Option α} {a : α} (ha : a ∈ findings.filterMap view) :
      ∃ f, f.Stands s ∧ view f = some a := by
    obtain ⟨f, hf, hview⟩ := List.mem_filterMap.mp ha
    exact ⟨f, hfindings f hf, hview⟩
  simp only [Declarations.places, map_place_lendComments, List.mem_append, List.mem_map] at hx
  rcases hx with ((⟨a, ha, rfl⟩ | ⟨a, ha, rfl⟩) | ⟨a, ha, rfl⟩) | ⟨e, he, rfl⟩
  · replace ha : a ∈ ((findings.filterMap Finding.data?).partition fun d =>
        isComputed (findings.filterMap Finding.computed?) d.name).2 := ha
    rw [List.partition_eq_filter_filter] at ha
    obtain ⟨f, hf, hview⟩ := hview (List.mem_filter.mp ha).1
    cases f <;> cases hview
    exact hf
  · obtain ⟨f, hf, hview⟩ := hview ha
    cases f <;> cases hview
    exact hf
  · obtain ⟨f, hf, hview⟩ := hview ha
    cases f <;> cases hview
    exact hf
  · exact himports e he

namespace Script.Source

variable {s : Source}

/-- The bytes of the node begin and end between characters. -/
def OnBoundaries (s : Source) (n : Node) : Prop :=
  IsBoundary s.text n.span.start ∧ IsBoundary s.text n.span.stop

instance (s : Source) (n : Node) : Decidable (s.OnBoundaries n) := inferInstanceAs (Decidable (_ ∧ _))

theorem locOf_of (h : s.KnowsWidth) {document : List Char} {start stop : Nat} (hoffset : s.offset = start)
    (htext : (⟨start, stop⟩ : Span).of document = s.text) {n : Node} (hn : s.OnBoundaries n) :
    (s.locOf n).of document = s.chars n := by
  obtain ⟨upTo, hupTo, hstop⟩ := hn.2
  have hlength : s.charAt n.span.stop ≤ s.text.length := by
    rw [← hstop, charAt_boundary h hupTo]
    exact hupTo.length_le
  have hcharOffset (b : Nat) : s.charOffset b = start + s.charAt b := by
    rw [charOffset, hoffset]
    exact Int.toNat_natCast _
  have hinside : s.text.length ≤ stop - start := htext ▸ List.length_take_le _ _
  rw [locOf, locOfBytes, hcharOffset, hcharOffset, chars, slice, Text.slice, ← htext]
  simp only [Span.of, Span.length]
  rw [List.drop_take, List.take_take, List.drop_drop, Nat.add_sub_add_left, Nat.min_eq_left (by omega)]

end Script.Source

open Extraction in
/-- Locations are offsets in the document: the location of a node of the script is the piece of the
document with the text of the node, the location of a declaration is the piece with its local name, and
a script of characters of one byte each needs no table for that. -/
theorem locations_exact {document : List Char} {parts : Document.Parts} {r : Document.Region} {s : Source}
    (hsplit : Document.split document = .ok parts) (hr : parts.regions.script = some r)
    (htext : s.text = r.content.toList) (hoffset : s.offset = r.contentStart) (hwidth : s.KnowsWidth) :
    (∀ n, s.OnBoundaries n → (s.locOf n).of document = s.chars n ∧
        utf8 (s.chars n) = ((utf8 s.text).drop n.span.start).take n.span.length) ∧
      (∀ d p, (∀ n ∈ s.root.preorder, s.OnBoundaries n) → Reading.start (TopLevel.read s) s = (.ok d, p) →
        ∀ x ∈ d.places, CodeText.ofChars (x.2.of document) = x.1) ∧
      ∀ n ≤ byteLength s.text, (charTable 0 s.text)[n]? = some (s.charAt n) := by
  have hregion : r ∈ parts.regions.toList := by simp [Document.Regions.toList, hr]
  have hcontent := ((Document.split_found hsplit).stands r hregion).content
  have hnode (n : Node) (hn : s.OnBoundaries n) : (s.locOf n).of document = s.chars n :=
    Script.Source.locOf_of hwidth hoffset (hcontent.trans htext.symm) hn
  refine ⟨fun n hn => ⟨hnode n hn, Script.Source.utf8_slice hwidth hn.1 hn.2⟩, fun d p hnodes hrun x hx => ?_,
    fun n hn => Script.Source.charAt_eq_charTable hwidth hn⟩
  obtain ⟨n, hn, hname, hloc⟩ := TopLevel.ensures_read s _ d p hrun x hx
  rw [← hname, ← hloc, hnode n (hnodes n hn)]
  rfl

theorem locations_exact_wide :
    let document := "<p>é</p><script>import {é as ü} from 'x';\n// 字\nlet 字 = 1, {a: b} = {};\n$: sum = b;\n" ++
      "export function añadir() {}</script>"
    ∃ parts r s d p, Document.split document.toList = .ok parts ∧ parts.regions.script = some r ∧
      parse r.content.toList r.contentStart r.lang? = .ok s ∧ s.wide ∧
      Reading.start (TopLevel.read s) s = (.ok d, p) ∧
      d.places.map (·.1) = [("字" : CodeText), "b", "sum", "añadir", "ü"] ∧
      ∀ x ∈ d.places, CodeText.ofChars (x.2.of document.toList) = x.1 := by
  intro document
  have hread : (Document.split document.toList).toOption.any fun parts => parts.regions.script.any fun r =>
      (parse r.content.toList r.contentStart r.lang?).toOption.any fun s =>
        s.wide ∧ (∀ n ∈ s.root.preorder, s.OnBoundaries n) ∧
          (Reading.start (TopLevel.read s) s).1.toOption.any fun d =>
            d.places.map (·.1) = [("字" : CodeText), "b", "sum", "añadir", "ü"] := by
    decide +kernel
  obtain ⟨parts, hparts, hread⟩ := exists_ok_of_any hread
  obtain ⟨r, hr, hread⟩ := (Option.any_eq_true _ _).mp hread
  obtain ⟨s, hs, hread⟩ := exists_ok_of_any hread
  obtain ⟨hwide, hnodes, hread⟩ := of_decide_eq_true hread
  cases hrun : Reading.start (TopLevel.read s) s with
  | mk result p =>
    rw [hrun] at hread
    obtain ⟨d, rfl, hnames⟩ := exists_ok_of_any hread
    obtain ⟨hwidth, htext, hoffset⟩ := Script.Source.knowsWidth_of_parse hs
    obtain ⟨-, hplaces, -⟩ := locations_exact hparts hr htext hoffset hwidth
    exact ⟨parts, r, s, d, p, hparts, hr, hs, hwide, hrun, of_decide_eq_true hnames, hplaces d p hnodes hrun⟩

end ComponentDoc
