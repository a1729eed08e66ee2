import ComponentDoc.Proofs.Readers
import ComponentDoc.Proofs.Script.Literals
import ComponentDoc.Script.Cursor
import Mathlib

/-!
Parsers of scripts keep their place. Main statement: a parser that is built from parsers that keep their
place, and give nodes that are as the grammar has their kinds, does so too.
-/

namespace ComponentDoc.Script

open Std.Do
open Script.Parser

set_option mvcgen.warning false

/-! Places in a script -/

structure Node.IsComment (n : Node) : Prop where
  kind : n.kind.isComment
  field : n.field = none
  children : n.children = []
  covers : n.span.start < n.span.stop

def GapPlace.BeganBefore (pos : Nat) : GapPlace → Prop
  | .outside => True
  | .lineComment start | .blockComment start | .htmlComment start => start < pos

/-- A script, and how many of its bytes have been read at least. -/
structure View where
  script : Manuscript
  low : Nat

abbrev View.text (v : View) : List Char := v.script.text

/-- At the byte offset `pos` of the script `rest` is left, and `comments` have been collected. -/
structure View.At (v : View) (rest : List Char) (pos : Nat) (comments : List Node) : Prop where
  tail : ∃ before, v.text = before ++ rest ∧ pos = byteLength before
  low : v.low ≤ pos
  comments : ∀ n ∈ comments, n.IsComment

namespace View.At

variable {v : View} {rest : List Char} {pos : Nat} {comments : List Node}

theorem after (front : List Char) (h : v.At (front ++ rest) pos comments) :
    v.At rest (pos + byteLength front) comments := by
  obtain ⟨⟨before, htext, rfl⟩, hlow, hcomments⟩ := h
  refine ⟨⟨before ++ front, ?_, (byteLength_append _ _).symm⟩, Nat.le_add_right_of_le hlow, hcomments⟩
  rw [htext, List.append_assoc]

theorem drop (n : Nat) (h : v.At rest pos comments) :
    v.At (rest.drop n) (pos + byteLength (rest.take n)) comments := by
  rw [← List.take_append_drop n rest] at h
  exact h.after _

theorem suffix {more : List Char} (h : v.At rest pos comments) (hmore : more <:+ rest) :
    v.At more (pos + byteLength (rest.take (rest.length - more.length))) comments := by
  obtain ⟨front, rfl⟩ := hmore
  rw [List.length_append, Nat.add_sub_cancel, List.take_left]
  exact h.after _

theorem from_here (h : v.At rest pos comments) : (⟨v.script, pos⟩ : View).At rest pos comments :=
  { h with low := Nat.le_refl _ }

theorem of_low_le {low : Nat} (h : (⟨v.script, low⟩ : View).At rest pos comments) (hle : v.low ≤ low) :
    v.At rest pos comments :=
  { h with low := hle.trans h.low }

theorem skip (p : Char → Bool) (h : v.At rest pos comments) :
    v.At (rest.drop (rest.takeWhile p).length) (pos + byteLength (rest.takeWhile p)) comments := by
  obtain ⟨more, hmore⟩ := List.takeWhile_prefix p (l := rest)
  generalize rest.takeWhile p = front at *
  subst hmore
  rw [List.drop_left]
  exact h.after front

theorem reads {piece : List Char} (h : v.At (piece ++ rest) pos comments) :
    ReadsAt v.text ⟨pos, pos + byteLength piece⟩ piece := by
  obtain ⟨before, htext, rfl⟩ := h.tail
  exact ⟨before, rest, by rw [htext, List.append_assoc], by rw [byteLength_append]⟩

theorem reads_dropped {piece : List Char} (h : v.At (piece ++ rest) pos comments) :
    ReadsAt v.text ⟨pos, pos + byteLength ((piece ++ rest).take ((piece ++ rest).length - rest.length))⟩ piece := by
  rw [List.length_append, Nat.add_sub_cancel, List.take_left]
  exact h.reads

theorem reads_from {pos' stop : Nat} {piece : List Char} (h : v.At rest pos comments) (hle : pos ≤ pos')
    (hreads : ReadsAt v.text ⟨pos', stop⟩ piece) : ∃ front, ReadsAt v.text ⟨pos, stop⟩ (front ++ piece) := by
  obtain ⟨before, htext, rfl⟩ := h.tail
  obtain ⟨before', after, htext', hspan⟩ := hreads
  obtain ⟨rfl, rfl⟩ := Span.mk.inj hspan
  have hprefix : before' <+: v.text := ⟨piece ++ after, by rw [htext', List.append_assoc]⟩
  obtain ⟨front, rfl⟩ := prefix_of_byteLength_le ⟨rest, htext.symm⟩ hprefix hle
  exact ⟨front, before, after, by simp [htext'], by simp⟩

theorem reads_cons {c : Char} {stop : Nat} {piece : List Char} (h : v.At (c :: rest) pos comments)
    (hreads : ReadsAt v.text ⟨pos + c.utf8Size, stop⟩ piece) : ReadsAt v.text ⟨pos, stop⟩ (c :: piece) := by
  obtain ⟨before, htext, rfl⟩ := h.tail
  obtain ⟨before', after, htext', hspan⟩ := hreads
  obtain ⟨hstart, rfl⟩ := Span.mk.inj hspan
  have hbytes : byteLength (before ++ [c]) = byteLength before' := by
    rw [byteLength_append, byteLength_cons, ← hstart]
    rfl
  have hshort : before ++ [c] <+: v.text := ⟨rest, by rw [htext, List.append_assoc, List.singleton_append]⟩
  have hlong : before' <+: v.text := ⟨piece ++ after, by rw [htext', List.append_assoc]⟩
  obtain rfl : before ++ [c] = before' := (prefix_of_byteLength_le hshort hlong hbytes.le).eq_of_length_le
    (prefix_of_byteLength_le hlong hshort hbytes.ge).length_le
  exact ⟨before, after, by simp [htext'], by simp⟩

theorem next {c : Char} (h : v.At (c :: rest) pos comments) : v.At rest (pos + c.utf8Size) comments := by
  have hnext := after [c] h
  rwa [byteLength_cons] at hnext

theorem comment {kind : Kind} {start stop : Nat} (h : v.At rest pos comments) (hkind : kind.isComment)
    (hcovers : start < stop) : v.At rest pos (commentNode kind start stop :: comments) :=
  { h with comments := List.forall_mem_cons.mpr ⟨⟨hkind, rfl, rfl, hcovers⟩, h.comments⟩ }

theorem gapFrom {operand lineBreak : Bool} {place : GapPlace} (h : v.At rest pos comments)
    (hplace : place.BeganBefore pos) :
    let g := gapFrom operand comments lineBreak place pos rest
    v.At g.rest g.pos g.comments := by
  fun_induction Script.gapFrom operand comments lineBreak place pos rest with
  | case1 | case2 | case16 => exact h
  | case3 | case4 => exact h.comment rfl hplace
  | case5 _ _ _ _ _ ih => exact ih ((after ['*', '/'] h).comment rfl (Nat.lt_add_right 2 hplace)) trivial
  | case7 _ _ _ _ _ _ _ ih | case9 _ _ _ _ _ _ _ ih => exact ih (h.next.comment rfl hplace) trivial
  | case11 _ _ _ _ ih => exact ih (after ['/', '/'] h) (Nat.lt_add_of_pos_right Nat.two_pos)
  | case12 _ _ _ _ ih => exact ih (after ['/', '*'] h) (Nat.lt_add_of_pos_right Nat.two_pos)
  | case6 _ _ _ _ _ _ _ ih | case8 _ _ _ _ _ _ _ ih | case10 _ _ _ _ _ _ _ ih =>
    exact ih h.next (Nat.lt_add_right _ hplace)
  | case13 _ _ _ _ _ _ _ _ ih => exact ih h.next trivial
  | case14 _ _ _ _ _ _ _ _ _ ih | case15 _ _ _ _ _ _ _ _ _ _ ih =>
    exact ih h.next (Nat.lt_add_of_pos_right (Char.utf8Size_pos _))

end View.At

structure Cursor.StandsIn (c : Cursor) (v : View) : Prop where
  place : v.At c.rest c.pos c.comments
  token : c.token.kind = .invalid ∨ c.token = Token.read c.rest

theorem standsIn_after {v : View} {rest : List Char} {pos : Nat} {comments : List Node} (operand : Bool)
    (h : v.At rest pos comments) : (Cursor.after operand comments rest pos).StandsIn v := by
  refine ⟨h.gapFrom trivial, ?_⟩
  unfold Cursor.after
  dsimp only
  split
  · exact .inr rfl
  · exact .inl rfl

namespace Cursor.StandsIn

variable {v : View} {c : Cursor}

theorem sign_prefix {s : String} (h : c.StandsIn v) (ht : c.token = ⟨.sign, s⟩) : s.toList <+: c.rest := by
  rcases h.token with hinvalid | hread
  · rw [ht] at hinvalid
    cases hinvalid
  · exact read_sign (hread.symm.trans ht)

theorem behind {d : Char} (h : c.StandsIn v) (hhead : c.rest.head? = some d) (hsize : d.utf8Size = 1) :
    v.At c.rest.tail (c.pos + 1) c.comments := by
  obtain ⟨more, hmore⟩ := List.head?_eq_some_iff.mp hhead
  have hplace := h.place
  rw [hmore] at hplace ⊢
  have hnext := hplace.next
  rwa [hsize] at hnext

theorem behind_angle (h : c.StandsIn v) (hhead : c.rest.head? = some '>') :
    v.At c.rest.tail (c.pos + 1) c.comments := h.behind hhead rfl

theorem behind_brace (h : c.StandsIn v) (ht : c.token = ⟨.sign, closeBrace⟩) :
    v.At c.rest.tail (c.pos + 1) c.comments := by
  obtain ⟨more, hmore⟩ : ['}'] <+: c.rest := h.sign_prefix ht
  exact h.behind (d := '}') (by rw [← hmore]; rfl) rfl

theorem string (h : c.StandsIn v) (ht : c.token.kind = .string) : ∃ quote body after,
    (quote = '"' ∨ quote = '\'') ∧ c.rest = quote :: body ++ quote :: after ∧ Closes quote body ∧
      c.token.text.length = (quote :: body ++ [quote]).length := by
  have htoken := h.token.resolve_left fun hinvalid => by
    rw [ht] at hinvalid
    cases hinvalid
  rw [htoken] at ht ⊢
  exact read_string ht

theorem name (h : c.StandsIn v) (ht : c.token.kind = .word ∨ c.token.kind = .privateName) : ∃ piece after,
    piece ≠ [] ∧ c.rest = piece ++ after ∧ c.token.text.length = piece.length := by
  have htoken := h.token.resolve_left fun hinvalid => by simp [hinvalid] at ht
  rw [htoken] at ht ⊢
  exact read_name ht

theorem number (h : c.StandsIn v) (ht : c.token.kind = .number) : ∃ literal after,
    c.rest = literal ++ after ∧ IsNumber literal ∧ c.token.text.length = literal.length := by
  have htoken := h.token.resolve_left fun hinvalid => by
    rw [ht] at hinvalid
    cases hinvalid
  rw [htoken] at ht ⊢
  exact read_number ht

end Cursor.StandsIn

/-! Nodes as the grammar has them -/

def Node.Clean (n : Node) (script : Manuscript) : Prop :=
  ∀ m ∈ n.preorder, m.Regular script ∧ ¬m.kind.isComment

@[simp] def Kind.isFree (k : Kind) : Bool :=
  k ∉ [.comment, .htmlComment, .defaultWord, .letWord, .constWord, .varWord, .sign, .string, .templateString,
    .callExpression, .number, .newExpression]

section Clean

variable {script : Manuscript} {n : Node}

theorem clean_iff : n.Clean script ↔
    (n.Regular script ∧ ¬n.kind.isComment) ∧ ∀ c ∈ n.children, c.Clean script := by
  unfold Node.Clean
  rw [n.preorder_eq, List.forall_mem_cons, List.forall_mem_flatMap]

theorem regular_as_iff (hcomment : ¬n.kind.isComment) (f : Field) : (n.as f).Regular script ↔ n.Regular script :=
  ⟨fun h => ⟨fun hkind => absurd hkind hcomment, h.token, h.string, h.template, h.call, h.number, h.constructed⟩,
    fun h => ⟨fun hkind => absurd hkind hcomment, h.token, h.string, h.template, h.call, h.number, h.constructed⟩⟩

@[simp] theorem clean_as {f : Field} : (n.as f).Clean script ↔ n.Clean script := by
  rw [clean_iff, clean_iff]
  refine and_congr_left' (and_congr_left fun hcomment => ?_)
  exact regular_as_iff (n := n) hcomment f

theorem clean_of_free (h : n.kind.isFree) (hchildren : ∀ c ∈ n.children, c.Clean script) : n.Clean script := by
  have hkind {k : Kind} (hk : k.isFree = false) : n.kind ≠ k := by
    rintro rfl
    rw [hk] at h
    cases h
  have hcomment : ¬n.kind.isComment := by
    simp only [Kind.isComment, Bool.or_eq_true, decide_eq_true_eq, not_or]
    exact ⟨hkind rfl, hkind rfl⟩
  have htoken : ¬n.kind.isToken := by
    unfold Kind.isToken
    split <;> simp_all
  refine clean_iff.mpr ⟨⟨?_, hcomment⟩, hchildren⟩
  exact
    { comment := fun h => absurd h hcomment
      token := fun h => absurd h htoken
      string := fun h => absurd h (hkind rfl)
      template := fun h => absurd h (hkind rfl)
      call := fun h => absurd h (hkind rfl)
      number := fun h => absurd h (hkind rfl)
      constructed := fun h => absurd h (hkind rfl) }

theorem clean_of_token (h : n.kind.isToken) (hchildren : n.children = []) : n.Clean script := by
  have hkind : ¬n.kind.isComment ∧ n.kind ≠ .string ∧ n.kind ≠ .templateString ∧ n.kind ≠ .callExpression ∧
      n.kind ≠ .number ∧ n.kind ≠ .newExpression := by
    unfold Kind.isToken at h
    split at h <;> simp_all [Kind.isComment]
  refine clean_iff.mpr ⟨⟨?_, hkind.1⟩, by simp [hchildren]⟩
  exact
    { comment := fun hcomment => absurd hcomment hkind.1
      token := fun _ => by simp [hchildren]
      string := fun hstring => absurd hstring hkind.2.1
      template := fun htemplate => absurd htemplate hkind.2.2.1
      call := fun hcall => absurd hcall hkind.2.2.2.1
      number := fun hnumber => absurd hnumber hkind.2.2.2.2.1
      constructed := fun hnew => absurd hnew hkind.2.2.2.2.2 }

theorem clean_string (hkind : n.kind = .string) (hchildren : n.children = [])
    (hliteral : ∃ literal body, n.Reads script.text literal ∧ IsString literal body) : n.Clean script := by
  refine clean_iff.mpr ⟨⟨?_, by simp [hkind, Kind.isComment]⟩, by simp [hchildren]⟩
  exact
    { comment := fun hcomment => absurd hcomment (by simp [hkind, Kind.isComment])
      token := fun _ => by simp [hchildren]
      string := fun _ => ⟨by simp [hchildren], hliteral⟩
      template := fun htemplate => absurd htemplate (by simp [hkind])
      call := fun hcall => absurd hcall (by simp [hkind])
      number := fun hnumber => absurd hnumber (by simp [hkind])
      constructed := fun hnew => absurd hnew (by simp [hkind]) }

theorem clean_number (hkind : n.kind = .number) (hchildren : n.children = [])
    (hliteral : ∃ literal, n.Reads script.text literal ∧ IsNumber literal) : n.Clean script := by
  refine clean_iff.mpr ⟨⟨?_, by simp [hkind, Kind.isComment]⟩, by simp [hchildren]⟩
  exact
    { comment := fun hcomment => absurd hcomment (by simp [hkind, Kind.isComment])
      token := fun _ => by simp [hchildren]
      string := fun hstring => absurd hstring (by simp [hkind])
      template := fun htemplate => absurd htemplate (by simp [hkind])
      call := fun hcall => absurd hcall (by simp [hkind])
      number := fun _ => hliteral
      constructed := fun hnew => absurd hnew (by simp [hkind]) }

end Clean

class Yield (α : Type) where
  nodes : α → List Node

instance : Yield Node := ⟨fun n => [n]⟩

instance : Yield Unit := ⟨fun _ => []⟩

instance : Yield Bool := ⟨fun _ => []⟩

instance : Yield Nat := ⟨fun _ => []⟩

instance {α : Type} [Yield α] : Yield (Option α) := ⟨fun o => o.toList.flatMap Yield.nodes⟩

instance {α : Type} [Yield α] : Yield (List α) := ⟨fun l => l.flatMap Yield.nodes⟩

def AllClean {α : Type} [Yield α] (a : α) (script : Manuscript) : Prop := ∀ n ∈ Yield.nodes a, n.Clean script

section AllClean

variable {α : Type} [Yield α] {script : Manuscript}

@[simp] theorem allClean_node {n : Node} : AllClean n script ↔ n.Clean script := List.forall_mem_singleton

@[simp] theorem allClean_unit (u : Unit) : AllClean u script := List.forall_mem_nil _

@[simp] theorem allClean_bool (b : Bool) : AllClean b script := List.forall_mem_nil _

@[simp] theorem allClean_nat (n : Nat) : AllClean n script := List.forall_mem_nil _

@[simp] theorem allClean_none : AllClean (none : Option α) script := List.forall_mem_nil _

@[simp] theorem allClean_some {a : α} : AllClean (some a) script ↔ AllClean a script := by
  simp [AllClean, Yield.nodes]

@[simp] theorem allClean_nil : AllClean ([] : List α) script := List.forall_mem_nil _

@[simp] theorem allClean_cons {a : α} {l : List α} :
    AllClean (a :: l) script ↔ AllClean a script ∧ AllClean l script := by
  simp [AllClean, Yield.nodes, or_imp, forall_and]

@[simp] theorem allClean_append {l m : List α} : AllClean (l ++ m) script ↔ AllClean l script ∧ AllClean m script := by
  simp [AllClean, Yield.nodes, or_imp, forall_and]

@[simp] theorem allClean_toList {o : Option α} : AllClean o.toList script ↔ AllClean o script := Iff.rfl

@[simp] theorem allClean_filterMap {l : List (Option α)} :
    AllClean (l.filterMap fun o => o) script ↔ AllClean l script := by
  induction l with
  | nil => simp
  | cons o l ih => cases o <;> simp [ih]

theorem allClean_list {l : List Node} : AllClean l script ↔ ∀ n ∈ l, n.Clean script := by
  simp [AllClean, Yield.nodes]

@[simp] theorem clean_mk_of_free {kind : Kind} {field : Option Field} {span : Span} {children : List Node}
    (h : kind.isFree) : (⟨kind, field, span, children⟩ : Node).Clean script ↔ AllClean children script :=
  ⟨fun hn => allClean_list.mpr (clean_iff.mp hn).2, fun hn => clean_of_free h (allClean_list.mp hn)⟩

@[simp] theorem allClean_children {n : Node} (h : n.Clean script) : AllClean n.children script :=
  allClean_list.mpr (clean_iff.mp h).2

@[simp] theorem allClean_map_as {o : Option Node} {f : Field} :
    AllClean (o.map fun n => n.as f) script ↔ AllClean o script := by
  cases o <;> simp

end AllClean

/-! Parsers that keep their place -/

theorem triple_iff {α : Type} {p : Parser α} {P : Cursor → Prop} {Q : α → Cursor → Prop} :
    ⦃fun c => ⌜P c⌝⦄ p ⦃⇓? a c => ⌜Q a c⌝⦄ ↔ ∀ c a c', P c → p c = some (a, c') → Q a c' := by
  have hwp (c : Cursor) : (wp⟦p⟧ (⇓? a c => ⌜Q a c⌝) c).down ↔ ∀ a c', p c = some (a, c') → Q a c' := by
    change (wp⟦p c⟧ (fun r => ⌜Q r.1 r.2⌝, ExceptConds.true)).down ↔ _
    cases p c with
    | none => exact ⟨fun _ a c' h => (by cases h), fun _ => trivial⟩
    | some r => exact
      ⟨fun h a c' hr => by
        cases hr
        exact h, fun h => h _ _ rfl⟩
  constructor
  · intro h c a c' hc hp
    exact (hwp c).mp (h c hc) a c' hp
  · intro h c hc
    exact (hwp c).mpr fun a c' => h c a c' hc

abbrev Makes {α : Type} [Yield α] (v : View) (p : Parser α) : Prop :=
  ⦃fun c => ⌜c.StandsIn v⌝⦄ p ⦃⇓? a c => ⌜c.StandsIn v ∧ AllClean a v.script⌝⦄

section Parsers

variable {v : View} {α : Type} [Yield α] {p q : Parser α}

theorem makes_bind {β : Type} [Yield β] {f : α → Parser β} (hp : Makes v p)
    (hf : ∀ a, AllClean a v.script → Makes v (f a)) : Makes v (p >>= f) := by
  refine triple_iff.mpr fun c b c' hc h => ?_
  obtain ⟨a, c₁, ha, h⟩ := bind_eq_some.mp h
  obtain ⟨hc₁, hclean⟩ := triple_iff.mp hp c a c₁ hc ha
  exact triple_iff.mp (hf a hclean) c₁ b c' hc₁ h

@[spec] theorem makes_position : Makes v position := by
  mvcgen [position]
  simp_all

@[spec] theorem makes_advanceBy (n : Nat) (operand : Bool) : Makes v (advanceBy n operand) := by
  mvcgen [advanceBy]
  next c h => exact ⟨standsIn_after _ (h.place.drop n), allClean_unit _⟩

@[spec] theorem makes_advance : Makes v advance := by
  mvcgen [advance]

@[spec] theorem fail_spec {α : Type} : ⦃fun _ => ⌜True⌝⦄ (fail : Parser α) ⦃⇓? _ _ => ⌜False⌝⦄ :=
  triple_iff.mpr fun _ _ _ _ h => by cases h

@[spec] theorem makes_orElse (hp : Makes v p) (hq : Makes v q) : Makes v (p <|> q) := by
  rw [Makes, triple_iff] at *
  intro c a c' hc h
  change (p c <|> q c) = _ at h
  cases hpc : p c with
  | none =>
    rw [hpc] at h
    exact hq c a c' hc h
  | some r =>
    rw [hpc] at h
    exact hp c a c' hc (hpc.trans h)

@[spec] theorem makes_optional? (hp : Makes v p) : Makes v (optional? p) := by
  mvcgen [optional?, hp]
  all_goals simp_all

@[spec] theorem makes_fits {β : Type} (p : Parser β) : Makes v (fits p) := by
  have hany : ⦃fun _ => ⌜True⌝⦄ optional? p ⦃⇓? _ _ => ⌜True⌝⦄ := triple_iff.mpr fun _ _ _ _ _ => trivial
  mvcgen [fits, -makes_optional?, hany]
  simp_all

@[spec] theorem makes_collect {p : Parser (Option α)} {n : Nat} (hp : Makes v p) : Makes v (collect p n) := by
  induction n with
  | zero =>
    mvcgen [collect]
    simp_all
  | succ n ih =>
    mvcgen [collect, hp, ih]
    all_goals simp_all

@[spec] theorem makes_extend {p : Node → Parser (Option Node)} {n : Nat} {e : Node} (he : e.Clean v.script)
    (hp : ∀ e, e.Clean v.script → Makes v (p e)) : Makes v (extend p n e) := by
  induction n generalizing e with
  | zero =>
    mvcgen [extend]
    simp_all
  | succ n ih =>
    mvcgen [extend, hp, ih]
    all_goals simp_all

@[spec] theorem seesSign_spec (s : String) : ⦃fun c => ⌜c.StandsIn v⌝⦄ seesSign s
    ⦃⇓? b c => ⌜c.StandsIn v ∧ (b → c.token = ⟨.sign, s⟩)⌝⦄ := by
  mvcgen [seesSign]
  simp_all

@[spec] theorem makes_seesWord (w : String) : Makes v (seesWord w) := by
  mvcgen [seesWord]
  simp_all

@[spec] theorem makes_sign? (s : String) : Makes v (sign? s) := by
  mvcgen [sign?]
  all_goals simp_all

@[spec] theorem makes_word? (w : String) : Makes v (word? w) := by
  mvcgen [word?]
  all_goals simp_all

@[spec] theorem makes_sign (s : String) : Makes v (sign s) := by
  mvcgen [sign]
  all_goals simp_all

@[spec] theorem makes_word (w : String) : Makes v (word w) := by
  mvcgen [word]
  all_goals simp_all

@[spec] theorem makes_seesName : Makes v seesName := by
  mvcgen [seesName]
  all_goals simp_all

@[spec] theorem makes_wordThen (w : String) (p : Cursor → Bool) : Makes v (wordThen w p) := makes_fits _

theorem leaf_eq (kind : Kind) (c : Cursor) : leaf kind c =
    let n := c.token.text.length
    let stop := c.pos + byteLength (c.rest.take n)
    some (⟨kind, none, ⟨c.pos, stop⟩, []⟩, Cursor.after (endsOperand c.token) c.comments (c.rest.drop n) stop) := rfl

def Kind.FitsToken (k : Kind) (t : Token) : Prop :=
  k.isFree ∨ k.isToken ∨ k = .string ∧ t.kind = .string ∨ k = .number ∧ t.kind = .number

theorem leaf_spec (v : View) (kind : Kind) :
    ⦃fun c => ⌜c.StandsIn v ∧ kind.FitsToken c.token⌝⦄ leaf kind
    ⦃⇓? n c => ⌜c.StandsIn v ∧ n.Clean v.script⌝⦄ := by
  refine triple_iff.mpr fun c n c' ⟨hc, hkind⟩ hleaf => ?_
  obtain ⟨rfl, rfl⟩ := Prod.mk.inj (Option.some.inj ((leaf_eq kind c).symm.trans hleaf))
  refine ⟨standsIn_after _ (hc.place.drop _), ?_⟩
  have hreads {literal after : List Char} (hsplit : c.rest = literal ++ after)
      (hlength : c.token.text.length = literal.length) :
      ReadsAt v.text ⟨c.pos, c.pos + byteLength (c.rest.take c.token.text.length)⟩ literal := by
    rw [hlength, hsplit, List.take_left]
    exact (hsplit ▸ hc.place).reads
  rcases hkind with hfree | htoken | ⟨rfl, hstring⟩ | ⟨rfl, hnumber⟩
  · exact clean_of_free hfree (List.forall_mem_nil _)
  · exact clean_of_token htoken rfl
  · obtain ⟨quote, body, after, hquote, hrest, hcloses, hlength⟩ := hc.string hstring
    have hsplit : c.rest = (quote :: body ++ [quote]) ++ after := by simp [hrest]
    exact clean_string rfl rfl ⟨_, body, hreads hsplit hlength, quote, hquote, rfl, .inl hcloses⟩
  · obtain ⟨literal, after, hsplit, hliteral, hlength⟩ := hc.number hnumber
    exact clean_number rfl rfl ⟨literal, hreads hsplit hlength, hliteral⟩

theorem leaf_of_fitsToken {kind : Kind} {P : Cursor → Prop} (h : ∀ c, P c → kind.FitsToken c.token) :
    ⦃fun c => ⌜c.StandsIn v ∧ P c⌝⦄ leaf kind ⦃⇓? n c => ⌜c.StandsIn v ∧ AllClean n v.script⌝⦄ := by
  refine triple_iff.mpr fun c n c' hc hleaf => ?_
  obtain ⟨hc', hclean⟩ := triple_iff.mp (leaf_spec v kind) c n c' (hc.imp_right (h c)) hleaf
  exact ⟨hc', allClean_node.mpr hclean⟩

@[spec] theorem makes_leaf {kind : Kind} (h : kind.isFree ∨ kind.isToken) : Makes v (leaf kind) := by
  have hleaf := leaf_of_fitsToken (v := v) (P := fun _ => True) fun c _ => h.imp_right .inl
  simp only [and_true] at hleaf
  exact hleaf

@[spec high] theorem leaf_string_spec : ⦃fun c => ⌜c.StandsIn v ∧ c.token.kind = .string⌝⦄ leaf .string
    ⦃⇓? n c => ⌜c.StandsIn v ∧ AllClean n v.script⌝⦄ :=
  leaf_of_fitsToken fun _ h => .inr (.inr (.inl ⟨rfl, h⟩))

@[spec high] theorem leaf_number_spec : ⦃fun c => ⌜c.StandsIn v ∧ c.token.kind = .number⌝⦄ leaf .number
    ⦃⇓? n c => ⌜c.StandsIn v ∧ AllClean n v.script⌝⦄ :=
  leaf_of_fitsToken fun _ h => .inr (.inr (.inr ⟨rfl, h⟩))

theorem node_spec (v : View) (kind : Kind) (start : Nat) (children : List Node) :
    ⦃fun c => ⌜c.StandsIn v ∧ (⟨kind, none, ⟨start, c.last⟩, children⟩ : Node).Clean v.script⌝⦄ node kind start children
    ⦃⇓? n c => ⌜c.StandsIn v ∧ n.Clean v.script⌝⦄ := by
  mvcgen [node]

@[spec] theorem makes_node {kind : Kind} {start : Nat} {children : List Node} (hkind : kind.isFree)
    (hchildren : AllClean children v.script) : Makes v (node kind start children) := by
  mvcgen [node]
  simp_all

@[spec] theorem makes_semicolon : Makes v semicolon := by
  mvcgen [semicolon]
  all_goals simp_all

@[spec] theorem makes_name (kind : Kind) (h : kind.isFree) : Makes v (name kind) := by
  mvcgen [name]
  all_goals simp_all

@[spec] theorem makes_anyWord (kind : Kind) (h : kind.isFree) : Makes v (anyWord kind) := by
  mvcgen [anyWord]
  all_goals simp_all

@[spec] theorem makes_listUntil {limit : Nat} {close : String} (hp : Makes v p) :
    Makes v (listUntil limit close p) := by
  mvcgen [listUntil, hp]
  all_goals simp_all

end Parsers

end ComponentDoc.Script
