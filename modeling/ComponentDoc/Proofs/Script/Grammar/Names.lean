import ComponentDoc.Proofs.Script.Reading
import ComponentDoc.Script.Grammar.Expressions

namespace ComponentDoc.Script

open Std.Do
open Script.Parser

set_option mvcgen.warning false

def Kind.IsOther (k : Kind) : Prop := k ≠ .identifier ∧ k ≠ .memberExpression

instance (k : Kind) : Decidable k.IsOther := inferInstanceAs (Decidable (_ ∧ _))

abbrev GivesOther (p : Parser Node) : Prop := Gives p fun n => n.kind.IsOther

section Gives

variable {α β : Type} {P : α → Prop} {Q : β → Prop} {kind : Kind} {start : Nat} {children : List Node}

theorem gives_fail : Gives (fail : Parser α) P := nofun

theorem gives_fail_bind {f : α → Parser β} : Gives (fail >>= f) Q := nofun

theorem gives_mk {field : Option Field} {span : Span} (h : kind.IsOther) :
    GivesOther (pure ⟨kind, field, span, children⟩) :=
  gives_pure h

theorem gives_node (h : kind.IsOther) : GivesOther (node kind start children) := by
  intro c n c' hn
  cases hn
  exact h

theorem gives_leaf (h : kind.IsOther) : GivesOther (leaf kind) := by
  intro c n c' hn
  rw [leaf_eq] at hn
  cases hn
  exact h

end Gives

namespace Grammar

variable {g : Grammar}

section Operands

variable {superclass operand : Parser Node}

theorem gives_functionRule : GivesOther (g.functionRule false) := by
  unfold functionRule
  dsimp only
  repeat' first
    | exact gives_node (by decide)
    | exact gives_node (by split <;> decide)
    | refine gives_bind fun _ => ?_
    | refine gives_ite ?_ ?_

theorem gives_classRule {start : Nat} {decoration : List Node} :
    GivesOther (g.classRule superclass false start decoration) := by
  unfold classRule
  dsimp only
  repeat' first
    | exact gives_node (by split <;> decide)
    | exact gives_fail
    | refine gives_bind fun _ => ?_
    | refine gives_ite ?_ ?_

theorem gives_parenthesized : GivesOther g.parenthesized :=
  gives_bind fun _ => gives_bind fun _ => gives_bind fun _ => gives_bind fun _ => gives_node (by decide)

theorem gives_array : GivesOther g.array :=
  gives_bind fun _ => gives_bind fun _ => gives_bind fun _ => gives_bind fun _ => gives_node (by decide)

theorem gives_object : GivesOther g.object :=
  gives_bind fun _ => gives_bind fun _ => gives_bind fun _ => gives_node (by decide)

theorem gives_template : GivesOther g.template := by
  unfold template
  dsimp only
  repeat' first
    | exact gives_node (by decide)
    | exact gives_fail
    | refine gives_bind fun _ => ?_
    | refine gives_ite ?_ ?_

theorem gives_regex : GivesOther regex := by
  unfold regex
  refine gives_bind fun _ => gives_bind fun _ => ?_
  split
  · exact gives_fail
  · exact gives_bind fun _ => gives_node (by decide)

theorem gives_importExpression : GivesOther importExpression := by
  unfold importExpression
  refine gives_bind fun _ => Gives.bind (gives_leaf (by decide)) fun own hown => gives_bind fun _ => ?_
  refine gives_ite (gives_bind fun _ => gives_node (by decide)) (gives_bind fun _ => ?_)
  exact gives_ite (gives_pure hown) gives_fail

theorem gives_newExpression : GivesOther (g.newExpression operand) := by
  unfold newExpression
  dsimp only
  repeat' first
    | exact gives_node (by decide)
    | refine gives_bind fun _ => ?_
    | refine gives_ite ?_ ?_

theorem gives_elementRule : GivesOther g.elementRule := by
  unfold elementRule
  dsimp only
  repeat' first
    | exact gives_fail
    | exact gives_mk (by decide)
    | refine gives_bind fun _ => ?_
    | refine gives_ite ?_ ?_

end Operands

section Names

variable {v : View} {c c' : Cursor} {n own : Node} {kind : Kind}

theorem isSpelled_of_isOther {text : List Char} (h : n.kind.IsOther) : n.IsSpelled text := by
  rintro (hkind | hkind)
  · exact absurd hkind h.1
  · exact absurd hkind h.2

theorem leaf_covers (hc : c.StandsIn v) (ht : c.token.kind = .word ∨ c.token.kind = .privateName)
    (h : leaf kind c = some (n, c')) : n.span = ⟨c.pos, c'.last⟩ ∧ ∃ piece, piece ≠ [] ∧ n.Reads v.text piece := by
  rw [leaf_eq] at h
  cases h
  obtain ⟨piece, after, hne, hrest, hlength⟩ := hc.name ht
  refine ⟨rfl, piece, hne, ?_⟩
  have hplace := hc.place
  rw [hrest] at hplace
  change ReadsAt v.text ⟨c.pos, c.pos + byteLength (c.rest.take c.token.text.length)⟩ piece
  rw [hlength, hrest, List.take_left]
  exact hplace.reads

theorem isSpelled_name (hc : c.StandsIn v) (h : name kind c = some (n, c')) : n.IsSpelled v.text := by
  intro _
  simp only [name, seesName, bind_eq_some] at h
  obtain ⟨sees, _, ⟨_, _, hget, hsees⟩, h⟩ := h
  cases hget
  cases hsees
  split at h
  · next hword => exact (leaf_covers hc (.inl (of_decide_eq_true hword).1) h).2
  · cases h

theorem isSpelled_wordOperand {w : String} {superclass operand : Parser Node} (hc : c.StandsIn v)
    (h : g.wordOperand w superclass operand c = some (n, c')) : n.IsSpelled v.text := by
  unfold wordOperand at h
  split at h
  case h_11 =>
    obtain ⟨isAsync, c₁, hasync, h⟩ := bind_eq_some.mp h
    obtain ⟨hc₁, -⟩ := triple_iff.mp (makes_wordThen (v := v) _ _) c isAsync c₁ hc hasync
    split at h
    · exact isSpelled_of_isOther (gives_functionRule c₁ n c' h)
    · exact isSpelled_name hc₁ h
  case h_1 => exact isSpelled_of_isOther (gives_functionRule c n c' h)
  case h_2 => exact isSpelled_of_isOther (gives_bind (fun _ => gives_classRule) c n c' h)
  case h_9 => exact isSpelled_of_isOther (gives_newExpression c n c' h)
  case h_10 => exact isSpelled_of_isOther (gives_importExpression c n c' h)
  all_goals exact isSpelled_of_isOther (gives_leaf (by decide) c n c' h)

theorem isSpelled_operand {k : Nat} (helement : GivesOther (g.parse .element)) (hc : c.StandsIn v)
    (h : g.operand k c = some (n, c')) : n.IsSpelled v.text := by
  cases k with
  | zero => cases h
  | succ k =>
    rw [operand] at h
    obtain ⟨_, _, hget, h⟩ := bind_eq_some.mp h
    cases hget
    cases hkind : c.token.kind
    all_goals rw [hkind] at h
    case word => exact isSpelled_wordOperand hc h
    case number | string => exact isSpelled_of_isOther (gives_leaf (by decide) _ _ _ h)
    case sign =>
      simp only at h
      refine isSpelled_of_isOther (gives_elim (P := fun n => n.kind.IsOther) h ?_)
      split
      · exact gives_parenthesized
      · exact gives_array
      · exact gives_object
      · exact gives_template
      · exact gives_regex
      · exact gives_regex
      · exact gives_bind fun _ => gives_bind fun _ => gives_classRule
      · exact gives_ite gives_fail (Gives.bind helement fun e he => gives_bind fun _ => gives_pure he)
      · exact gives_fail
    all_goals cases h

theorem memberName_covers (hc : c.StandsIn v) (h : memberName c = some (own, c')) :
    own.span = ⟨c.pos, c'.last⟩ ∧ ∃ piece, piece ≠ [] ∧ own.Reads v.text piece := by
  simp only [memberName, bind_eq_some] at h
  obtain ⟨_, _, hget, h⟩ := h
  cases hget
  cases hkind : c.token.kind
  all_goals rw [hkind] at h
  case word => exact leaf_covers hc (.inl hkind) h
  case privateName => exact leaf_covers hc (.inr hkind) h
  all_goals cases h

end Names

section Steps

variable {script : Manuscript} {start : Nat} {rest : List Char} {comments : List Node} {e : Node}
  {noCalls always : Bool}

abbrev StepsSpelled (script : Manuscript) (start : Nat) (p : Parser (Option Node)) : Prop :=
  ⦃fun c => ⌜c.StandsIn ⟨script, start⟩⌝⦄ p ⦃⇓? found _ => ⌜∀ n ∈ found, n.IsSpelled script.text⌝⦄

theorem gives_map_some {p : Parser Node} (h : GivesOther p) :
    Gives (some <$> p) fun found => ∀ n ∈ found, n.kind.IsOther := by
  rw [map_eq_pure_bind]
  exact h.bind fun n hn => gives_pure (by simpa using hn)

theorem gives_none : Gives (pure none : Parser (Option Node)) fun found => ∀ n ∈ found, n.kind.IsOther :=
  gives_pure nofun

theorem gives_some_node {kind : Kind} {children : List Node} (h : kind.IsOther) :
    Gives (do return some (← node kind start children)) fun found => ∀ n ∈ found, n.kind.IsOther :=
  (gives_node h).bind fun n hn => gives_pure (by simpa using hn)

theorem gives_subscript : GivesOther (g.subscript start e) :=
  gives_bind fun _ => gives_bind fun _ => gives_bind fun _ => gives_node (by decide)

theorem gives_call {types : List Node} : GivesOther (g.call start e types) := by
  unfold call
  refine gives_bind fun _ => ?_
  exact gives_ite (gives_bind fun _ => gives_node (by decide)) (gives_bind fun _ => gives_node (by decide))

section Spelled

variable {α : Type} [Yield α] {p q : Parser (Option Node)}

theorem stepsSpelled_of_gives (h : Gives p fun found => ∀ n ∈ found, n.kind.IsOther) : StepsSpelled script start p :=
  triple_iff.mpr fun c found c' _ hfound n hn => isSpelled_of_isOther (h c found c' hfound n hn)

theorem stepsSpelled_bind {p : Parser α} {f : α → Parser (Option Node)} (hp : Makes ⟨script, start⟩ p)
    (hf : ∀ a, StepsSpelled script start (f a)) : StepsSpelled script start (p >>= f) := by
  refine triple_iff.mpr fun c found c' hc h => ?_
  obtain ⟨a, c₁, ha, h⟩ := bind_eq_some.mp h
  exact triple_iff.mp (hf a) c₁ found c' (triple_iff.mp hp c a c₁ hc ha).1 h

theorem stepsSpelled_ite {b : Prop} [Decidable b] (hp : StepsSpelled script start p)
    (hq : StepsSpelled script start q) : StepsSpelled script start (if b then p else q) := by
  split <;> assumption

end Spelled

theorem makes_seesSign {v : View} (s : String) : Makes v (seesSign s) := by
  mvcgen
  simp_all

theorem stepsSpelled_member (hat : (⟨script, start⟩ : View).At rest start comments) :
    StepsSpelled script start (do
      let own ← memberName
      return some (← node .memberExpression start [e, own.as .property])) := by
  refine triple_iff.mpr fun c found c' hc h => ?_
  obtain ⟨own, c₁, hown, h⟩ := bind_eq_some.mp h
  cases h
  rintro n ⟨⟩ -
  obtain ⟨hspan, piece, hne, hreads⟩ := memberName_covers hc hown
  rw [Node.Reads, hspan] at hreads
  obtain ⟨front, hreads⟩ := hat.reads_from hc.place.low hreads
  exact ⟨front ++ piece, by simp [hne], hreads⟩

theorem stepsSpelled_operandStep (hat : (⟨script, start⟩ : View).At rest start comments) :
    StepsSpelled script start (g.operandStep noCalls always start e) := by
  have hget {f : Cursor → Parser (Option Node)} (hf : ∀ c, StepsSpelled script start (f c)) :
      StepsSpelled script start (get >>= f) :=
    triple_iff.mpr fun c found c' hc h => triple_iff.mp (hf c) c found c' hc h
  unfold operandStep
  refine hget fun c => ?_
  split
  · exact stepsSpelled_bind makes_advance fun _ => stepsSpelled_member hat
  · dsimp only
    refine stepsSpelled_ite (stepsSpelled_of_gives gives_fail_bind) ?_
    refine stepsSpelled_bind makes_advance fun _ => stepsSpelled_bind (makes_seesSign _) fun _ => ?_
    refine stepsSpelled_ite (stepsSpelled_of_gives (gives_map_some gives_subscript)) ?_
    refine stepsSpelled_bind (makes_seesSign _) fun _ => stepsSpelled_bind (makes_seesSign _) fun _ => ?_
    refine stepsSpelled_ite (stepsSpelled_of_gives (gives_map_some gives_call)) ?_
    refine stepsSpelled_bind (makes_seesSign _) fun _ => stepsSpelled_ite ?_ (stepsSpelled_member hat)
    exact stepsSpelled_of_gives (gives_bind fun _ => gives_map_some gives_call)
  · exact stepsSpelled_of_gives (gives_map_some gives_subscript)
  · exact stepsSpelled_of_gives (gives_ite gives_none (gives_map_some gives_call))
  · exact stepsSpelled_of_gives (gives_ite gives_none (gives_map_some gives_call))
  · refine stepsSpelled_of_gives (gives_ite gives_none (gives_bind fun _ => ?_))
    exact gives_some_node (by decide)
  · refine stepsSpelled_of_gives (gives_ite gives_none (gives_bind fun types => ?_))
    cases types with
    | none => exact gives_none
    | some types =>
      refine gives_bind fun _ => gives_bind fun _ => ?_
      exact gives_ite (gives_map_some gives_call) (gives_some_node (by decide))
  · exact stepsSpelled_of_gives gives_none

theorem isSpelled_extend {p : Node → Parser (Option Node)} {k : Nat} {c c' : Cursor} {n : Node}
    (hmakes : ∀ e, e.Clean script → Makes ⟨script, start⟩ (p e)) (hspelled : ∀ e, StepsSpelled script start (p e))
    (hclean : e.Clean script) (he : e.IsSpelled script.text) (hc : c.StandsIn ⟨script, start⟩)
    (h : extend p k e c = some (n, c')) : n.IsSpelled script.text := by
  induction k generalizing e c with
  | zero =>
    cases h
    exact he
  | succ k ih =>
    rw [extend] at h
    obtain ⟨found, c₁, hfound, h⟩ := bind_eq_some.mp h
    obtain ⟨hc₁, hall⟩ := triple_iff.mp (hmakes e hclean) c found c₁ hc hfound
    have hnext := triple_iff.mp (hspelled e) c found c₁ hc hfound
    cases found with
    | none =>
      cases h
      exact he
    | some e' => exact ih (allClean_node.mp (allClean_some.mp hall)) (hnext e' rfl) hc₁ h

end Steps

end Grammar

end ComponentDoc.Script
