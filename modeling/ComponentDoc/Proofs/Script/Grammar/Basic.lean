import ComponentDoc.Proofs.Script.Grammar.Names

namespace ComponentDoc.Script

open Std.Do
open Script.Parser

set_option mvcgen.warning false

/-- The parsers of the recursive notions keep their place in the script; an element leaves its last
bracket to come. -/
structure Grammar.Sound (g : Grammar) (script : Manuscript) : Prop where
  typed : g.typed = script.typed
  parse : ∀ low goal, goal ≠ .element → Makes ⟨script, low⟩ (g.parse goal)
  element : ∀ low, ⦃fun c => ⌜c.StandsIn ⟨script, low⟩⌝⦄ g.parse .element
    ⦃⇓? n c => ⌜(c.StandsIn ⟨script, low⟩ ∧ n.Clean script) ∧ c.rest.head? = some '>'⌝⦄
  other : GivesOther (g.parse .element)

namespace Grammar

variable {g : Grammar} {v : View} (hg : g.Sound v.script)

section Notions

include hg

@[spec] theorem makes_statement : Makes v (g.parse .statement) := hg.parse v.low _ nofun

@[spec] theorem makes_block : Makes v (g.parse .block) := hg.parse v.low _ nofun

@[spec] theorem makes_sequence {allowIn : Bool} : Makes v (g.parse (.sequence allowIn)) :=
  hg.parse v.low _ nofun

@[spec] theorem makes_assignment {allowIn : Bool} : Makes v (g.parse (.assignment allowIn)) :=
  hg.parse v.low _ nofun

@[spec] theorem makes_operation {level : Nat} {allowIn : Bool} : Makes v (g.parse (.operation level allowIn)) :=
  hg.parse v.low _ nofun

@[spec] theorem makes_unary : Makes v (g.parse .unary) := hg.parse v.low _ nofun

@[spec] theorem makes_binding : Makes v (g.parse .binding) := hg.parse v.low _ nofun

@[spec] theorem makes_type : Makes v g.type := hg.parse v.low _ nofun

@[spec] theorem element_spec : ⦃fun c => ⌜c.StandsIn v⌝⦄ g.parse .element
    ⦃⇓? n c => ⌜(c.StandsIn v ∧ n.Clean v.script) ∧ c.rest.head? = some '>'⌝⦄ := hg.element v.low

end Notions

section Rules

include hg

@[spec] theorem makes_computedName : Makes v g.computedName := by
  mvcgen [computedName, assignment]
  all_goals simp_all

@[spec] theorem makes_propertyName : Makes v g.propertyName := by
  mvcgen [propertyName]

@[spec] theorem makes_initializer? {allowIn : Bool} : Makes v (g.initializer? allowIn) := by
  mvcgen [initializer?]
  all_goals simp_all

@[spec] theorem makes_withDefault {start : Nat} {target : Node} (h : target.Clean v.script) :
    Makes v (g.withDefault start target) := by
  mvcgen [withDefault]
  all_goals simp_all

@[spec] theorem makes_bindingElement : Makes v g.bindingElement := by
  mvcgen [bindingElement]
  all_goals simp_all

@[spec] theorem makes_restBinding : Makes v g.restBinding := by
  mvcgen [restBinding]
  all_goals simp_all

@[spec] theorem makes_arrayPattern : Makes v g.arrayPattern := by
  mvcgen [arrayPattern]
  all_goals simp_all

@[spec] theorem makes_objectPatternEntry : Makes v g.objectPatternEntry := by
  mvcgen [objectPatternEntry]
  all_goals simp_all

@[spec] theorem makes_objectPattern : Makes v g.objectPattern := by
  mvcgen [objectPattern]
  all_goals simp_all

theorem makes_bindingRule : Makes v g.binding := by
  mvcgen [binding]
  all_goals simp_all

@[spec] theorem makes_decorator : Makes v g.decorator := by
  mvcgen [decorator]
  all_goals simp_all

@[spec] theorem makes_decorators : Makes v g.decorators := by
  mvcgen [decorators]
  all_goals simp_all

end Rules

@[spec] theorem makes_closeAngle : Makes v closeAngle := by
  mvcgen [closeAngle]
  nofun

@[spec] theorem seesCloseAngle_spec : ⦃fun c => ⌜c.StandsIn v⌝⦄ seesCloseAngle
    ⦃⇓? b c => ⌜c.StandsIn v ∧ (b → c.rest.head? = some '>')⌝⦄ := by
  mvcgen [seesCloseAngle]
  all_goals simp_all

theorem resume_spec (v : View) (operand : Bool) (rest : List Char) (pos : Nat) :
    ⦃fun c => ⌜v.At rest pos c.comments⌝⦄ resume operand rest pos ⦃⇓? _ c => ⌜c.StandsIn v⌝⦄ := by
  mvcgen [resume]
  exact standsIn_after _ ‹_›

theorem substitutions_spec (hg : ∀ low, Makes ⟨v.script, low⟩ g.expression) {n : Nat} {rest : List Char} {pos : Nat} :
    ⦃fun c => ⌜v.At rest pos c.comments⌝⦄ g.substitutions n rest pos
    ⦃⇓? ns c => ⌜c.StandsIn v ∧ (∀ n ∈ ns, n.kind = .templateSubstitution ∧ n.Clean v.script) ∧
      ∃ body, ReadsAt v.text ⟨pos, c.last⟩ (body ++ ['`']) ∧ (ns = [] → Closes '`' body)⌝⦄ := by
  refine triple_iff.mpr fun c ns c' hc h => ?_
  induction n generalizing rest pos c ns with
  | zero => cases h
  | succ n ih =>
    rw [substitutions] at h
    cases hquoted : quotedRest '`' .plain rest with
    | none =>
      rw [hquoted] at h
      cases h
    | some stopped =>
      obtain ⟨stop, after⟩ := stopped
      rw [hquoted] at h
      have hplace := hc.suffix (quotedRest_suffix hquoted)
      cases stop with
      | quote =>
        simp only [bind_eq_some] at h
        obtain ⟨_, c₁, hresume, hpure⟩ := h
        cases hpure
        cases hresume
        obtain ⟨body, rfl, hcloses⟩ := quotedRest_quote hquoted
        rw [List.append_cons] at hc hplace ⊢
        exact ⟨standsIn_after _ hplace, List.forall_mem_nil _, body, hc.reads_dropped, fun _ => hcloses⟩
      | substitution =>
        simp only [bind_eq_some] at h
        obtain ⟨_, c₁, hresume, e, c₂, hexpression, sees, c₃, hsees, h⟩ := h
        have hle : pos ≤ pos + byteLength (rest.take (rest.length - after.length)) := Nat.le_add_right _ _
        generalize pos + byteLength (rest.take (rest.length - after.length)) = inside at *
        cases hresume
        cases hsees
        split at h
        · next hbrace =>
          simp only [bind_eq_some] at h
          obtain ⟨_, _, hget, ns', c₄, hrest, hpure⟩ := h
          cases hget
          cases hpure
          -- The expression is read from behind the mark, so what follows it is read further on.
          obtain ⟨hc₂, he⟩ := triple_iff.mp (hg inside) _ e c₂
            (standsIn_after false hplace.from_here) hexpression
          have hbehind := hc₂.behind_brace (of_decide_eq_true hbrace)
          rw [← List.drop_one] at hbehind
          obtain ⟨hc', hns, body, hreads, -⟩ := ih c₂ ns' (hbehind.of_low_le hplace.low) hrest
          refine ⟨hc', List.forall_mem_cons.mpr ⟨⟨rfl, clean_of_free rfl ?_⟩, hns⟩, ?_⟩
          · exact List.forall_mem_singleton.mpr (allClean_node.mp he)
          · obtain ⟨front, hreads⟩ := hc.reads_from (hle.trans hbehind.low) hreads
            exact ⟨front ++ body, by rwa [List.append_assoc], nofun⟩
        · cases h

theorem clean_template {script : Manuscript} {body : List Char} {parts : List Node} {span : Span}
    (hparts : ∀ n ∈ parts, n.kind = .templateSubstitution ∧ n.Clean script)
    (hreads : ReadsAt script.text span ('`' :: body ++ ['`'])) (hcloses : parts = [] → Closes '`' body) :
    (⟨.templateString, none, span, parts⟩ : Node).Clean script := by
  refine clean_iff.mpr ⟨⟨?_, nofun⟩, fun n hn => (hparts n hn).2⟩
  exact
    { comment := nofun
      token := nofun
      string := nofun
      template := fun _ => ⟨fun n hn => .inl (hparts n hn).1, body, hreads, fun h =>
        hcloses (List.eq_nil_iff_forall_not_mem.mpr fun n hn => h n hn (hparts n hn).1)⟩
      call := nofun
      number := nofun
      constructed := nofun }

theorem templateOf_spec (hg : ∀ low, Makes ⟨v.script, low⟩ g.expression) : ⦃fun c => ⌜c.StandsIn v⌝⦄ g.template
    ⦃⇓? n c => ⌜(c.StandsIn v ∧ n.Clean v.script) ∧ n.kind = .templateString⌝⦄ := by
  refine triple_iff.mpr fun c n c' hc h => ?_
  rw [template] at h
  simp only [bind_eq_some] at h
  obtain ⟨start, _, hstart, sees, _, hsees, h⟩ := h
  cases hstart
  cases hsees
  split at h
  · next hquote =>
    simp only [bind_eq_some] at h
    obtain ⟨_, _, hget, parts, _, hparts, hnode⟩ := h
    cases hget
    cases hnode
    obtain ⟨more, hmore⟩ : ['`'] <+: c.rest := hc.sign_prefix (of_decide_eq_true hquote)
    have hplace := hc.place
    rw [← hmore] at hplace hparts
    obtain ⟨hc', hclean, body, hreads, hcloses⟩ :=
      triple_iff.mp (substitutions_spec hg) c parts c' hplace.next hparts
    exact ⟨⟨hc', clean_template hclean (hplace.reads_cons hreads) hcloses⟩, rfl⟩
  · cases h

include hg in
@[spec] theorem template_spec : ⦃fun c => ⌜c.StandsIn v⌝⦄ g.template
    ⦃⇓? n c => ⌜(c.StandsIn v ∧ n.Clean v.script) ∧ n.kind = .templateString⌝⦄ :=
  templateOf_spec fun low => hg.parse low _ nofun

end Grammar

end ComponentDoc.Script
