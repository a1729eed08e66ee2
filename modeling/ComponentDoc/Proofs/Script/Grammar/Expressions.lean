import ComponentDoc.Proofs.Script.Grammar.Elements
import ComponentDoc.Proofs.Script.Grammar.Functions
import ComponentDoc.Script.Grammar.Expressions

namespace ComponentDoc.Script

open Std.Do
open Script.Parser

set_option mvcgen.warning false

section Nodes

variable {script : Manuscript}

theorem toPatterns_eq_map (ns : List Node) : toPatterns ns = ns.map Node.toPattern := by
  induction ns with
  | nil => rfl
  | cons n ns ih => rw [toPatterns, ih, List.map_cons]

theorem clean_toPattern {n : Node} (h : n.Clean script) : n.toPattern.Clean script := by
  induction n using Node.treeInduction with
  | node n ih =>
    have hchildren := (clean_iff.mp h).2
    have hpatterns : AllClean (toPatterns n.children) script := by
      rw [toPatterns_eq_map, allClean_list, List.forall_mem_map]
      exact fun c hc => ih c hc (hchildren c hc)
    unfold Node.toPattern
    split <;> simp_all [allClean_list]

theorem clean_call {callee arguments : Node} {types : List Node} {span : Span} (hcallee : callee.Clean script)
    (htypes : AllClean types script) (htyped : types ≠ [] → script.typed) (harguments : arguments.Clean script)
    (hkind : arguments.kind = .arguments ∨ arguments.kind = .templateString) :
    (⟨.callExpression, none, span, callee.as .callee :: (types ++ [arguments.as .arguments])⟩ : Node).Clean script := by
  have hclean : ∀ c ∈ callee.as .callee :: (types ++ [arguments.as .arguments]), c.Clean script := by
    rw [← allClean_list]
    simp [hcallee, htypes, harguments]
  have hparts : (callee.as .callee :: (types ++ [arguments.as .arguments])).filter (fun c => !c.kind.isComment) =
      callee.as .callee :: (types ++ [arguments.as .arguments]) :=
    List.filter_eq_self.mpr fun c hc => by simp [(clean_iff.mp (hclean c hc)).1.2]
  refine clean_iff.mpr ⟨⟨?_, nofun⟩, hclean⟩
  exact
    { comment := nofun
      token := nofun
      string := nofun
      template := nofun
      call := fun _ => ⟨_, _, _, hparts, htyped, rfl, rfl, hkind⟩
      number := nofun
      constructed := nofun }

theorem clean_new {base : Node} {rest : List Node} {span : Span} (hbase : base.Clean script)
    (hspelled : base.IsSpelled script.text) (hrest : AllClean rest script) :
    (⟨.newExpression, none, span, base.as .constructed :: rest⟩ : Node).Clean script := by
  refine clean_iff.mpr ⟨⟨?_, nofun⟩, List.forall_mem_cons.mpr ⟨clean_as.mpr hbase, allClean_list.mp hrest⟩⟩
  exact
    { comment := nofun
      token := nofun
      string := nofun
      template := nofun
      call := nofun
      number := nofun
      constructed := by
        rintro - c ⟨⟩
        exact hspelled }

end Nodes

namespace Grammar

variable {g : Grammar} {v : View} (hg : g.Sound v.script)

include hg

@[spec] theorem makes_spread : Makes v g.spread := by
  mvcgen [spread, assignment]
  all_goals simp_all

@[spec] theorem makes_spreadOrExpression : Makes v g.spreadOrExpression := by
  mvcgen [spreadOrExpression, assignment]
  all_goals simp_all

@[spec] theorem makes_array : Makes v g.array := by
  mvcgen [array]
  all_goals simp_all

@[spec] theorem makes_objectEntry : Makes v g.objectEntry := by
  mvcgen [objectEntry, assignment]
  all_goals simp_all

@[spec] theorem makes_object : Makes v g.object := by
  mvcgen [object]
  all_goals simp_all

@[spec] theorem makes_parenthesized : Makes v g.parenthesized := by
  mvcgen [parenthesized, expression]
  all_goals simp_all

omit hg in
@[spec] theorem makes_regex : Makes v regex := by
  mvcgen [regex]
  all_goals simp_all

@[spec] theorem arguments_spec : ⦃fun c => ⌜c.StandsIn v⌝⦄ g.arguments
    ⦃⇓? n c => ⌜(c.StandsIn v ∧ n.Clean v.script) ∧ n.kind = .arguments⌝⦄ := by
  mvcgen [arguments, node]
  all_goals simp_all

omit hg in
@[spec] theorem makes_memberName : Makes v memberName := by
  mvcgen [memberName]
  all_goals simp_all

@[spec] theorem makes_appliedTypes {always : Bool} : Makes v (g.appliedTypes always) := by
  mvcgen [appliedTypes, seesNoOperand]
  all_goals simp_all

@[spec] theorem makes_subscript {start : Nat} {e : Node} (he : e.Clean v.script) : Makes v (g.subscript start e) := by
  mvcgen [subscript, expression]
  all_goals simp_all

@[spec] theorem makes_call {start : Nat} {e : Node} {types : List Node} (he : e.Clean v.script)
    (htypes : AllClean types v.script) (htyped : types ≠ [] → v.script.typed) : Makes v (g.call start e types) := by
  have hnode := node_spec v
  mvcgen [call, -makes_node, hnode]
  all_goals simp_all [clean_call]

@[spec] theorem makes_operandStep {noCalls always : Bool} {start : Nat} {e : Node} (he : e.Clean v.script) :
    Makes v (g.operandStep noCalls always start e) := by
  have htyped := hg.typed
  mvcgen [operandStep]
  all_goals simp_all

theorem makes_constructor {operand : Parser Node} {finish : Node → Parser Node}
    (hoperand : ∀ low, Makes ⟨v.script, low⟩ operand)
    (hspelled : ∀ c n c', c.StandsIn v → operand c = some (n, c') → n.IsSpelled v.text)
    (hfinish : ∀ base, base.Clean v.script → base.IsSpelled v.text → Makes v (finish base)) :
    Makes v (do
      let first ← position
      let e ← operand
      let base ← extend (g.operandStep true false first) g.limit e
      finish base) := by
  refine triple_iff.mpr fun c n c' hc h => ?_
  simp only [bind_eq_some] at h
  obtain ⟨first, _, hfirst, e, c₁, he, base, c₂, hbase, h⟩ := h
  cases hfirst
  have hat := hc.place.from_here
  obtain ⟨hc₁, hclean⟩ := triple_iff.mp (hoperand c.pos) c e c₁ ⟨hat, hc.token⟩ he
  have hstep : ∀ e, e.Clean v.script → Makes ⟨v.script, c.pos⟩ (g.operandStep true false c.pos e) :=
    fun e he => makes_operandStep (v := ⟨v.script, c.pos⟩) hg he
  obtain ⟨hc₂, hbaseClean⟩ := triple_iff.mp (makes_extend (allClean_node.mp hclean) hstep) c₁ base c₂ hc₁ hbase
  have hbaseSpelled := isSpelled_extend hstep (fun e => stepsSpelled_operandStep hat) (allClean_node.mp hclean)
    (hspelled c e c₁ hc he) hc₁ hbase
  exact triple_iff.mp (hfinish base (allClean_node.mp hbaseClean) hbaseSpelled) c₂ n c'
    ⟨hc₂.place.of_low_le hc.place.low, hc₂.token⟩ h

theorem makes_newExpression {operand : Parser Node} (hoperand : ∀ low, Makes ⟨v.script, low⟩ operand)
    (hspelled : ∀ c n c', c.StandsIn v → operand c = some (n, c') → n.IsSpelled v.text) :
    Makes v (g.newExpression operand) := by
  have hnode := node_spec v
  unfold newExpression
  refine makes_bind makes_position fun start _ => makes_bind (makes_word _) fun _ _ => ?_
  refine makes_bind (makes_sign? _) fun pointed _ => ?_
  split
  · mvcgen
    all_goals simp_all
  · refine makes_constructor hg hoperand hspelled fun base hbase hbaseSpelled => ?_
    mvcgen [-makes_node, hnode]
    all_goals simp_all [clean_new]

omit hg in
@[spec] theorem makes_importExpression : Makes v importExpression := by
  mvcgen [importExpression]
  all_goals simp_all

theorem makes_wordOperand {w : String} {superclass operand : Parser Node} (hsuper : Makes v superclass)
    (h : ∀ low, Makes ⟨v.script, low⟩ operand)
    (hspelled : ∀ c n c', c.StandsIn v → operand c = some (n, c') → n.IsSpelled v.text) :
    Makes v (g.wordOperand w superclass operand) := by
  have hnew := makes_newExpression hg h hspelled
  mvcgen [wordOperand, hsuper, hnew]
  all_goals simp_all

@[spec] theorem makes_operand {n : Nat} : Makes v (g.operand n) := by
  induction n generalizing v with
  | zero =>
    mvcgen [operand]
    rintro ⟨⟩
  | succ n ih =>
    have hoperand : Makes v (g.operand n) := ih hg
    have hword {w : String} {superclass : Parser Node} (hsuper : Makes v superclass) :=
      makes_wordOperand (w := w) hg hsuper (fun low => ih (v := ⟨v.script, low⟩) hg)
        fun c m c' hc h => isSpelled_operand hg.other hc h
    mvcgen [operand, hoperand, hword]
    all_goals simp_all +zetaDelta

@[spec] theorem makes_postfixOperand : Makes v g.postfixOperand := by
  mvcgen [postfixOperand]
  all_goals simp_all

theorem makes_unaryRule : Makes v g.unaryRule := by
  mvcgen [unaryRule]
  all_goals simp_all

@[spec] theorem makes_operationStep {level : Nat} {allowIn : Bool} {start : Nat} {left : Node}
    (h : left.Clean v.script) : Makes v (g.operationStep level allowIn start left) := by
  mvcgen [operationStep]
  all_goals simp_all +zetaDelta
  all_goals split <;> simp

theorem makes_operationRule {level : Nat} {allowIn : Bool} : Makes v (g.operationRule level allowIn) := by
  mvcgen [operationRule]
  all_goals simp_all

@[spec] theorem makes_conditional {allowIn : Bool} : Makes v (g.conditional allowIn) := by
  mvcgen [conditional, assignment]
  all_goals simp_all

@[spec] theorem makes_yieldExpression {allowIn : Bool} : Makes v (g.yieldExpression allowIn) := by
  mvcgen [yieldExpression]
  all_goals simp_all

theorem makes_assignmentRule {allowIn : Bool} : Makes v (g.assignmentRule allowIn) := by
  mvcgen [assignmentRule]
  all_goals simp_all [clean_toPattern]

theorem makes_sequenceRule {allowIn : Bool} : Makes v (g.sequenceRule allowIn) := by
  mvcgen [sequenceRule]
  all_goals simp_all

end Grammar

end ComponentDoc.Script
