import ComponentDoc.Declaration.Dependencies
import ComponentDoc.Proofs.Script.Shadowing
import ComponentDoc.Script.Parse

/-!
Parameters hide known names. Main statement: a parameter of an expression may be renamed without a change
to what the expression reads, where the analysis sees that the parameter hides its name.
-/

namespace ComponentDoc.Script

/-- The expression `e'` is `e` with the new name for a parameter of the functions that the renaming owns
and for all that refers to it. The new name occurs nowhere in `e`. -/
structure Renames (s s' : Source) (r : Renaming) (e e' : Node) : Prop where
  alike : e.alike s s' r false e'
  parameter : ∀ f ∈ e.preorder, r.owns f → ∃ p ∈ f.params, r.old ∈ s.boundNames (some p)
  fresh : ∀ m ∈ e.preorder, m.kind.isName → s.nameOf m ≠ r.new
  regular : ∀ m ∈ e.preorder, m.isRegular

instance (s s' : Source) (r : Renaming) (e e' : Node) : Decidable (Renames s s' r e e') :=
  decidable_of_iff (_ ∧ _ ∧ _ ∧ _)
    ⟨fun ⟨halike, hparameter, hfresh, hregular⟩ => ⟨halike, hparameter, hfresh, hregular⟩,
      fun h => ⟨h.alike, h.parameter, h.fresh, h.regular⟩⟩

end ComponentDoc.Script

namespace ComponentDoc

open Script

/-- The renaming of all parameters of one name, in functions of any form. -/
def renamingOf (s : Source) (old new : CodeText) : Renaming where
  old := old
  new := new
  owns f := f.kind.opensFunction && f.params.any fun p => old ∈ s.boundNames (some p)

theorem dependencies_rename {s s' : Source} {r : Renaming} {e e' : Node} (h : Renames s s' r e e')
    (hhides : ∀ f ∈ e.preorder, r.owns f → s.Hides r.old f) (known : List CodeText) (self : CodeText) :
    dependencies s known self e = dependencies s' known self e' := by
  have hsame : s'.freeNames [] e' = s.freeNames [] e :=
    freeNames_keeps h.alike ⟨h.fresh, h.regular, h.parameter, hhides⟩ (by simp)
  rw [dependencies, knownReads, ← hsame, dependencies, knownReads]

theorem dependencies_rename_destructured :
    let text := "rows.map(({ a, b = 1 }) => ({ a, c: (a) => a + b, d: x => a + x }))".toList
    let text' := "rows.map(({ a: z, b = 1 }) => ({ a: z, c: (a) => a + b, d: x => z + x }))".toList
    let known : List CodeText := ["a", "b", "rows", "x"]
    ∃ s e s' e', parseExpression text 0 none = .ok (s, e) ∧ parseExpression text' 0 none = .ok (s', e') ∧
      Renames s s' (renamingOf s "a" "z") e e' ∧
      (∀ f ∈ e.preorder, (renamingOf s "a" "z").owns f → s.Hides "a" f) ∧
      dependencies s known .empty e = dependencies s' known .empty e' ∧
      dependencies s known .empty e = [("rows" : CodeText)] := by
  intro text text' known
  have hread : ((parseExpression text 0 none).toOption.bind fun p =>
      (parseExpression text' 0 none).toOption.map fun p' =>
        (decide (Renames p.1 p'.1 (renamingOf p.1 "a" "z") p.2 p'.2),
          (p.2.preorder.all fun f => f.variablePatterns.isEmpty && (!(renamingOf p.1 "a" "z").owns f || f.isPlain)),
          dependencies p.1 known .empty p.2)) = some (true, true, [("rows" : CodeText)]) := by
    decide +kernel
  cases hs : parseExpression text 0 none with
  | error err => simp [hs, Except.toOption] at hread
  | ok p =>
    cases hs' : parseExpression text' 0 none with
    | error err => simp [hs, hs', Except.toOption] at hread
    | ok p' =>
      rw [hs, hs'] at hread
      obtain ⟨hrenames, hread⟩ := Prod.mk.inj (Option.some.inj hread)
      obtain ⟨hplain, hnames⟩ := Prod.mk.inj hread
      have hrenames := of_decide_eq_true hrenames
      have hhides : ∀ f ∈ p.2.preorder, (renamingOf p.1 "a" "z").owns f → p.1.Hides "a" f := by
        intro f hf howns
        have hfunction : f.kind.opensFunction := ((Bool.and_eq_true _ _).mp howns).1
        have hnone : ∀ m ∈ p.2.preorder, m.variablePatterns = [] := fun m hm =>
          List.isEmpty_iff.mp ((Bool.and_eq_true _ _).mp (List.all_eq_true.mp hplain m hm)).1
        have hplain := ((Bool.and_eq_true _ _).mp (List.all_eq_true.mp hplain f hf)).2
        rw [howns, Bool.not_true, Bool.false_or] at hplain
        refine Source.hides_of_isPlain hplain hfunction (fun m hm => ?_) "a"
        exact Source.keepsVariables_of_forall fun k hk =>
          hnone k (Node.mem_preorder_trans (Node.mem_preorder_trans hf hm) hk)
      exact ⟨p.1, p.2, p'.1, p'.2, rfl, rfl, hrenames, hhides,
        dependencies_rename hrenames hhides known .empty, hnames⟩

/-- Renaming the parameters `a` of the first expression to `c` gives the second, and what is found to be read
changes. -/
def LeaksParameter (text text' : List Char) : Prop :=
  ∃ s e s' e', parseExpression text 0 none = .ok (s, e) ∧ parseExpression text' 0 none = .ok (s', e') ∧
    Renames s s' (renamingOf s "a" "c") e e' ∧
    dependencies s ["a"] .empty e ≠ dependencies s' ["a"] .empty e'

theorem leaksParameter_of_parse {text text' : List Char}
    (h : (parseExpression text 0 none).toOption.any fun p =>
      (parseExpression text' 0 none).toOption.any fun p' =>
        Renames p.1 p'.1 (renamingOf p.1 "a" "c") p.2 p'.2 ∧
          dependencies p.1 ["a"] .empty p.2 ≠ dependencies p'.1 ["a"] .empty p'.2) :
    LeaksParameter text text' := by
  unfold LeaksParameter
  cases hs : parseExpression text 0 none with
  | error err => simp [hs, Except.toOption] at h
  | ok p =>
    cases hs' : parseExpression text' 0 none with
    | error err => simp [hs, hs', Except.toOption] at h
    | ok p' =>
      rw [hs, hs'] at h
      exact ⟨p.1, p.2, p'.1, p'.2, rfl, rfl, of_decide_eq_true h⟩

/-- The name of a parameter leaks from a later default value that mentions it, and from a function that is
declared in a body. -/
theorem dependencies_leak_parameter :
    LeaksParameter "(a, b = a) => b".toList "(c, b = c) => b".toList ∧
      LeaksParameter "() => { function f(a) { return a } return f(1) }".toList
        "() => { function f(c) { return c } return f(1) }".toList :=
  ⟨leaksParameter_of_parse (by decide +kernel), leaksParameter_of_parse (by decide +kernel)⟩

end ComponentDoc
