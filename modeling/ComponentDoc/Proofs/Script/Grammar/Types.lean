import ComponentDoc.Proofs.Script.Grammar.Basic
import ComponentDoc.Script.Grammar.Types

namespace ComponentDoc.Script

open Std.Do
open Script.Parser

set_option mvcgen.warning false

namespace Grammar

variable {g : Grammar} {v : View} (hg : g.Sound v.script)

@[simp] theorem allClean_listSingleton {n : Node} {script : Manuscript} :
    AllClean (List.singleton n) script ↔ n.Clean script := List.forall_mem_singleton

theorem clean_getD {o : Option Node} {n : Node} {script : Manuscript} (ho : AllClean o script) (hn : n.Clean script) :
    (o.getD n).Clean script := by
  cases o with
  | none => exact hn
  | some m => exact allClean_node.mp (allClean_some.mp ho)

@[spec] theorem makes_angleList {α : Type} [Yield α] {p : Parser α} (hp : Makes v p) : Makes v (g.angleList p) := by
  mvcgen [angleList, hp]
  all_goals simp_all

theorem makes_forIn {α : Type} {l : List α} {f : α → PUnit → Parser (ForInStep PUnit)}
    (hf : ∀ a, ⦃fun c => ⌜c.StandsIn v⌝⦄ f a ⟨⟩ ⦃⇓? _ c => ⌜c.StandsIn v⌝⦄) :
    ⦃fun c => ⌜c.StandsIn v⌝⦄ (forIn l ⟨⟩ f : Parser PUnit) ⦃⇓? _ c => ⌜c.StandsIn v⌝⦄ := by
  induction l with
  | nil =>
    rw [List.forIn_nil]
    mvcgen
  | cons a l ih =>
    rw [List.forIn_cons]
    mvcgen [hf, ih, -Spec.forIn_list]

@[spec] theorem makes_skipModifiers {modifiers : List String} : Makes v (g.skipModifiers modifiers) := by
  mvcgen [skipModifiers]
  all_goals simp_all

@[spec] theorem makes_dottedName {kind : Kind} (h : kind.isFree) : Makes v (g.dottedName kind) := by
  mvcgen [dottedName]
  all_goals simp_all

@[spec] theorem makes_memberEnd : Makes v memberEnd := by
  mvcgen [memberEnd]
  all_goals simp_all

include hg

@[spec] theorem makes_typeClause : Makes v g.typeClause := by
  mvcgen [typeClause]
  all_goals simp_all

@[spec] theorem makes_typeClause? : Makes v g.typeClause? := by
  mvcgen [typeClause?]
  all_goals simp_all

@[spec] theorem makes_typeArguments : Makes v g.typeArguments := by
  mvcgen [typeArguments]
  all_goals simp_all

@[spec] theorem makes_typeParameter : Makes v g.typeParameter := by
  mvcgen [typeParameter, makes_forIn, -Spec.forIn_list]
  all_goals simp_all

@[spec] theorem makes_typeParameters? : Makes v g.typeParameters? := by
  mvcgen [typeParameters?]
  all_goals simp_all

omit hg in
@[spec] theorem makes_claimSubject : Makes v claimSubject := by
  mvcgen [claimSubject]
  all_goals simp_all

@[spec] theorem makes_claim : Makes v g.claim := by
  mvcgen [claim]
  all_goals simp_all

@[spec] theorem makes_returned : Makes v g.returned := by
  mvcgen [returned]
  all_goals simp_all

@[spec] theorem makes_returnType? : Makes v g.returnType? := by
  mvcgen [returnType?]
  all_goals simp_all

@[spec] theorem makes_plainParameter : Makes v g.plainParameter := by
  mvcgen [plainParameter]
  all_goals simp_all

@[spec] theorem makes_typedParameter : Makes v g.typedParameter := by
  mvcgen [typedParameter]
  all_goals simp_all
  all_goals
    intros
    split <;> simp

@[spec] theorem makes_formalParameters : Makes v g.formalParameters := by
  mvcgen [formalParameters]
  all_goals simp_all

@[spec] theorem makes_callSignature : Makes v g.callSignature := by
  mvcgen [callSignature]
  all_goals simp_all

@[spec] theorem makes_functionType : Makes v g.functionType := by
  mvcgen [functionType]
  all_goals simp_all

@[spec] theorem makes_namedType : Makes v g.namedType := by
  mvcgen [namedType]
  all_goals simp_all

@[spec] theorem makes_importType : Makes v g.importType := by
  mvcgen [importType]
  all_goals simp_all

@[spec] theorem makes_typeQuery : Makes v g.typeQuery := by
  mvcgen [typeQuery]
  all_goals simp_all

@[spec] theorem makes_tupleElement : Makes v g.tupleElement := by
  mvcgen [tupleElement]
  all_goals simp_all

@[spec] theorem makes_indexMember : Makes v g.indexMember := by
  mvcgen [indexMember]
  all_goals simp_all

@[spec] theorem makes_namedMember : Makes v g.namedMember := by
  mvcgen [namedMember]
  all_goals simp_all

@[spec] theorem makes_objectType : Makes v g.objectType := by
  mvcgen [objectType]
  all_goals simp_all

@[spec] theorem makes_simpleType : Makes v g.simpleType := by
  have htemplate : ⦃fun c => ⌜c.StandsIn v⌝⦄ template { g with parse := fun _ => g.parse .type }
      ⦃⇓? n c => ⌜(c.StandsIn v ∧ n.Clean v.script) ∧ n.kind = .templateString⌝⦄ :=
    templateOf_spec fun low => hg.parse low .type nofun
  mvcgen [simpleType, -template_spec, htemplate]
  all_goals simp_all +zetaDelta

@[spec] theorem makes_postfixType : Makes v g.postfixType := by
  mvcgen [postfixType]
  all_goals simp_all

@[spec] theorem makes_operatorType : Makes v g.operatorType := by
  mvcgen [operatorType]
  all_goals simp_all

omit hg in
@[spec] theorem makes_joinedTypes {s : String} {p : Parser Node} (hp : Makes v p) : Makes v (g.joinedTypes s p) := by
  mvcgen [joinedTypes, hp]
  all_goals simp_all

theorem makes_typeRule : Makes v g.typeRule := by
  mvcgen [typeRule]
  all_goals simp_all [clean_getD]

end Grammar

end ComponentDoc.Script
