import ComponentDoc.Proofs.Script.Grammar.Types
import ComponentDoc.Script.Grammar.Functions

namespace ComponentDoc.Script

open Std.Do
open Script.Parser

set_option mvcgen.warning false

namespace Grammar

variable {g : Grammar} {v : View} (hg : g.Sound v.script)

include hg

@[spec] theorem makes_functionRule {isDeclaration : Bool} : Makes v (g.functionRule isDeclaration) := by
  mvcgen [functionRule, block]
  all_goals simp_all +zetaDelta
  all_goals
    intros
    split <;> simp

@[spec] theorem makes_arrowBody {allowIn : Bool} : Makes v (g.arrowBody allowIn) := by
  mvcgen [arrowBody, block]
  all_goals simp_all

@[spec] theorem makes_arrowFunction {allowIn : Bool} : Makes v (g.arrowFunction allowIn) := by
  mvcgen [arrowFunction]
  all_goals simp_all

omit hg in
@[spec] theorem makes_mayStartArrow : Makes v g.mayStartArrow := by
  mvcgen [mayStartArrow]
  all_goals simp_all

omit hg in
@[spec] theorem makes_seesSignature : Makes v g.seesSignature := by
  mvcgen [seesSignature]
  all_goals simp_all

@[spec] theorem makes_methodRest {start : Nat} {before : List Node} {key : Node} {mayLackBody : Bool}
    (hbefore : AllClean before v.script) (hkey : key.Clean v.script) :
    Makes v (g.methodRest start before key mayLackBody) := by
  mvcgen [methodRest, block]
  all_goals simp_all +zetaDelta

@[spec] theorem makes_namedClassMember {start : Nat} {decoration : List Node}
    (h : AllClean decoration v.script) : Makes v (g.namedClassMember start decoration) := by
  mvcgen [namedClassMember]
  all_goals simp_all

@[spec] theorem makes_classMember : Makes v g.classMember := by
  mvcgen [classMember, block]
  all_goals simp_all

@[spec] theorem makes_classBody : Makes v g.classBody := by
  mvcgen [classBody]
  all_goals simp_all

@[spec] theorem makes_classHeritage?_joined : Makes v (classHeritage?.joined g) := by
  mvcgen [classHeritage?.joined]
  all_goals simp_all

@[spec] theorem makes_classHeritage? {superclass : Parser Node} (h : Makes v superclass) :
    Makes v (g.classHeritage? superclass) := by
  mvcgen [classHeritage?, h]
  all_goals simp_all
  all_goals
    subst_vars
    simp_all

@[spec] theorem makes_classRule {superclass : Parser Node} {isDeclaration : Bool} {start : Nat}
    {decoration : List Node} (h : Makes v superclass) (hdecoration : AllClean decoration v.script) :
    Makes v (g.classRule superclass isDeclaration start decoration) := by
  mvcgen [classRule]
  all_goals simp_all +zetaDelta
  all_goals cases isDeclaration <;> simp_all
  all_goals
    intros
    split <;> simp

end Grammar

end ComponentDoc.Script
