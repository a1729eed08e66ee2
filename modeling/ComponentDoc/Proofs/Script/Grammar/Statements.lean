import ComponentDoc.Proofs.Script.Grammar.Expressions
import ComponentDoc.Script.Grammar.Statements

namespace ComponentDoc.Script

open Std.Do
open Script.Parser

set_option mvcgen.warning false

namespace Grammar

variable {g : Grammar} {v : View} (hg : g.Sound v.script)

include hg

@[spec] theorem makes_statementList : Makes v g.statementList := by
  mvcgen [statementList, statement]
  all_goals simp_all

theorem makes_blockRule : Makes v g.blockRule := by
  mvcgen [blockRule]
  all_goals simp_all

@[spec] theorem makes_variableDeclarator {allowIn : Bool} : Makes v (g.variableDeclarator allowIn) := by
  mvcgen [variableDeclarator]
  all_goals simp_all

omit hg in
@[spec] theorem makes_binderWord : Makes v binderWord := by
  mvcgen [binderWord]
  all_goals simp_all [Kind.isToken]

@[spec] theorem declarators_spec {allowIn : Bool} : ⦃fun c => ⌜c.StandsIn v⌝⦄ g.declarators allowIn
    ⦃⇓? r c => ⌜c.StandsIn v ∧ r.1.isFree ∧ AllClean r.2 v.script⌝⦄ := by
  mvcgen [declarators]
  all_goals simp_all +zetaDelta
  split <;> simp

@[spec] theorem makes_variableStatement : Makes v g.variableStatement := by
  mvcgen [variableStatement]
  all_goals simp_all

omit hg in
@[spec] theorem makes_seesLetDeclaration : Makes v seesLetDeclaration := makes_wordThen _ _

omit hg in
@[spec] theorem makes_seesVariables : Makes v seesVariables := by
  mvcgen [seesVariables]
  all_goals simp_all

@[spec] theorem makes_ifStatement : Makes v g.ifStatement := by
  mvcgen [ifStatement, condition, statement]
  all_goals simp_all

@[spec] theorem makes_forInRest {start : Nat} {target : List Node} (h : AllClean target v.script) :
    Makes v (g.forInRest start target) := by
  mvcgen [forInRest, expression, statement]
  all_goals simp_all

@[spec] theorem makes_forInStatement : Makes v g.forInStatement := by
  mvcgen [forInStatement]
  all_goals simp_all [clean_toPattern]

@[spec] theorem makes_forPart : Makes v g.forPart := by
  mvcgen [forPart, expression]
  all_goals simp_all

@[spec] theorem makes_forStatement : Makes v g.forStatement := by
  mvcgen [forStatement, expression, statement]
  all_goals simp_all

@[spec] theorem makes_whileStatement : Makes v g.whileStatement := by
  mvcgen [whileStatement, condition, statement]
  all_goals simp_all

@[spec] theorem makes_doStatement : Makes v g.doStatement := by
  mvcgen [doStatement, condition, statement]
  all_goals simp_all

@[spec] theorem makes_switchCase : Makes v g.switchCase := by
  mvcgen [switchCase, expression]
  all_goals simp_all

@[spec] theorem makes_switchStatement : Makes v g.switchStatement := by
  mvcgen [switchStatement, condition]
  all_goals simp_all

@[spec] theorem makes_catchClause : Makes v g.catchClause := by
  mvcgen [catchClause, block]
  all_goals simp_all

@[spec] theorem makes_tryStatement : Makes v g.tryStatement := by
  mvcgen [tryStatement, block]
  all_goals simp_all

@[spec] theorem makes_withStatement : Makes v g.withStatement := by
  mvcgen [withStatement, condition, statement]
  all_goals simp_all

omit hg in
@[spec] theorem makes_jump {w : String} {kind : Kind} (h : kind.isFree) : Makes v (jump w kind) := by
  mvcgen [jump]
  all_goals simp_all

@[spec] theorem makes_returnStatement : Makes v g.returnStatement := by
  mvcgen [returnStatement, expression]
  all_goals simp_all

@[spec] theorem makes_throwStatement : Makes v g.throwStatement := by
  mvcgen [throwStatement, expression]
  all_goals simp_all

@[spec] theorem makes_labeledStatement : Makes v g.labeledStatement := by
  mvcgen [labeledStatement, statement]
  all_goals simp_all

@[spec] theorem makes_expressionStatement : Makes v g.expressionStatement := by
  mvcgen [expressionStatement, expression]
  all_goals simp_all

@[spec] theorem makes_functionDeclaration : Makes v g.functionDeclaration := by
  mvcgen [functionDeclaration]
  all_goals simp_all

@[spec] theorem makes_superclass : Makes v g.superclass := by
  mvcgen [superclass]
  all_goals simp_all

@[spec] theorem makes_classDeclaration : Makes v g.classDeclaration := by
  mvcgen [classDeclaration]
  all_goals simp_all

@[spec] theorem makes_typeList : Makes v g.typeList := by
  mvcgen [typeList]
  all_goals simp_all

@[spec] theorem makes_interfaceDeclaration : Makes v g.interfaceDeclaration := by
  mvcgen [interfaceDeclaration]
  all_goals simp_all

@[spec] theorem makes_typeAlias : Makes v g.typeAlias := by
  mvcgen [typeAlias]
  all_goals simp_all

@[spec] theorem makes_enumDeclaration : Makes v g.enumDeclaration := by
  mvcgen [enumDeclaration]
  all_goals simp_all

@[spec] theorem makes_moduleDeclaration : Makes v g.moduleDeclaration := by
  mvcgen [moduleDeclaration, block]
  all_goals simp_all

omit hg in
@[spec] theorem makes_importAlias : Makes v g.importAlias := by
  mvcgen [importAlias]
  all_goals simp_all

omit hg in
@[spec] theorem makes_wordThenWord {w : String} : Makes v (wordThenWord w) := makes_wordThen _ _

@[spec] theorem makes_ambientDeclaration : Makes v g.ambientDeclaration := by
  mvcgen [ambientDeclaration, block, statement]
  all_goals simp_all

@[spec] theorem makes_typedDeclaration? : Makes v g.typedDeclaration? := by
  mvcgen [typedDeclaration?]
  all_goals simp_all

@[spec] theorem makes_declaration? : Makes v g.declaration? := by
  mvcgen [declaration?]
  all_goals simp_all

omit hg in
@[spec] theorem makes_moduleName : Makes v moduleName := by
  mvcgen [moduleName]
  all_goals simp_all

omit hg in
@[spec] theorem makes_skipTypeMark : Makes v g.skipTypeMark := by
  mvcgen [skipTypeMark, makes_forIn, -Spec.forIn_list]
  all_goals simp_all

omit hg in
@[spec] theorem makes_specifier {kind : Kind} (h : kind.isFree) : Makes v (g.specifier kind) := by
  mvcgen [specifier]
  all_goals simp_all

omit hg in
@[spec] theorem makes_sourcePath : Makes v sourcePath := by
  mvcgen [sourcePath]
  all_goals simp_all

omit hg in
@[spec] theorem makes_fromClause : Makes v fromClause := by
  mvcgen [fromClause]
  all_goals simp_all

@[spec] theorem makes_importAttribute? : Makes v g.importAttribute? := by
  mvcgen [importAttribute?]
  all_goals simp_all

omit hg in
@[spec] theorem makes_namespaceImport : Makes v namespaceImport := by
  mvcgen [namespaceImport]
  all_goals simp_all

omit hg in
@[spec] theorem makes_namedImports : Makes v g.namedImports := by
  mvcgen [namedImports]
  all_goals simp_all

omit hg in
@[spec] theorem makes_importClause : Makes v g.importClause := by
  have hall := makes_namespaceImport (v := v)
  have hnamed := makes_namedImports (g := g) (v := v)
  mvcgen [importClause, -makes_namespaceImport, -makes_namedImports, hall, hnamed]
  all_goals simp_all

@[spec] theorem makes_importedModule {start : Nat} : Makes v (g.importedModule start) := by
  mvcgen [importedModule]
  all_goals simp_all

omit hg in
@[spec] theorem makes_importedRequire {start : Nat} : Makes v (importedRequire start) := by
  mvcgen [importedRequire]
  all_goals simp_all

omit hg in
@[spec] theorem makes_typeMark : Makes v typeMark := by
  mvcgen [typeMark]
  all_goals simp_all

@[spec] theorem makes_importStatement : Makes v g.importStatement := by
  mvcgen [importStatement]
  all_goals simp_all

omit hg in
@[spec] theorem makes_exportClause : Makes v g.exportClause := by
  mvcgen [exportClause]
  all_goals simp_all

omit hg in
@[spec] theorem makes_exportList : Makes v g.exportList := by
  mvcgen [exportList]
  all_goals simp_all

@[spec] theorem makes_defaultExport : Makes v g.defaultExport := by
  mvcgen [defaultExport, assignment]
  all_goals simp_all

@[spec] theorem makes_exportStatement : Makes v g.exportStatement := by
  mvcgen [exportStatement, expression]
  all_goals simp_all

@[spec] theorem makes_wordStatement? {w : String} : Makes v (g.wordStatement? w) := by
  mvcgen [wordStatement?]
  all_goals simp_all

theorem makes_statementRule : Makes v g.statementRule := by
  mvcgen [statementRule, block]
  all_goals simp_all

end Grammar

end ComponentDoc.Script
