import ComponentDoc.Declaration.TopLevel
import ComponentDoc.Proofs.Declaration.Reading
import ComponentDoc.Proofs.Script.Binding

namespace ComponentDoc

namespace Script

mutual

/-- The node inside all parentheses around it; comments in the parentheses do not count. -/
def Node.unparenthesized : Node → Option Node
  | ⟨kind, field, span, children⟩ =>
    if kind = .parenthesizedExpression then firstUnparenthesized children
    else some ⟨kind, field, span, children⟩

def firstUnparenthesized : List Node → Option Node
  | [] => none
  | n :: rest =>
    if n.kind.isNamed && n.kind ≠ .comment then n.unparenthesized else firstUnparenthesized rest

end

mutual

/-- No parentheses around the node start with a comment. -/
def Node.opensPlainly : Node → Bool
  | ⟨kind, _, _, children⟩ => kind ≠ .parenthesizedExpression || firstOpensPlainly children

def firstOpensPlainly : List Node → Bool
  | [] => true
  | n :: rest => if n.kind.isNamed then n.kind ≠ .comment && n.opensPlainly else firstOpensPlainly rest

end

theorem firstUnparenthesized_eq (ns : List Node) : firstUnparenthesized ns =
    (ns.find? fun n => n.kind.isNamed && n.kind ≠ .comment).bind Node.unparenthesized := by
  induction ns with
  | nil => rfl
  | cons n ns ih =>
    by_cases h : n.kind.isNamed && n.kind ≠ .comment
    · rw [firstUnparenthesized, if_pos h]
      simp only [List.find?_cons, h, Option.bind_some]
    · rw [firstUnparenthesized, if_neg h, ih]
      simp only [List.find?_cons, h]

theorem Node.unparenthesized_eq (n : Node) : n.unparenthesized =
    if n.kind = .parenthesizedExpression then firstUnparenthesized n.children else some n := by
  cases n
  rfl

mutual

theorem Node.withoutParens_of_opensPlainly : ∀ {n : Node}, n.opensPlainly →
    n.withoutParens = n.unparenthesized
  | ⟨kind, _, _, children⟩, h => by
    rw [Node.withoutParens, Node.unparenthesized]
    split
    · next hkind => exact firstWithoutParens_of_opensPlainly (by simpa [Node.opensPlainly, hkind] using h)
    · rfl

theorem firstWithoutParens_of_opensPlainly : ∀ {ns : List Node}, firstOpensPlainly ns →
    firstWithoutParens ns = firstUnparenthesized ns
  | [], _ => rfl
  | n :: rest, h => by
    rw [firstOpensPlainly] at h
    rw [firstWithoutParens, firstUnparenthesized]
    split at h
    · next hnamed =>
      obtain ⟨hcomment, hopens⟩ := Bool.and_eq_true_iff.mp h
      rw [if_pos hnamed, hnamed, hcomment, Bool.true_and, if_pos rfl]
      exact Node.withoutParens_of_opensPlainly hopens
    · next hnamed =>
      rw [if_neg hnamed, Bool.eq_false_iff.mpr hnamed, Bool.false_and, if_neg Bool.false_ne_true]
      exact firstWithoutParens_of_opensPlainly h

end

end Script

namespace TopLevel

open Script

inductive Outlined
  | data (d : Declared)
  | computed (d : Declared)
  | function (d : Declared)

namespace Outlined

def data? : Outlined → Option Declared
  | data d => some d
  | _ => none

def computed? : Outlined → Option Declared
  | computed d => some d
  | _ => none

def function? : Outlined → Option Declared
  | function d => some d
  | _ => none

end Outlined

section Outline

variable (s : Source)

def declared (comment : Option Comment) (n : Node) : Declared := ⟨s.nameOf n, s.locOf n, comment⟩

def isFunctionVariable (d : Node) : Bool :=
  ((d.child? .value).bind Node.unparenthesized).any fun e => e.kind.isFunction

/-- What one variable of a declaration is: a constant that is a function is one of the component, and all
else is data, by the names that the pattern binds. -/
def outlineDeclarator (constant : Bool) (comment : Option Comment) (d : Node) : List Outlined :=
  if constant && isFunctionVariable d then (d.part .name).map fun n => .function (declared s comment n)
  else ((d.part .name).flatMap Node.targets).map fun n => .data (declared s comment n)

def outlineVariables (comment : Option Comment) (exported : Bool) (declaration : Node) : List Outlined :=
  if isConstant declaration && !exported then []
  else (declaration.children.filter fun d => d.kind = .variableDeclarator).flatMap
    (outlineDeclarator s (isConstant declaration) comment)

def exportedDeclaration? (statement : Node) : Option Node :=
  if (statement.named.any fun c => c.kind = .exportClause) ∧ statement.child? .source = none then none
  else statement.child? .declaration

def reactiveTarget? (statement : Node) : Option Node :=
  if (statement.child? .label).map s.chars = some ['$'] then
    (((statement.child? .body).filter fun b => b.kind = .expressionStatement).bind fun b =>
      ((b.children.find? fun c => c.kind.isNamed && c.kind ≠ .comment).bind Node.unparenthesized).bind fun e =>
        if e.kind = .assignmentExpression then (e.child? .left).filter fun t => t.kind = .identifier
        else none)
  else none

def outlineExported (comment : Option Comment) (declaration : Node) : List Outlined :=
  match declaration.kind with
  | .functionDeclaration | .generatorFunctionDeclaration =>
    (declaration.part .name).map fun n => .function (declared s comment n)
  | .lexicalDeclaration | .variableDeclaration => outlineVariables s comment true declaration
  | _ => []

def outlineStatement (comment : Option Comment) (statement : Node) : List Outlined :=
  match statement.kind with
  | .lexicalDeclaration | .variableDeclaration => outlineVariables s comment false statement
  | .exportStatement => (exportedDeclaration? statement).elim [] (outlineExported s comment)
  | .labeledStatement => (reactiveTarget? s statement).toList.map fun n => .computed (declared s comment n)
  | _ => []

/-- No comment stands first in parentheses around an exported constant, or in a reactive assignment. -/
def opensPlainly (statement : Node) : Bool :=
  match statement.kind with
  | .exportStatement => (exportedDeclaration? statement).all fun declaration =>
      !isConstant declaration || (declaration.children.filter fun d => d.kind = .variableDeclarator).all fun d =>
        (d.child? .value).all Node.opensPlainly
  | .labeledStatement => (statement.child? .label).map s.chars ≠ some ['$'] ||
      (statement.child? .body).all fun b => b.kind ≠ .expressionStatement || firstOpensPlainly b.children
  | _ => true

def takesComment (statement : Node) : Bool :=
  match statement.kind with
  | .lexicalDeclaration | .variableDeclaration => !isConstant statement
  | .exportStatement => (exportedDeclaration? statement).any fun d =>
      d.kind ∈ [.functionDeclaration, .generatorFunctionDeclaration, .lexicalDeclaration, .variableDeclaration]
  | .labeledStatement => (reactiveTarget? s statement).isSome
  | _ => false

def ownComment (index : CommentIndex) (statement : Node) : Option Comment × CommentIndex :=
  if takesComment s statement then CommentIndex.take s index statement else (none, index)

def outline : List Outlined :=
  Reading.inTurn (fun index statement => outlineStatement s (ownComment s index statement).1 statement)
    (fun index statement => (ownComment s index statement).2) (CommentIndex.ofSource s) s.root.named

/-- The variables, those that are assigned reactively among them. -/
def outlinedData : List Declared := (outline s).filterMap Outlined.data?

def outlinedTargets : List Declared := (outline s).filterMap Outlined.computed?

def outlinedFunctions : List Declared := (outline s).filterMap Outlined.function?

def lentComment (name : CodeText) : Option Comment :=
  (outlinedData s).findSome? fun d => if d.name = name then d.comment else none

/-- The reactive assignments. The first of a name has the comment of a variable, if it has none of its
own. -/
def outlinedComputed : List Declared :=
  (outlinedTargets s).mapIdx fun i c =>
    if c.name ∈ ((outlinedTargets s).take i).map (·.name) then c
    else { c with comment := c.comment.or (lentComment s c.name) }

end Outline

end TopLevel

end ComponentDoc
