import ComponentDoc.Span

/-!
Syntax trees of scripts. A node has a kind, the part it plays in its parent, the bytes of the script
it covers, and its children in document order. Comments are children of the innermost node that has
tokens on both sides of them. Main statement: going through a tree with a stack of pending nodes
meets every node before its children, and the children in order.
-/

namespace ComponentDoc.Script

/-- The kinds of nodes. An `error` covers what does not fit, and `missing` is a token that the script lacks. The last
five are single tokens that have no name of their own. -/
inductive Kind
  | error | missing | program | hashBangLine | comment | htmlComment
  | exportStatement | exportClause | exportSpecifier | namespaceExport
  | importStatement | importClause | importSpecifier | namedImports | namespaceImport
  | importRequire | importAttribute | importAlias
  | expressionStatement | variableDeclaration | lexicalDeclaration | variableDeclarator
  | statementBlock | emptyStatement | labeledStatement | ifStatement | elseClause
  | switchStatement | switchBody | switchCase | switchDefault | forStatement | forInStatement
  | whileStatement | doStatement | tryStatement | catchClause | finallyClause | withStatement
  | breakStatement | continueStatement | debuggerStatement | returnStatement | throwStatement
  | functionDeclaration | generatorFunctionDeclaration | functionSignature | functionExpression
  | generatorFunction | arrowFunction | methodDefinition | fieldDefinition | formalParameters
  | requiredParameter | optionalParameter
  | classDeclaration | abstractClassDeclaration | classExpression | classBody | classHeritage
  | classStaticBlock | decorator
  | parenthesizedExpression | sequenceExpression | assignmentExpression
  | augmentedAssignmentExpression | awaitExpression | unaryExpression | binaryExpression
  | ternaryExpression | updateExpression | newExpression | yieldExpression | callExpression
  | memberExpression | subscriptExpression | arguments | metaProperty
  | identifier | undefinedLiteral | thisExpression | superExpression | importCallee | number
  | string | templateString | templateSubstitution | regex | trueLiteral | falseLiteral
  | nullLiteral | array | object | pair | spreadElement | computedPropertyName
  | propertyIdentifier | privatePropertyIdentifier | shorthandPropertyIdentifier | labelIdentifier
  | objectPattern | arrayPattern | pairPattern | restPattern | assignmentPattern
  | objectAssignmentPattern | shorthandPropertyIdentifierPattern
  | jsxElement | jsxSelfClosingElement | jsxOpeningElement | jsxClosingElement | jsxAttribute
  | jsxExpression | jsxNamespaceName
  | asExpression | satisfiesExpression | nonNullExpression | typeAssertion
  | instantiationExpression | typeClause | typeArguments | typeParameters | typeExpression
  | typeIdentifier | typeMember | ambientDeclaration | typeAliasDeclaration
  | interfaceDeclaration | enumDeclaration | enumBody | moduleDeclaration
  | defaultWord | letWord | constWord | varWord | sign
  deriving DecidableEq, Repr, Inhabited

namespace Kind

def isToken : Kind → Bool
  | defaultWord | letWord | constWord | varWord | sign => true
  | _ => false

def isNamed (k : Kind) : Bool := !k.isToken

end Kind

inductive Field
  | left | right | name | value | body | parameter | parameters | pattern | property | callee
  | arguments | operator | argument | constructed | declaration | source | label | key | declared
  | otherName | initializer | binder
  deriving DecidableEq, Repr

structure Node where
  kind : Kind
  field : Option Field
  /-- Byte offsets in the script. -/
  span : Span
  children : List Node

namespace Node

def as (n : Node) (f : Field) : Node := { n with field := some f }

def named (n : Node) : List Node := n.children.filter fun c => c.kind.isNamed

def child? (n : Node) (f : Field) : Option Node := n.children.find? fun c => c.field = some f

def part (n : Node) (f : Field) : List Node := (n.child? f).toList

theorem sizeOf_lt_of_mem {n c : Node} (h : c ∈ n.children) : sizeOf c < sizeOf n := by
  cases n
  have := List.sizeOf_lt_of_mem h
  simp at *
  omega

theorem mem_of_child? {n c : Node} {f : Field} (h : n.child? f = some c) : c ∈ n.children :=
  List.mem_of_find?_eq_some h

theorem mem_of_mem_named {n c : Node} (h : c ∈ n.named) : c ∈ n.children :=
  (List.mem_filter.1 h).1

theorem sizeOf_child?_lt {n c : Node} {f : Field} (h : n.child? f = some c) :
    sizeOf c < sizeOf n :=
  sizeOf_lt_of_mem (mem_of_child? h)

theorem sizeOf_lt_of_mem_part {n c : Node} {f : Field} (h : c ∈ n.part f) :
    sizeOf c < sizeOf n := by
  simp only [part, Option.mem_toList] at h
  exact sizeOf_child?_lt h

theorem sizeOf_named_lt {n c : Node} (h : c ∈ n.named) : sizeOf c < sizeOf n :=
  sizeOf_lt_of_mem (mem_of_mem_named h)

end Node

mutual

def Node.preorder : Node → List Node
  | ⟨kind, field, span, children⟩ => ⟨kind, field, span, children⟩ :: preorderAll children

def preorderAll : List Node → List Node
  | [] => []
  | n :: rest => n.preorder ++ preorderAll rest

end

mutual

def Node.count : Node → Nat
  | ⟨_, _, _, children⟩ => countAll children + 1

def countAll : List Node → Nat
  | [] => 0
  | n :: rest => n.count + countAll rest

end

theorem countAll_append (ms ns : List Node) : countAll (ms ++ ns) = countAll ms + countAll ns := by
  induction ms with
  | nil => simp [countAll]
  | cons m ms ih => simp [countAll, ih, Nat.add_assoc]

/-- Goes through pending nodes: meets the first, then goes on with its children in front. -/
def walkFrom : List Node → List Node
  | [] => []
  | n :: rest => n :: walkFrom (n.children ++ rest)
termination_by pending => countAll pending
decreasing_by
  cases n
  simp [countAll, countAll_append, Node.count]

def walk (n : Node) : List Node := walkFrom [n]

theorem preorderAll_append (ms ns : List Node) :
    preorderAll (ms ++ ns) = preorderAll ms ++ preorderAll ns := by
  induction ms with
  | nil => simp [preorderAll]
  | cons m ms ih => simp [preorderAll, ih]

theorem walkFrom_eq_preorderAll (pending : List Node) : walkFrom pending = preorderAll pending := by
  fun_induction walkFrom pending with
  | case1 => simp [preorderAll]
  | case2 n rest ih =>
    rw [ih, preorderAll_append]
    cases n
    simp [preorderAll, Node.preorder]

mutual

def Node.inStatements : Node → Node → List (Node × Node)
  | ⟨kind, field, span, children⟩, statement =>
    (⟨kind, field, span, children⟩, statement) ::
      allInStatements children statement
        (kind ∈ [.program, .statementBlock, .switchCase, .switchDefault])

/-- As `Node.inStatements` for the children of one node, which are statements themselves if `anew`
holds. -/
def allInStatements : List Node → Node → Bool → List (Node × Node)
  | [], _, _ => []
  | n :: rest, statement, anew =>
    n.inStatements (if anew then n else statement) ++ allInStatements rest statement anew

end

/-- Every node of a tree with the statement that contains it, in document order. The root counts as
contained in itself. -/
def statements (root : Node) : List (Node × Node) := root.inStatements root

end ComponentDoc.Script
