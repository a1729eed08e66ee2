import ComponentDoc.Declaration.Argument
import ComponentDoc.Declaration.Import
import ComponentDoc.Script.Entry
import ComponentDoc.Script.FreeNames
import ComponentDoc.Script.Parens

/-!
Dialect 3: the top-level statements of a script are its declarations. Variables hold state, labelled
assignments are computed, exported functions are functions of the component, and calls of a
dispatcher are events.
-/

namespace ComponentDoc

namespace TopLevel

open Script Reading

def dispatcherFactory : List Char := "createEventDispatcher".toList

inductive Finding
  | data (d : DataDeclaration)
  | computed (d : ComputedDeclaration)
  | function (d : FunctionDeclaration)
  | exported (name publicName : CodeText)

namespace Finding

def data? : Finding → Option DataDeclaration
  | data d => some d
  | _ => none

def computed? : Finding → Option ComputedDeclaration
  | computed d => some d
  | _ => none

def function? : Finding → Option FunctionDeclaration
  | function d => some d
  | _ => none

def exported? : Finding → Option (CodeText × CodeText)
  | exported name publicName => some (name, publicName)
  | _ => none

end Finding

def readFunction (s : Source) (nameNode : Option Node) (fn : Node) (comment : Option Comment) :
    Reading (List Finding) := do
  match nameNode with
  | none => return []
  | some n =>
    let name := s.nameOf n
    let arguments ← readArguments s (("'" : CodeText) ++ name ++ "'") fn comment
    return [.function
      { name := name, loc := s.locOf n, comment := comment
        bucket := (comment.bind Comment.bucket?).getD .methods, arguments := arguments }]

def readProperty (s : Source) (annotated : Option String) (initial : Option Node)
    (comment : Option Comment) (n : Node) : Reading Finding := do
  let name := s.nameOf n
  let type ← typeOf s (("data '" : CodeText) ++ name ++ "'") annotated initial
  let value ← match initial with
    | some i => ofLiteral (ItemType.literalValue? s i)
    | none => pure none
  return .data
    { name := name, loc := s.locOf n, comment := comment, type := type, value := value }

def functionValue? (declarator : Node) : Option Node :=
  ((declarator.child? .value).bind Node.withoutParens).filter fun v => v.kind.isFunction

/-- What one declarator of a variable declares. Only a name that stands alone has an initial value
of its own. -/
def readDeclarator (s : Source) (constant : Bool) (comment : Option Comment) (d : Node) :
    Reading (List Finding) := do
  match if constant then functionValue? d else none with
  | some fn => readFunction s (d.child? .name) fn comment
  | none =>
    let written := (d.child? .declared).map s.textOf
    let annotated := (comment.bind Comment.typeText?).or written
    match d.child? .name with
    | none => return []
    | some pattern =>
      let initial := if pattern.kind = .identifier then d.child? .value else none
      gather (fun n => return [← readProperty s annotated initial comment n]) pattern.bound

def isConstant (declaration : Node) : Bool :=
  declaration.children.head?.any fun c => c.kind = .constWord

/-- What a declaration of variables declares; a constant counts only if it is exported. -/
def readVariables (s : Source) (statement declaration : Node) (exported : Bool) :
    Reading (List Finding) := do
  if isConstant declaration && !exported then return []
  let comment ← takeComment s statement
  gather (readDeclarator s (isConstant declaration) comment)
    (declaration.named.filter fun d => d.kind = .variableDeclarator)

def withoutQuotes (name : List Char) : List Char :=
  let isQuote (c : Char) : Bool := c == '\'' || c == '"'
  Text.dropEndWhile isQuote (name.dropWhile isQuote)

def readSpecifier (s : Source) (n : Node) : Reading (List Finding) := do
  if n.kind ≠ .exportSpecifier then return []
  match n.child? .name, n.child? .otherName with
  | some name, some other =>
    let publicName := CodeText.ofChars (withoutQuotes (s.chars other))
    note (.exportedAs (s.nameOf name) publicName)
    return [.exported (s.nameOf name) publicName]
  | _, _ => return []

def readExported (s : Source) (statement declaration : Node) : Reading (List Finding) :=
  match declaration.kind with
  | .functionDeclaration | .generatorFunctionDeclaration => do
    let comment ← takeComment s statement
    readFunction s (declaration.child? .name) declaration comment
  | .lexicalDeclaration | .variableDeclaration => readVariables s statement declaration true
  | _ => return []

def readExport (s : Source) (statement : Node) : Reading (List Finding) := do
  let clause := statement.named.find? fun c => c.kind = .exportClause
  match clause, statement.child? .source with
  | some clause, none => gather (readSpecifier s) clause.named
  | _, _ =>
    match statement.child? .declaration with
    | none =>
      note (.exportSkipped (String.ofList ((s.chars statement).take 40)))
      return []
    | some declaration => readExported s statement declaration

/-- The assignment that a statement labelled with a dollar sign makes. -/
def assignment? (body : Option Node) : Option Node :=
  let expression := body.bind fun b =>
    if b.kind = .expressionStatement then b.named.head?.bind Node.withoutParens else none
  expression.filter fun e => e.kind = .assignmentExpression

def readReaction (s : Source) (statement : Node) : Reading (List Finding) := do
  if (statement.child? .label).map s.chars ≠ some ['$'] then return []
  match assignment? (statement.child? .body) with
  | none =>
    note .reactionIgnored
    return []
  | some assignment =>
    match (assignment.child? .left).filter fun t => t.kind = .identifier with
    | none =>
      note (.reactiveTargetIgnored ((assignment.child? .left).elim .empty s.nameOf))
      return []
    | some target =>
      let comment ← takeComment s statement
      return [.computed
        { name := s.nameOf target, loc := s.locOf target, comment := comment
          reads := .expression (assignment.child? .right) }]

def readStatement (s : Source) (statement : Node) : Reading (List Finding) :=
  match statement.kind with
  | .exportStatement => readExport s statement
  | .lexicalDeclaration | .variableDeclaration => readVariables s statement statement false
  | .labeledStatement => readReaction s statement
  | _ => return []

def isComputed (computed : List ComputedDeclaration) (name : CodeText) : Bool :=
  computed.any fun c => c.name = name

/-- A variable that is assigned reactively is no property on its own: it lends its comment to the
first computed property of its name. -/
def lendComments (data : List DataDeclaration) :
    List CodeText → List ComputedDeclaration → List ComputedDeclaration
  | _, [] => []
  | met, c :: rest =>
    let lent := data.findSome? fun d => if d.name = c.name then d.comment else none
    let c' := if c.name ∈ met then c else { c with comment := c.comment.or lent }
    c' :: lendComments data (c.name :: met) rest

def dispatcher? (s : Source) (n : Node) : Option CodeText := do
  if n.kind ≠ .variableDeclarator then none
  let value ← (n.child? .value).bind Node.withoutParens
  let name ← n.child? .name
  let callee ← if value.kind = .callExpression then value.child? .callee else none
  if s.chars callee = dispatcherFactory then some (s.nameOf name) else none

def dispatchers (s : Source) : List CodeText :=
  ((walk s.root).filterMap (dispatcher? s)).eraseDups

def dispatches (s : Source) (names : List CodeText) : List (Node × Node) :=
  (statements s.root).filter fun (n, _) =>
    n.kind = .callExpression && (n.child? .callee).any fun c => s.nameOf c ∈ names

def readEvent (s : Source) (skipped : List Notice) (call : Node × Node) :
    Reading (List Declared) := do
  match ← ofLiteral (s.stringArgument? call.1) with
  | none =>
    noteAll skipped
    return []
  | some (name, n) => return [⟨name, s.locOf n, ← takeComment s call.2⟩]

def read (s : Source) : Reading Declarations := do
  let imports ← readImports s
  let findings ← gather (readStatement s) s.root.named
  let data := findings.filterMap Finding.data?
  let computed := findings.filterMap Finding.computed?
  let (absorbed, kept) := data.partition fun d => isComputed computed d.name
  noteAll (absorbed.map fun d => .reactivelyAssigned d.name)
  let dispatchers := dispatchers s
  let events ← gather (readEvent s [.dispatchSkipped]) (dispatches s dispatchers)
  return {
    source := some s
    data := kept
    computed := lendComments absorbed [] computed
    functions := findings.filterMap Finding.function?
    children := []
    events := events
    imports := imports
    dispatchers := dispatchers
    aliases := (findings.filterMap Finding.exported?).foldl
      (fun found a => Keyed.set a.1 a.2 found) []
    componentComment := none
    unresolved := (← get).unresolved }

end TopLevel

end ComponentDoc
