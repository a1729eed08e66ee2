import ComponentDoc.Declaration.TopLevel

/-!
Dialect 2: the object that a script exports by default declares all in its sections, and calls of a
method called `fire` are events.
-/

namespace ComponentDoc

namespace OptionsObject

open Script Reading

def ignoredSections : List String :=
  ["oncreate", "onrender", "ondestroy", "onteardown", "onstate", "onupdate", "setup", "preload",
    "store", "tag", "props", "namespace", "immutable", "events", "animations"]

inductive Finding
  | data (d : DataDeclaration)
  | computed (d : ComputedDeclaration)
  | function (d : FunctionDeclaration)
  | child (d : ChildDeclaration)

namespace Finding

def data? : Finding → Option DataDeclaration
  | data d => some d
  | _ => none

def computed? : Finding → Option ComputedDeclaration
  | computed d => some d
  | _ => none

def function? : Finding → Option FunctionDeclaration
  | function d => some d
  | _ => none

def child? : Finding → Option ChildDeclaration
  | child d => some d
  | _ => none

end Finding

def object? (n : Option Node) : Option Node :=
  (n.bind Node.withoutParens).filter fun v => v.kind = .object

def exported? (s : Source) : Option (Node × Node) :=
  s.root.named.findSome? fun statement =>
    if statement.kind = .exportStatement ∧ statement.children.any (fun c => c.kind = .defaultWord)
    then (object? (statement.child? .value)).map fun o => (statement, o)
    else none

def gatherEntries {β : Type} (s : Source) (f : Entry → Reading (List β)) (object : Node) :
    Reading (List β) :=
  gather (fun n => do
    match ← ofLiteral (s.entry? n) with
    | some e => f e
    | none => return []) object.named

def returned? (block : Node) : Option Node :=
  block.named.findSome? fun statement =>
    if statement.kind = .returnStatement then object? statement.named.head? else none

def dataObject? (value : Option Node) : Option Node := do
  let fn ← value.bind Node.withoutParens
  if fn.kind = .object then return fn
  let body ← (fn.child? .body).bind Node.withoutParens
  if body.kind = .object then return body
  if body.kind = .statementBlock then returned? body else none

def readProperty (s : Source) (e : Entry) : Reading (List Finding) := do
  let comment ← takeComment s e.node
  let type ← typeOf s (("data '" : CodeText) ++ e.key ++ "'") (comment.bind Comment.typeText?)
    e.initial?
  let value ← match e.initial? with
    | some i => ofLiteral (ItemType.literalValue? s i)
    | none => pure none
  return [.data
    { name := e.key, loc := s.locOf e.keyNode, comment := comment, type := type, value := value }]

def functionValue? (e : Entry) : Option Node :=
  (e.value.bind Node.withoutParens).filter fun v =>
    v.kind.isFunction || v.kind = .methodDefinition

def readComputed (s : Source) (e : Entry) : Reading (List Finding) := do
  let comment ← takeComment s e.node
  let params := (functionValue? e).elim [] Node.params
  let names := (params.flatMap fun p => s.boundNames (some p)).filter fun n => n ≠ e.key
  return [.computed
    { name := e.key, loc := s.locOf e.keyNode, comment := comment
      reads := .names names.eraseDups }]

def childPath (s : Source) (imports : Imports) (e : Entry) : Reading CodeText := do
  match e.value.bind Node.withoutParens with
  | none => return (imports.get? e.key).elim .empty (·.path)
  | some v =>
    if v.kind = .identifier then
      return (imports.get? (s.nameOf v)).elim (s.nameOf v) (·.path)
    else
      let path := (← ofLiteral (stringValue? s v)).getD .empty
      return if path.isEmpty then s.nameOf v else path

def readChild (s : Source) (imports : Imports) (e : Entry) : Reading (List Finding) := do
  let comment ← takeComment s e.node
  let path ← childPath s imports e
  return [.child
    { name := e.key, loc := s.locOf e.keyNode, path := path
      comment := comment.or ((imports.get? e.key).bind (·.comment)) }]

def readFunction (s : Source) (bucket : Bucket) (e : Entry) : Reading (List Finding) := do
  let comment ← takeComment s e.node
  match functionValue? e with
  | none =>
    note (.entryNotFunction bucket.name e.key)
    return []
  | some fn =>
    let arguments ← readArguments s (("'" : CodeText) ++ e.key ++ "'") fn comment
    return [.function
      { name := e.key, loc := s.locOf e.keyNode, comment := comment, bucket := bucket
        arguments := arguments }]

def readMembers (s : Source) (f : Entry → Reading (List Finding)) (section_ : Entry) :
    Reading (List Finding) := do
  match object? section_.value with
  | some object => gatherEntries s f object
  | none =>
    note .sectionNotObject
    return []

def readData (s : Source) (section_ : Entry) : Reading (List Finding) := do
  match dataObject? section_.value with
  | some object => gatherEntries s (readProperty s) object
  | none =>
    note .dataNotObject
    return []

def readSection (s : Source) (imports : Imports) (e : Entry) : Reading (List Finding) := do
  let _ ← takeComment s e.node
  let isNamed (name : String) : Bool := e.key = name
  if isNamed "data" then readData s e
  else if isNamed "computed" then readMembers s (readComputed s) e
  else if isNamed "components" then readMembers s (readChild s imports) e
  else
    match Bucket.all.find? fun b => isNamed b.name with
    | some bucket => readMembers s (readFunction s bucket) e
    | none =>
      note (if ignoredSections.any isNamed then .sectionIgnored e.key else .sectionUnknown e.key)
      return []

def fires (s : Source) : List (Node × Node) :=
  (statements s.root).filter fun (n, _) =>
    n.kind = .callExpression && (n.child? .callee).any fun c =>
      c.kind = .memberExpression && (c.child? .property).any fun p => s.chars p = "fire".toList

def read (s : Source) : Reading Declarations := do
  let imports ← readImports s
  let (comment, findings) ← match exported? s with
    | some (statement, object) => do
      let comment ← takeComment s statement
      pure (comment, ← gatherEntries s (readSection s imports) object)
    | none => do
      note .noOptions
      pure (none, [])
  let events ← gather (TopLevel.readEvent s []) (fires s)
  return {
    source := some s
    data := findings.filterMap Finding.data?
    computed := findings.filterMap Finding.computed?
    functions := findings.filterMap Finding.function?
    children := findings.filterMap Finding.child?
    events := events
    imports := imports
    dispatchers := []
    aliases := []
    componentComment := comment
    unresolved := (← get).unresolved }

end OptionsObject

end ComponentDoc
