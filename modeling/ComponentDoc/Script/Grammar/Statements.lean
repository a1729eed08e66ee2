import ComponentDoc.Script.Grammar.Expressions

namespace ComponentDoc.Script

open Script.Parser

namespace Grammar

variable (g : Grammar)

def statement : Parser Node := g.parse .statement

def statementList : Parser (List Node) :=
  collect (do
    let t := (← get).token
    if t.kind = .stop ∨ t = ⟨.sign, closeBrace⟩ ∨ t = ⟨.word, "case"⟩ ∨
        t = ⟨.word, "default"⟩ then
      return none
    return some (← g.statement)) g.limit

def blockRule : Parser Node := do
  let start ← position
  sign openBrace
  let inner ← g.statementList
  sign closeBrace
  node .statementBlock start inner

def variableDeclarator (allowIn : Bool) : Parser Node := do
  let start ← position
  let target ← g.parse .binding
  if g.typed && !(← get).lineBreak then let _ ← sign? "!"
  let declared ← if g.typed then g.typeClause? else pure none
  let value ← g.initializer? allowIn
  node .variableDeclarator start (target.as .name :: (declared.map (·.as .declared)).toList ++
    (value.map (·.as .value)).toList)

def binderWord : Parser Node := do
  if ← seesWord "let" then leaf .letWord
  else if ← seesWord "const" then leaf .constWord
  else if ← seesWord "var" then leaf .varWord
  else fail

def declarators (allowIn : Bool) : Parser (Kind × List Node) := do
  let binder ← binderWord
  let first ← g.variableDeclarator allowIn
  let more ← collect (do
    if ← sign? "," then return some (← g.variableDeclarator allowIn) else return none) g.limit
  let kind : Kind := if binder.kind = .varWord then .variableDeclaration else .lexicalDeclaration
  return (kind, binder.as .binder :: first :: more)

/-- The token goes on with what stands before it, even where a line ends between them. -/
def joins (t : Token) : Bool :=
  t.kind = .sign && t.text.toList.head?.any ['(', '[', '`', '<', '>', '*', '/', '%', '^', '|', '&', '?', ':'].contains

def variableStatement : Parser Node := do
  let start ← position
  let (kind, parts) ← g.declarators true
  unless g.typed do
    let lacksValue := parts.getLast?.any fun d => (d.child? .value).isNone
    if lacksValue && joins (← get).token then fail
  semicolon
  node kind start parts

def seesLetDeclaration : Parser Bool :=
  wordThen "let" fun c =>
    c.token.text ∈ ["[", openBrace] ∨
      (c.token.kind = .word ∧ !(c.token.text ∈ ["in", "instanceof"]))

def seesVariables : Parser Bool := do
  if ← seesWord "var" then return true
  if ← wordThen "const" (fun c => c.token ≠ ⟨.word, "enum"⟩) then return true
  seesLetDeclaration

def condition : Parser Node := g.parenthesized

def ifStatement : Parser Node := do
  let start ← position
  word "if"
  let test ← g.condition
  let yes ← g.statement
  let otherwise ← position
  if ← word? "else" then
    let no ← g.statement
    let branch ← node .elseClause otherwise [no]
    node .ifStatement start [test, yes, branch]
  else node .ifStatement start [test, yes]

def forInRest (start : Nat) (target : List Node) : Parser Node := do
  unless (← word? "in") || (← word? "of") do fail
  let right ← g.expression
  sign ")"
  let body ← g.statement
  node .forInStatement start (target ++ [right.as .right, body.as .body])

def forInStatement : Parser Node := do
  let start ← position
  word "for"
  let _ ← word? "await"
  sign "("
  if ← seesVariables then
    let binder ← binderWord
    let target ← g.parse .binding
    let value ← if binder.kind = .varWord then g.initializer? false else pure none
    g.forInRest start ([binder.as .binder, target.as .left] ++ value.toList)
  else
    let target ← g.postfixOperand
    unless target.isTarget do fail
    g.forInRest start [target.toPattern.as .left]

def forPart : Parser Node := do
  if ← seesSign ";" then leaf .emptyStatement
  else
    let e ← g.expression
    sign ";"
    return e

def forStatement : Parser Node := do
  let start ← position
  word "for"
  sign "("
  let first ←
    if ← seesVariables then do
      let s ← position
      let (kind, parts) ← g.declarators false
      sign ";"
      node kind s parts
    else if ← seesSign ";" then leaf .emptyStatement
    else do
      let e ← g.parse (.sequence false)
      sign ";"
      pure e
  let test ← g.forPart
  let step ← if ← seesSign ")" then pure [] else pure [← g.expression]
  sign ")"
  let body ← g.statement
  node .forStatement start ([first.as .initializer, test] ++ step ++ [body.as .body])

def whileStatement : Parser Node := do
  let start ← position
  word "while"
  let test ← g.condition
  let body ← g.statement
  node .whileStatement start [test, body.as .body]

def doStatement : Parser Node := do
  let start ← position
  word "do"
  let body ← g.statement
  word "while"
  let test ← g.condition
  let _ ← sign? ";"
  node .doStatement start [body.as .body, test]

def switchCase : Parser Node := do
  let start ← position
  if ← word? "default" then
    sign ":"
    let body ← g.statementList
    node .switchDefault start body
  else
    word "case"
    let value ← g.expression
    sign ":"
    let body ← g.statementList
    node .switchCase start (value.as .value :: body)

def switchStatement : Parser Node := do
  let start ← position
  word "switch"
  let subject ← g.condition
  let bodyStart ← position
  sign openBrace
  let cases ← collect (do
    if ← seesSign closeBrace then return none else return some (← g.switchCase)) g.limit
  sign closeBrace
  let body ← node .switchBody bodyStart cases
  node .switchStatement start [subject, body.as .body]

def catchClause : Parser Node := do
  let start ← position
  word "catch"
  let caught ←
    if ← sign? "(" then do
      let target ← g.parse .binding
      let declared ← if g.typed then g.typeClause? else pure none
      sign ")"
      pure (target.as .parameter :: declared.toList)
    else pure []
  let body ← g.block
  node .catchClause start (caught ++ [body.as .body])

def tryStatement : Parser Node := do
  let start ← position
  word "try"
  let body ← g.block
  let handler ← if ← seesWord "catch" then pure [← g.catchClause] else pure []
  let finalStart ← position
  let final ← if ← word? "finally" then
      let b ← g.block
      pure [← node .finallyClause finalStart [b.as .body]]
    else pure []
  node .tryStatement start (body.as .body :: handler ++ final)

def withStatement : Parser Node := do
  let start ← position
  word "with"
  let subject ← g.condition
  let body ← g.statement
  node .withStatement start [subject, body.as .body]

def jump (w : String) (kind : Kind) : Parser Node := do
  let start ← position
  word w
  let target ← if (← seesName) && !(← get).lineBreak then
      pure [(← name .labelIdentifier).as .label]
    else pure []
  semicolon
  node kind start target

def returnStatement : Parser Node := do
  let start ← position
  word "return"
  let c ← get
  let value ←
    if c.lineBreak ∨ c.token.kind = .stop ∨ c.token = ⟨.sign, ";"⟩ ∨
        c.token = ⟨.sign, closeBrace⟩ then
      pure []
    else pure [← g.expression]
  semicolon
  node .returnStatement start value

def throwStatement : Parser Node := do
  let start ← position
  word "throw"
  if (← get).lineBreak then fail
  let value ← g.expression
  semicolon
  node .throwStatement start [value]

def labeledStatement : Parser Node := do
  let start ← position
  let own ← name .labelIdentifier
  sign ":"
  let body ← g.statement
  node .labeledStatement start [own.as .label, body.as .body]

def expressionStatement : Parser Node := do
  let start ← position
  let e ← g.expression
  semicolon
  node .expressionStatement start [e]

def functionDeclaration : Parser Node := g.functionRule true

def superclass : Parser Node := do
  let start ← position
  extend (g.operandStep false true start) g.limit (← g.operand g.limit)

def classDeclaration : Parser Node := do
  let start ← position
  let decoration ← g.decorators
  g.classRule g.superclass true start decoration

def typeList : Parser (List Node) := do
  let first ← g.type
  let more ← collect (do if ← sign? "," then return some (← g.type) else return none) g.limit
  return first :: more

def interfaceDeclaration : Parser Node := do
  let start ← position
  word "interface"
  let own ← name .typeIdentifier
  let generic ← g.typeParameters?
  let bases ← if ← word? "extends" then g.typeList else pure []
  let body ← g.objectType
  node .interfaceDeclaration start (own.as .name :: generic ++ bases ++ [body.as .body])

def typeAlias : Parser Node := do
  let start ← position
  word "type"
  let own ← name .typeIdentifier
  let generic ← g.typeParameters?
  sign "="
  let value ← g.type
  semicolon
  node .typeAliasDeclaration start (own.as .name :: generic ++ [value.as .value])

def enumDeclaration : Parser Node := do
  let start ← position
  let _ ← word? "const"
  word "enum"
  let own ← name .identifier
  let bodyStart ← position
  sign openBrace
  let members ← listUntil g.limit closeBrace do
    let s ← position
    let key ← g.propertyName
    match ← g.initializer? true with
    | some value => node .typeMember s [key.as .name, value.as .value]
    | none => return key
  let body ← node .enumBody bodyStart members
  node .enumDeclaration start [own.as .name, body.as .body]

def moduleDeclaration : Parser Node := do
  let start ← position
  unless (← word? "module") || (← word? "namespace") do fail
  let own ← if (← get).token.kind = .string then List.singleton <$> leaf .string
    else g.dottedName .identifier
  let body ← if ← seesSign openBrace then pure [← g.block] else do semicolon; pure []
  node .moduleDeclaration start (own ++ body)

def importAlias : Parser Node := do
  let start ← position
  word "import"
  let own ← name .identifier
  sign "="
  let value ← g.dottedName .identifier
  semicolon
  node .importAlias start (own :: value)

def wordThenWord (w : String) : Parser Bool :=
  wordThen w fun c => c.token.kind = .word ∧ !c.lineBreak

def ambientDeclaration : Parser Node := do
  let start ← position
  word "declare"
  if ← wordThen "global" (fun c => c.token = ⟨.sign, openBrace⟩) then
    word "global"
    node .ambientDeclaration start [← g.block]
  else
    let inner ← g.statement
    if inner.kind ∈ [.expressionStatement, .labeledStatement] then fail
    node .ambientDeclaration start [inner]

def typedDeclaration? : Parser (Option Node) := do
  if ← wordThenWord "interface" then return some (← g.interfaceDeclaration)
  if ← wordThenWord "type" then return ← optional? g.typeAlias
  if (← wordThenWord "enum") || (← wordThen "const" fun c => c.token = ⟨.word, "enum"⟩) then
    return some (← g.enumDeclaration)
  if (← wordThenWord "namespace") ||
      (← wordThen "module" fun c => c.token.kind ∈ [.word, .string] ∧ !c.lineBreak) then
    return ← optional? g.moduleDeclaration
  if ← wordThen "abstract" (fun c => c.token = ⟨.word, "class"⟩ ∧ !c.lineBreak) then
    return some (← g.classDeclaration)
  if ← wordThenWord "declare" then return ← optional? g.ambientDeclaration
  return none

def declaration? : Parser (Option Node) := do
  if ← seesVariables then return some (← g.variableStatement)
  let isFunction := (← seesWord "function") ||
    (← wordThen "async" fun c => c.token = ⟨.word, "function"⟩ ∧ !c.lineBreak)
  if isFunction then return ← optional? g.functionDeclaration
  if (← seesWord "class") || (← seesSign "@") then return ← optional? g.classDeclaration
  if g.typed then g.typedDeclaration? else return none

def moduleName : Parser Node := do
  match (← get).token.kind with
  | .string => leaf .string
  | .word => leaf .identifier
  | _ => fail

def skipTypeMark : Parser Unit := do
  if g.typed then
    for w in ["type", "typeof"] do
      if ← wordThen w (fun c =>
          (c.token.kind = .word ∧ c.token.text ≠ "as" ∧ c.token.text ≠ "from") ∨
            c.token.kind = .string) then
        word w

def specifier (kind : Kind) : Parser Node := do
  let start ← position
  g.skipTypeMark
  let own ← moduleName
  if ← word? "as" then
    let other ← moduleName
    node kind start [own.as .name, other.as .otherName]
  else node kind start [own.as .name]

def sourcePath : Parser Node := do
  if (← get).token.kind = .string then return (← leaf .string).as .source else fail

def fromClause : Parser Node := do
  word "from"
  sourcePath

def importAttribute? : Parser (List Node) := do
  let start ← position
  if (← seesWord "with") || ((← seesWord "assert") && !(← get).lineBreak) then
    advance
    let inner ← g.object
    return [← node .importAttribute start [inner]]
  else return []

def namespaceImport : Parser Node := do
  let start ← position
  sign "*"
  word "as"
  let own ← name .identifier
  node .namespaceImport start [own]

def namedImports : Parser Node := do
  let start ← position
  sign openBrace
  let items ← listUntil g.limit closeBrace (g.specifier .importSpecifier)
  node .namedImports start items

def importClause : Parser Node := do
  let start ← position
  let group : Parser Node := do if ← seesSign "*" then namespaceImport else g.namedImports
  if (← seesSign "*") || (← seesSign openBrace) then node .importClause start [← group]
  else
    let own ← name .identifier
    if ← sign? "," then node .importClause start [own, ← group]
    else node .importClause start [own]

def importedModule (start : Nat) : Parser Node := do
  if (← get).token.kind = .string then
    let path ← sourcePath
    let attributes ← g.importAttribute?
    semicolon
    node .importStatement start (path :: attributes)
  else
    let clause ← g.importClause
    let path ← fromClause
    let attributes ← g.importAttribute?
    semicolon
    node .importStatement start (clause :: path :: attributes)

def importedRequire (start : Nat) : Parser Node := do
  let s ← position
  let own ← name .identifier
  sign "="
  word "require"
  sign "("
  let path ← sourcePath
  sign ")"
  let inner ← node .importRequire s [own, path]
  semicolon
  node .importStatement start [inner]

def typeMark : Parser Unit := do
  unless (← word? "type") || (← word? "typeof") do fail

def importStatement : Parser Node := do
  let start ← position
  word "import"
  if g.typed then
    g.importedModule start <|> importedRequire start <|>
      (do typeMark; g.importedModule start <|> importedRequire start)
  else g.importedModule start

def exportClause : Parser Node := do
  let start ← position
  sign openBrace
  let items ← listUntil g.limit closeBrace (g.specifier .exportSpecifier)
  node .exportClause start items

def exportList : Parser (List Node) := do
  let start ← position
  if ← sign? "*" then
    if ← word? "as" then
      let own ← moduleName
      let named ← node .namespaceExport start [own]
      return [named, ← fromClause]
    else return [← fromClause]
  else
    let clause ← g.exportClause
    if ← seesWord "from" then return [clause, ← fromClause] else return [clause]

def defaultExport : Parser (List Node) := do
  let mark ← leaf .defaultWord
  let declared ← optional? do
    let isVariables ← seesVariables
    if isVariables then fail
    match ← g.declaration? with
    | some d => return d
    | none => fail
  match declared with
  | some d => return [mark, d.as .declaration]
  | none =>
    let value ← g.assignment
    semicolon
    return [mark, value.as .value]

def exportStatement : Parser Node := do
  let start ← position
  let decoration ← g.decorators
  word "export"
  if (← seesSign "*") || (← seesSign openBrace) then
    let parts ← g.exportList
    let attributes ← g.importAttribute?
    semicolon
    node .exportStatement start (parts ++ attributes)
  else if ← seesWord "default" then
    let parts ← g.defaultExport
    node .exportStatement start (decoration ++ parts)
  else if g.typed && (← seesSign "=") then
    sign "="
    let value ← g.expression
    semicolon
    node .exportStatement start [value]
  else if g.typed && (← wordThen "type" fun c => c.token.text ∈ [openBrace, "*"]) then
    word "type"
    let parts ← g.exportList
    semicolon
    node .exportStatement start parts
  else if g.typed && (← wordThen "as" fun c => c.token = ⟨.word, "namespace"⟩) then
    word "as"
    word "namespace"
    let own ← name .identifier
    semicolon
    node .exportStatement start [own]
  else if g.typed && (← seesWord "import") then
    let inner ← g.importAlias <|> g.importStatement
    node .exportStatement start [inner]
  else
    match ← g.declaration? with
    | some d => node .exportStatement start (decoration ++ [d.as .declaration])
    | none => fail

def wordStatement? (w : String) : Parser (Option Node) := do
  match w with
  | "if" => some <$> g.ifStatement
  | "for" => some <$> (g.forInStatement <|> g.forStatement)
  | "while" => some <$> g.whileStatement
  | "do" => some <$> g.doStatement
  | "switch" => some <$> g.switchStatement
  | "try" => some <$> g.tryStatement
  | "with" => some <$> g.withStatement
  | "break" => some <$> jump "break" .breakStatement
  | "continue" => some <$> jump "continue" .continueStatement
  | "return" => some <$> g.returnStatement
  | "throw" => some <$> g.throwStatement
  | "debugger" => do
    let start ← position
    word "debugger"
    semicolon
    return some (← node .debuggerStatement start [])
  | "export" => some <$> g.exportStatement
  | "import" =>
    if ← wordThen "import" (fun c => c.token.text ∈ ["(", "."]) then return none
    else if g.typed then some <$> (g.importStatement <|> g.importAlias)
    else some <$> g.importStatement
  | _ => return none

def statementRule : Parser Node := do
  let t := (← get).token
  if t = ⟨.sign, openBrace⟩ then g.block
  else if t = ⟨.sign, ";"⟩ then leaf .emptyStatement
  else
    let own ← if t.kind = .word then g.wordStatement? t.text else pure none
    match own with
    | some s => return s
    | none =>
      if t = ⟨.sign, "@"⟩ then g.exportStatement <|> g.classDeclaration
      else
        match ← g.declaration? with
        | some d => return d
        | none =>
          let labelled ← fits do
            let _ ← name .labelIdentifier
            sign ":"
          if labelled then g.labeledStatement else g.expressionStatement

end Grammar

end ComponentDoc.Script
