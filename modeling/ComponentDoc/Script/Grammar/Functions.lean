import ComponentDoc.Script.Grammar.Types

namespace ComponentDoc.Script

open Script.Parser

namespace Grammar

variable (g : Grammar)

def functionRule (isDeclaration : Bool) : Parser Node := do
  let start ← position
  if ← wordThen "async" (fun c => c.token = ⟨.word, "function"⟩ ∧ !c.lineBreak) then word "async"
  word "function"
  let generates ← sign? "*"
  let own ← if isDeclaration then some <$> name .identifier else optional? (name .identifier)
  let signature ← g.callSignature
  let before := (own.map (·.as .name)).toList ++ signature
  if g.typed && isDeclaration && !(← seesSign openBrace) then
    semicolon
    node .functionSignature start before
  else
    let body ← g.block
    let kind : Kind :=
      match isDeclaration, generates with
      | true, false => .functionDeclaration
      | true, true => .generatorFunctionDeclaration
      | false, false => .functionExpression
      | false, true => .generatorFunction
    node kind start (before ++ [body.as .body])

def arrowBody (allowIn : Bool) : Parser Node := do
  if ← seesSign openBrace then g.block else g.parse (.assignment allowIn)

def arrowFunction (allowIn : Bool) : Parser Node := do
  let start ← position
  if ← wordThen "async" (fun c =>
      c.token.text ∈ ["(", "<"] || (c.token.kind = .word && !c.lineBreak)) then word "async"
  let signature ← (do
      let own ← name .identifier
      return [own.as .parameter]) <|> g.callSignature
  sign "=>"
  let body ← g.arrowBody allowIn
  node .arrowFunction start (signature ++ [body.as .body])

def mayStartArrow : Parser Bool := do
  let t := (← get).token
  if t = ⟨.sign, "("⟩ ∨ t = ⟨.word, "async"⟩ then return true
  if t = ⟨.sign, "<"⟩ then return g.typed
  if t.kind = .word then fits do
    let _ ← name .identifier
    sign "=>"
  else return false

def methodRest (start : Nat) (before : List Node) (key : Node) (mayLackBody : Bool) :
    Parser Node := do
  let signature ← g.callSignature
  let parts := before ++ key.as .name :: signature
  if mayLackBody && !(← seesSign openBrace) then
    semicolon
    node .typeMember start parts
  else
    let body ← g.block
    node .methodDefinition start (parts ++ [body.as .body])

def seesSignature : Parser Bool := do
  if ← seesSign "(" then return true
  return g.typed && (← seesSign "<")

def memberWords : List String :=
  if g.typed then
    ["static", "async", "get", "set", "accessor", "declare", "abstract"] ++ accessWords
  else ["static", "async", "get", "set", "accessor"]

def namedClassMember (start : Nat) (decoration : List Node) : Parser Node := do
  g.skipModifiers g.memberWords
  let _ ← sign? "*"
  let key ← g.propertyName
  if g.typed then
    let _ ← sign? "?"
    let _ ← sign? "!"
  if ← g.seesSignature then g.methodRest start decoration key g.typed
  else
    let declared ← if g.typed then g.typeClause? else pure none
    let value ← g.initializer? true
    semicolon
    node .fieldDefinition start (decoration ++ key.as .property ::
      (declared.map (·.as .declared)).toList ++ (value.map (·.as .value)).toList)

def classMember : Parser Node := do
  let start ← position
  let decoration ← g.decorators
  if ← wordThen "static" (fun c => c.token = ⟨.sign, openBrace⟩) then
    word "static"
    let body ← g.block
    node .classStaticBlock start [body.as .body]
  else if g.typed then
    let indexed ← optional? do
      g.skipModifiers g.memberWords
      let m ← g.indexMember
      semicolon
      return m
    match indexed with
    | some m => return m
    | none => g.namedClassMember start decoration
  else g.namedClassMember start decoration

def classBody : Parser Node := do
  let start ← position
  sign openBrace
  let members ← collect (do
    let _ ← collect (do if ← sign? ";" then return some () else return none) g.limit
    if ← seesSign closeBrace then return none
    return some (← g.classMember)) g.limit
  sign closeBrace
  node .classBody start members

def classHeritage? (superclass : Parser Node) : Parser (List Node) := do
  let start ← position
  let base ← if ← word? "extends" then some <$> superclass else pure none
  let more ← if g.typed && (← seesWord "implements") then
      word "implements"
      joined
    else pure []
  match base.toList ++ more with
  | [] => return []
  | parts => return [← node .classHeritage start parts]
where
  joined : Parser (List Node) := do
    let first ← g.type
    let rest ← collect (do if ← sign? "," then return some (← g.type) else return none) g.limit
    return first :: rest

def classRule (superclass : Parser Node) (isDeclaration : Bool) (start : Nat)
    (decoration : List Node) : Parser Node := do
  let isAbstract ← if g.typed && isDeclaration then word? "abstract" else pure false
  word "class"
  let named ← fits (do let _ ← name .identifier; if (← get).token = ⟨.sign, "=>"⟩ then fail)
  let implements ← wordThen "implements" fun c => c.token.kind = .word
  let own ← if named && !(g.typed && implements) then
      some <$> name (if g.typed then .typeIdentifier else .identifier)
    else pure none
  if isDeclaration && own.isNone then fail
  let generic ← g.typeParameters?
  let heritage ← g.classHeritage? superclass
  let body ← g.classBody
  let kind : Kind :=
    if isAbstract then .abstractClassDeclaration
    else if isDeclaration then .classDeclaration
    else .classExpression
  node kind start (decoration ++ (own.map (·.as .name)).toList ++ generic ++ heritage ++
    [body.as .body])

end Grammar

end ComponentDoc.Script
