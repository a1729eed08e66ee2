import ComponentDoc.Script.Grammar.Basic

/-!
Types of typed scripts. A type matters only by its extent and by the names of values in it, so all
forms of types share one kind of node.
-/

namespace ComponentDoc.Script

open Script.Parser

namespace Grammar

variable (g : Grammar)

def typeClause : Parser Node := do
  let start ← position
  sign ":"
  node .typeClause start [← g.type]

def typeClause? : Parser (Option Node) := do
  if ← seesSign ":" then return some (← g.typeClause) else return none

def typeArguments : Parser Node := do
  let start ← position
  node .typeArguments start (← g.angleList g.type)

def typeParameter : Parser Node := do
  let start ← position
  for w in ["const", "in", "out"] do
    if ← wordThen w (fun c => c.token.kind = .word ∧ c.token.text ≠ "extends") then word w
  let own ← name .typeIdentifier
  let bound ← if ← word? "extends" then some <$> g.type else pure none
  let default ← if ← sign? "=" then some <$> g.type else pure none
  node .typeExpression start (own :: bound.toList ++ default.toList)

def typeParameters? : Parser (List Node) := do
  if g.typed && (← seesSign "<") then
    let start ← position
    let own ← g.angleList g.typeParameter
    return [← node .typeParameters start own]
  else return []

def claimSubject : Parser Node := do
  if ← seesWord "this" then leaf .thisExpression else name .identifier

def claim : Parser Node := do
  let start ← position
  let asserting ← wordThen "asserts" fun c => c.token.kind = .word ∧ !c.lineBreak
  if asserting then word "asserts"
  let who ← claimSubject
  if (← seesWord "is") && !(← get).lineBreak then
    word "is"
    let what ← g.type
    node .typeExpression start [who, what]
  else if asserting then node .typeExpression start [who]
  else fail

def returned : Parser Node := g.claim <|> g.type

def returnType? : Parser (List Node) := do
  if g.typed && (← seesSign ":") then
    let start ← position
    sign ":"
    let inner ← g.returned
    return [(← node .typeClause start [inner]).as .declared]
  else return []

def accessWords : List String :=
  ["public", "private", "protected", "override", "readonly"]

def skipModifiers (modifiers : List String) : Parser Unit := do
  let _ ← collect (do
    let t := (← get).token
    if t.kind = .word ∧ t.text ∈ modifiers then
      let modifies ← wordThen t.text fun c =>
        c.token.kind ∈ [.word, .string, .number, .privateName] ∨
          c.token.text ∈ ["[", openBrace, "..."] ∨ (c.token.text = "*" ∧ !c.lineBreak)
      if modifies then advance; return some () else return none
    else return none) g.limit
  return

def typedParameter : Parser Node := do
  let decoration ← g.decorators
  let start ← match decoration with
    | d :: _ => pure d.span.start
    | [] => position
  g.skipModifiers accessWords
  let target ←
    if ← seesSign "..." then g.restBinding
    else if ← seesWord "this" then leaf .thisExpression
    else g.parse .binding
  let mayLack ← sign? "?"
  let declared ← g.typeClause?
  let value ← g.initializer? true
  node (if mayLack then .optionalParameter else .requiredParameter) start
    (decoration ++ target.as .pattern :: (declared.map (·.as .declared)).toList ++
      (value.map (·.as .value)).toList)

def plainParameter : Parser Node := do
  if ← seesSign "..." then g.restBinding else g.bindingElement

def formalParameters : Parser Node := do
  let start ← position
  sign "("
  let own ← listUntil g.limit ")" (if g.typed then g.typedParameter else g.plainParameter)
  node .formalParameters start own

def callSignature : Parser (List Node) := do
  let generic ← g.typeParameters?
  let parameters ← g.formalParameters
  let result ← g.returnType?
  return generic ++ parameters.as .parameters :: result

def functionType : Parser Node := do
  let start ← position
  let _ ← if ← wordThen "abstract" (fun c => c.token = ⟨.word, "new"⟩) then word? "abstract"
    else pure false
  let _ ← word? "new"
  let generic ← g.typeParameters?
  let parameters ← g.formalParameters
  sign "=>"
  let result ← g.returned
  node .typeExpression start (generic ++ [parameters, result])

def dottedName (lastKind : Kind) : Parser (List Node) := do
  let first ← position
  let single ← fits do
    let _ ← anyWord .identifier
    if ← seesSign "." then fail
  if single then
    return [← anyWord lastKind]
  else
    let head ← anyWord .identifier
    let members ← collect (do
      if ← sign? "." then return some (← anyWord .propertyIdentifier) else return none) g.limit
    if members.isEmpty then fail
    let inner ← node .memberExpression first (head :: members)
    return [inner]

def namedType : Parser Node := do
  let start ← position
  let own ← g.dottedName .typeIdentifier
  if (← seesSign "<") && !(← get).lineBreak then
    let args ← g.typeArguments
    node .typeExpression start (own ++ [args])
  else node .typeExpression start own

def importType : Parser Node := do
  let start ← position
  word "import"
  sign "("
  let path ← g.type
  sign ")"
  let members ← collect (do
    if ← sign? "." then return some (← anyWord .propertyIdentifier) else return none) g.limit
  let args ← if ← seesSign "<" then some <$> g.typeArguments else pure none
  node .typeExpression start (path :: members ++ args.toList)

def typeQuery : Parser Node := do
  let start ← position
  word "typeof"
  let value ← if ← seesWord "import" then List.singleton <$> g.importType
    else g.dottedName .identifier
  let args ← if (← seesSign "<") && !(← get).lineBreak then some <$> g.typeArguments else pure none
  node .typeExpression start (value ++ args.toList)

def tupleElement : Parser Node := do
  let start ← position
  let _ ← sign? "..."
  let labelled ← fits do
    let _ ← anyWord .identifier
    let _ ← sign? "?"
    sign ":"
  if labelled then
    let own ← anyWord .identifier
    let _ ← sign? "?"
    sign ":"
    let inner ← g.type
    node .typeExpression start [own, inner]
  else
    let inner ← g.type
    let _ ← sign? "?"
    node .typeExpression start [inner]

def memberEnd : Parser Unit := do
  if ← sign? ";" then return
  if ← sign? "," then return
  let c ← get
  if c.lineBreak ∨ c.token = ⟨.sign, closeBrace⟩ then return
  fail

def indexMember : Parser Node := do
  let start ← position
  let _ ← sign? "+"
  let _ ← sign? "-"
  let _ ← word? "readonly"
  sign "["
  let keys ← (do
    let key ← name .identifier
    sign ":"
    return [key, ← g.type]) <|> (do
    let key ← name .typeIdentifier
    word "in"
    let names ← g.type
    let renamed ← if ← word? "as" then some <$> g.type else pure none
    return key :: names :: renamed.toList)
  sign "]"
  let _ ← sign? "+"
  let _ ← sign? "-"
  let _ ← sign? "?"
  let value ← g.typeClause?
  node .typeMember start (keys ++ value.toList)

def namedMember : Parser Node := do
  let start ← position
  if (← seesSign "(") || (← seesSign "<") then
    node .typeMember start (← g.callSignature)
  else if ← wordThen "new" (fun c => c.token.text ∈ ["(", "<"]) then
    word "new"
    node .typeMember start (← g.callSignature)
  else
    g.skipModifiers ["readonly", "public", "private", "protected", "static", "override", "get",
      "set", "abstract", "declare"]
    let key ← g.propertyName
    let _ ← sign? "?"
    let _ ← sign? "!"
    if (← seesSign "(") || (← seesSign "<") then
      node .typeMember start (key :: (← g.callSignature))
    else
      let value ← g.typeClause?
      node .typeMember start (key :: value.toList)

def objectType : Parser Node := do
  let start ← position
  sign openBrace
  let members ← collect (do
    if ← seesSign closeBrace then return none
    let m ← g.indexMember <|> g.namedMember
    memberEnd
    return some m) g.limit
  sign closeBrace
  node .typeExpression start members

def simpleType : Parser Node := do
  let start ← position
  let t := (← get).token
  match t.kind with
  | .string => leaf .string
  | .number => leaf .number
  | .word =>
    if t.text = "typeof" then g.typeQuery
    else if t.text = "import" then g.importType
    else if t.text ∈ ["keyof", "unique", "readonly", "infer"] then fail
    else if t.text ∈ ["this", "null", "true", "false", "void", "undefined", "const"] then
      leaf .typeIdentifier
    else if ← seesName then g.namedType
    else fail
  | .sign =>
    match t.text with
    | "(" => do
      sign "("
      let inner ← g.type
      sign ")"
      node .typeExpression start [inner]
    | "[" => do
      sign "["
      let items ← listUntil g.limit "]" g.tupleElement
      node .typeExpression start items
    | "\x7b" => g.objectType
    | "`" => do
      let parts ← template { g with parse := fun _ => g.parse .type }
      node .typeExpression start [parts]
    | "-" => do
      sign "-"
      let n ← if (← get).token.kind = .number then leaf .number else fail
      node .typeExpression start [n]
    | "?" => do
      sign "?"
      node .typeExpression start [← g.type]
    | "*" => leaf .typeIdentifier
    | _ => fail
  | _ => fail

def postfixType : Parser Node := do
  let start ← position
  extend (fun t => do
    if (← seesSign "[") && !(← get).lineBreak then
      sign "["
      if ← sign? "]" then return some (← node .typeExpression start [t])
      let index ← g.type
      sign "]"
      return some (← node .typeExpression start [t, index])
    else return none) g.limit (← g.simpleType)

def operatorType : Parser Node := do
  let start ← position
  let operators ← collect (do
    let t := (← get).token
    if t.kind = .word ∧ t.text ∈ ["keyof", "unique", "readonly"] then advance; return some ()
    else return none) g.limit
  if ← word? "infer" then
    let own ← name .typeIdentifier
    let bound ← if ← word? "extends" then pure [← g.type] else pure []
    node .typeExpression start (own :: bound)
  else
    let inner ← g.postfixType
    if operators.isEmpty then return inner else node .typeExpression start [inner]

def joinedTypes (s : String) (p : Parser Node) : Parser Node := do
  let start ← position
  let led ← sign? s
  let first ← p
  let more ← collect (do if ← sign? s then return some (← p) else return none) g.limit
  if !led && more.isEmpty then return first
  node .typeExpression start (first :: more)

def typeRule : Parser Node := do
  let start ← position
  let t := (← get).token
  let isFunction := t = ⟨.sign, "("⟩ ∨ t = ⟨.sign, "<"⟩ ∨ t = ⟨.word, "new"⟩ ∨
    t = ⟨.word, "abstract"⟩
  match ← (if isFunction then optional? g.functionType else pure none) with
  | some f => return f
  | none =>
    let subject ← g.joinedTypes "|" (g.joinedTypes "&" g.operatorType)
    if (← seesWord "extends") && !(← get).lineBreak then
      let conditional ← optional? do
        word "extends"
        let bound ← g.type
        sign "?"
        let yes ← g.type
        sign ":"
        let no ← g.type
        node .typeExpression start [subject, bound, yes, no]
      return conditional.getD subject
    else return subject

end Grammar

end ComponentDoc.Script
