import ComponentDoc.Script.Grammar.Elements
import ComponentDoc.Script.Grammar.Functions
import ComponentDoc.Script.Grammar.Patterns

namespace ComponentDoc.Script

open Script.Parser

namespace Grammar

variable (g : Grammar)

def spread : Parser Node := do
  let start ← position
  sign "..."
  node .spreadElement start [← g.assignment]

def spreadOrExpression : Parser Node := do
  if ← seesSign "..." then g.spread else g.assignment

def array : Parser Node := do
  let start ← position
  sign "["
  let items ← collect (do
    if ← seesSign "]" then return none
    if ← sign? "," then return some none
    let item ← g.spreadOrExpression
    unless ← seesSign "]" do sign ","
    return some (some item)) g.limit
  sign "]"
  node .array start (items.filterMap id)

/-- An entry of an object. A name with a default is let through here: the object may turn out to be
a pattern. -/
def objectEntry : Parser Node := do
  let start ← position
  if ← seesSign "..." then g.spread
  else
    g.skipModifiers ["async", "get", "set"]
    let starred ← sign? "*"
    let modified := (← position) ≠ start || starred
    let mayBeShort ← seesName
    let key ← g.propertyName
    if ← g.seesSignature then g.methodRest start [] key false
    else if modified then fail
    else if ← sign? ":" then
      let value ← g.assignment
      node .pair start [key.as .key, value.as .value]
    else if mayBeShort then
      match ← g.initializer? true with
      | some value =>
        node .objectAssignmentPattern start
          [{ key with kind := .shorthandPropertyIdentifierPattern, field := some .left },
            value.as .right]
      | none => return { key with kind := .shorthandPropertyIdentifier }
    else fail

def object : Parser Node := do
  let start ← position
  sign openBrace
  let entries ← listUntil g.limit closeBrace g.objectEntry
  node .object start entries

def parenthesized : Parser Node := do
  let start ← position
  sign "("
  let inner ← g.expression
  sign ")"
  node .parenthesizedExpression start [inner]

def regex : Parser Node := do
  let start ← position
  let c ← get
  match regexRest false (c.rest.drop 1) with
  | none => fail
  | some after =>
    advanceBy (c.rest.length - after.length) true
    node .regex start []

def arguments : Parser Node := do
  let start ← position
  sign "("
  let items ← listUntil g.limit ")" g.spreadOrExpression
  node .arguments start items

def memberName : Parser Node := do
  match (← get).token.kind with
  | .word => leaf .propertyIdentifier
  | .privateName => leaf .privatePropertyIdentifier
  | _ => fail

def seesNoOperand : Parser Bool := do
  let c ← get
  match c.token.kind with
  | .stop => return true
  | .sign =>
    return !(c.token.text ∈
      ["(", "[", openBrace, "`", "+", "-", "!", "~", "++", "--", "/", "<", "@"])
  | .word => return c.lineBreak || c.token.text ∈ ["as", "satisfies", "in", "instanceof", "of"]
  | _ => return c.lineBreak

def appliedTypes (always : Bool) : Parser Node := do
  let args ← g.typeArguments
  if always || (← seesSign "(") || (← seesSign "`") || (← seesNoOperand) then return args else fail

def subscript (start : Nat) (e : Node) : Parser Node := do
  sign "["
  let index ← g.expression
  sign "]"
  node .subscriptExpression start [e, index]

def call (start : Nat) (e : Node) (types : List Node) : Parser Node := do
  let args ← if ← seesSign "`" then g.template else g.arguments
  node .callExpression start (e.as .callee :: types ++ [args.as .arguments])

/-- What may follow an operand `e` that began at `start`: a member, an index, arguments. With
`noCalls` only members and indices; with `always` types in angle brackets need no call after
them. -/
def operandStep (noCalls always : Bool) (start : Nat) (e : Node) : Parser (Option Node) := do
  let c ← get
  match c.token.kind, c.token.text with
  | .sign, "." => do
    advance
    let own ← memberName
    return some (← node .memberExpression start [e, own.as .property])
  | .sign, "?." => do
    if noCalls then fail
    advance
    if ← seesSign "[" then some <$> g.subscript start e
    else if (← seesSign "(") || (← seesSign "`") then some <$> g.call start e []
    else if g.typed && (← seesSign "<") then some <$> g.call start e [← g.typeArguments]
    else
      let own ← memberName
      return some (← node .memberExpression start [e, own.as .property])
  | .sign, "[" => some <$> g.subscript start e
  | .sign, "(" => if noCalls then return none else some <$> g.call start e []
  | .sign, "`" => if noCalls then return none else some <$> g.call start e []
  | .sign, "!" => do
    if !g.typed || c.lineBreak then return none
    advance
    return some (← node .nonNullExpression start [e])
  | .sign, "<" => do
    if !g.typed || noCalls then return none
    match ← optional? (g.appliedTypes always) with
    | none => return none
    | some types =>
      if (← seesSign "(") || (← seesSign "`") then some <$> g.call start e [types]
      else return some (← node .instantiationExpression start [e, types])
  | _, _ => return none

def newExpression (operand : Parser Node) : Parser Node := do
  let start ← position
  word "new"
  if ← sign? "." then
    word "target"
    node .metaProperty start []
  else
    let first ← position
    let base ← extend (g.operandStep true false first) g.limit (← operand)
    let types ← if g.typed && (← seesSign "<") then optional? g.typeArguments else pure none
    let args ← if ← seesSign "(" then some <$> g.arguments else pure none
    node .newExpression start (base.as .constructed :: types.toList ++
      (args.map (·.as .arguments)).toList)

def importExpression : Parser Node := do
  let start ← position
  let own ← leaf .importCallee
  if ← sign? "." then
    let _ ← anyWord .propertyIdentifier
    node .metaProperty start []
  else if ← seesSign "(" then return own
  else fail

def wordOperand (w : String) (superclass operand : Parser Node) : Parser Node := do
  match w with
  | "function" => g.functionRule false
  | "class" => g.classRule superclass false (← position) []
  | "this" => leaf .thisExpression
  | "super" => leaf .superExpression
  | "null" => leaf .nullLiteral
  | "true" => leaf .trueLiteral
  | "false" => leaf .falseLiteral
  | "undefined" => leaf .undefinedLiteral
  | "new" => g.newExpression operand
  | "import" => importExpression
  | _ =>
    if ← wordThen "async" (fun c => c.token = ⟨.word, "function"⟩ ∧ !c.lineBreak) then
      g.functionRule false
    else name .identifier

/-- An operand without what may follow it. The number bounds how deep operands nest that need no
bracket between them. -/
def operand : Nat → Parser Node
  | 0 => fail
  | n + 1 => do
    let superclass : Parser Node := do
      let start ← position
      extend (g.operandStep false true start) g.limit (← operand n)
    let t := (← get).token
    match t.kind with
    | .word => g.wordOperand t.text superclass (operand n)
    | .number => leaf .number
    | .string => leaf .string
    | .sign =>
      match t.text with
      | "(" => g.parenthesized
      | "[" => g.array
      | "\x7b" => g.object
      | "`" => g.template
      | "/" | "/=" => regex
      | "@" => do
        let start ← position
        let decoration ← g.decorators
        g.classRule superclass false start decoration
      | "<" =>
        if g.typed then fail
        else do
          let e ← g.parse .element
          closeAngle
          return e
      | _ => fail
    | _ => fail

def postfixOperand : Parser Node := do
  let start ← position
  let e ← extend (g.operandStep false false start) g.limit (← g.operand g.limit)
  let c ← get
  if !c.lineBreak ∧ (c.token = ⟨.sign, "++"⟩ ∨ c.token = ⟨.sign, "--"⟩) then
    advance
    node .updateExpression start [e.as .argument]
  else return e

def unaryRule : Parser Node := do
  let start ← position
  let t := (← get).token
  if t.text ∈ ["!", "~", "+", "-"] ∧ t.kind = .sign ∨
      t.text ∈ ["typeof", "void", "delete"] ∧ t.kind = .word then
    let s ← leaf .sign
    let e ← g.parse .unary
    node .unaryExpression start [s.as .operator, e.as .argument]
  else if t = ⟨.sign, "++"⟩ ∨ t = ⟨.sign, "--"⟩ then
    advance
    let e ← g.parse .unary
    node .updateExpression start [e.as .argument]
  else if t = ⟨.word, "await"⟩ then
    (do
      advance
      let e ← g.parse .unary
      node .awaitExpression start [e]) <|> g.postfixOperand
  else if g.typed && t = ⟨.sign, "<"⟩ then
    let types ← g.typeArguments
    let e ← g.parse .unary
    node .typeAssertion start [types, e]
  else if t.kind = .privateName then
    let own ← leaf .privatePropertyIdentifier
    if ← seesWord "in" then return own else fail
  else g.postfixOperand

def level? (allowIn : Bool) (t : Token) : Option Nat :=
  match t.kind with
  | .word =>
    if t.text = "instanceof" ∨ (t.text = "in" ∧ allowIn) then some 7 else none
  | .sign =>
    match t.text with
    | "||" | "??" => some 1
    | "&&" => some 2
    | "|" => some 3
    | "^" => some 4
    | "&" => some 5
    | "==" | "!=" | "===" | "!==" => some 6
    | "<" | ">" | "<=" | ">=" => some 7
    | "<<" | ">>" | ">>>" => some 8
    | "+" | "-" => some 9
    | "*" | "/" | "%" => some 10
    | "**" => some 11
    | _ => none
  | _ => none

/-- An operator and its right operand after `left`, if the operator binds at least as tightly as
`level`. -/
def operationStep (level : Nat) (allowIn : Bool) (start : Nat) (left : Node) :
    Parser (Option Node) := do
  let c ← get
  if g.typed ∧ c.token.kind = .word ∧ !c.lineBreak ∧ c.token.text ∈ ["as", "satisfies"] ∧
      level ≤ 7 then
    advance
    let t ← g.type
    let kind : Kind := if c.token.text = "as" then .asExpression else .satisfiesExpression
    return some (← node kind start [left, t])
  match level? allowIn c.token with
  | none => return none
  | some l =>
    if l < level then return none
    advance
    let right ← g.parse (.operation (if l = 11 then 11 else l + 1) allowIn)
    return some (← node .binaryExpression start [left.as .left, right.as .right])

def operationRule (level : Nat) (allowIn : Bool) : Parser Node := do
  let start ← position
  extend (g.operationStep level allowIn start) g.limit (← g.parse .unary)

/-- An operation, or a choice between two expressions by one. An expression in brackets before a
colon may look like parameters and a result type. -/
def conditional (allowIn : Bool) : Parser Node := do
  let start ← position
  let test ← g.parse (.operation 1 allowIn)
  if ← sign? "?" then
    let bracketed := g.typed && (← seesSign "(")
    let branches (first : Parser Node) : Parser (List Node) := do
      let yes ← first
      sign ":"
      return [yes, ← g.parse (.assignment allowIn)]
    let chosen ← branches g.assignment <|>
      if bracketed then branches (g.parse (.operation 1 true)) else fail
    node .ternaryExpression start (test :: chosen)
  else return test

def assigningSigns : List String :=
  ["+=", "-=", "*=", "/=", "%=", "**=", "<<=", ">>=", ">>>=", "&=", "|=", "^=", "&&=", "||=", "??="]

def yieldExpression (allowIn : Bool) : Parser Node := do
  let start ← position
  word "yield"
  let value ←
    if (← get).lineBreak then pure none
    else if ← sign? "*" then some <$> g.parse (.assignment allowIn)
    else optional? (g.parse (.assignment allowIn))
  node .yieldExpression start value.toList

def assignmentRule (allowIn : Bool) : Parser Node := do
  let start ← position
  if ← seesWord "yield" then g.yieldExpression allowIn
  else
    match ← (if ← g.mayStartArrow then optional? (g.arrowFunction allowIn) else pure none) with
    | some f => return f
    | none =>
      let left ← g.conditional allowIn
      let t := (← get).token
      if t = ⟨.sign, "="⟩ then
        unless left.isTarget do fail
        advance
        let right ← g.parse (.assignment allowIn)
        node .assignmentExpression start [left.toPattern.as .left, right.as .right]
      else if t.kind = .sign ∧ t.text ∈ assigningSigns then
        unless left.isPlainTarget do fail
        advance
        let right ← g.parse (.assignment allowIn)
        node .augmentedAssignmentExpression start [left.as .left, right.as .right]
      else return left

def sequenceRule (allowIn : Bool) : Parser Node := do
  let start ← position
  let first ← g.parse (.assignment allowIn)
  let more ← collect (do
    if ← sign? "," then return some (← g.parse (.assignment allowIn)) else return none) g.limit
  if more.isEmpty then return first
  node .sequenceExpression start (first :: more)

end Grammar

end ComponentDoc.Script
