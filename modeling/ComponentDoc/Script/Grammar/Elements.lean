import ComponentDoc.Script.Grammar.Basic

/-!
Elements in angle brackets, as plain scripts may have them. Between the tags of an element stands
text, in which blanks and the marks of comments mean nothing.
-/

namespace ComponentDoc.Script

open Script.Parser

namespace Grammar

variable (g : Grammar)

def hyphenName (kind : Kind) : Parser Node := do
  let c ← get
  unless c.token.kind = .word do fail
  let own := c.rest.takeWhile fun c => isNamePart c || c == '-'
  let start ← position
  advanceBy own.length true
  node kind start []

def elementName : Parser Node := do
  let start ← position
  let first ← hyphenName .identifier
  if ← sign? ":" then
    node .jsxNamespaceName start [first, ← hyphenName .identifier]
  else
    let members ← collect (do
      if ← sign? "." then return some (← anyWord .propertyIdentifier) else return none) g.limit
    if members.isEmpty then return first
    node .memberExpression start (first :: members)

def elementExpression : Parser Node := do
  let start ← position
  sign openBrace
  let inner ←
    if ← seesSign closeBrace then pure []
    else if ← seesSign "..." then do
      let s ← position
      sign "..."
      pure [← node .spreadElement s [← g.assignment]]
    else pure [← g.expression]
  unless ← seesSign closeBrace do fail
  return ⟨.jsxExpression, none, ⟨start, (← get).pos + 1⟩, inner⟩

def elementString : Parser Node := do
  let c ← get
  match c.rest with
  | q :: rest =>
    if q ≠ '"' ∧ q ≠ '\'' then fail
    let inside := rest.takeWhile (· != q)
    if inside.length = rest.length then fail
    let start ← position
    advanceBy (inside.length + 2) true
    node .string start []
  | [] => fail

def elementAttribute : Parser Node := do
  let start ← position
  if ← seesSign openBrace then
    let e ← g.elementExpression
    sign closeBrace
    return e
  else
    let first ← hyphenName .propertyIdentifier
    let own ←
      if ← sign? ":" then
        node .jsxNamespaceName start
          [{ first with kind := .identifier }, ← hyphenName .identifier]
      else pure first
    let value ←
      if ← sign? "=" then
        if ← seesSign openBrace then do
          let e ← g.elementExpression
          sign closeBrace
          pure [e]
        else if ← seesSign "<" then do
          let e ← g.parse .element
          closeAngle
          pure [e]
        else pure [← elementString]
      else pure []
    node .jsxAttribute start (own :: value)

/-- The children and the closing tag of an element of which `rest` is left; the last angle bracket
is left to come. The first number bounds the count of children. -/
def elementContent : Nat → List Char → Nat → Parser (List Node)
  | 0, _, _ => fail
  | n + 1, rest, pos => do
    let text := rest.takeWhile fun c => !(c ∈ ['<', '>', '{', '}'])
    let pos := pos + byteLength text
    match rest.drop text.length with
    | [] => fail
    | '{' :: after =>
      resume false ('{' :: after) pos
      let e ← g.elementExpression
      let c ← get
      return e :: (← elementContent n (c.rest.drop 1) (c.pos + 1))
    | '>' :: _ | '}' :: _ => fail
    | after =>
      resume false after pos
      let closing ← fits do sign "<"; sign "/"
      if closing then
        sign "<"
        sign "/"
        let own ← if ← seesCloseAngle then pure [] else pure [← g.elementName]
        unless ← seesCloseAngle do fail
        return [⟨.jsxClosingElement, none, ⟨pos, (← get).pos + 1⟩, own⟩]
      else
        let e ← g.parse .element
        let c ← get
        return e :: (← elementContent n (c.rest.drop 1) (c.pos + 1))

def elementRule : Parser Node := do
  let start ← position
  sign "<"
  let opening ←
    if ← seesCloseAngle then pure []
    else do
      let own ← g.elementName
      let attributes ← collect (do
        if (← seesCloseAngle) || (← seesSign "/") then return none
        return some (← g.elementAttribute)) g.limit
      pure (own.as .name :: attributes)
  if ← sign? "/" then
    unless ← seesCloseAngle do fail
    return ⟨.jsxSelfClosingElement, none, ⟨start, (← get).pos + 1⟩, opening⟩
  else
    unless ← seesCloseAngle do fail
    let c ← get
    let first : Node := ⟨.jsxOpeningElement, none, ⟨start, c.pos + 1⟩, opening⟩
    let content ← g.elementContent g.limit (c.rest.drop 1) (c.pos + 1)
    return ⟨.jsxElement, none, ⟨start, (← get).pos + 1⟩, first :: content⟩

end Grammar

end ComponentDoc.Script
