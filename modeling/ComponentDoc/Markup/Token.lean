import ComponentDoc.Markup.Attribute

/-!
Tokens of markup: tags, comments, expressions in braces and the runs of text between them. They
follow each other without gap, and the tree of elements is built from them alone.
-/

namespace ComponentDoc.Markup

open Text

structure StartTag where
  name : String
  span : Span
  attributes : List Attribute
  selfClosing : Bool
  deriving DecidableEq, Repr

inductive Token
  /-- A run of text, or one expression in braces with its braces. -/
  | text (content : String) (span : Span)
  | comment (content : String) (span : Span)
  | startTag (tag : StartTag)
  /-- A script or style element: its start tag, its content, and the offset after its end tag. -/
  | rawElement (tag : StartTag) (content : String) (stop : Nat)
  | endTag (name : String) (span : Span)
  deriving DecidableEq, Repr

def Token.stop : Token → Nat
  | .text _ span | .comment _ span | .endTag _ span => span.stop
  | .startTag tag => tag.span.stop
  | .rawElement _ _ stop => stop

def voidNames : List String :=
  ["area", "base", "br", "col", "command", "embed", "hr", "img", "input", "keygen", "link", "meta",
   "param", "source", "track", "wbr"]

/-- The content of these elements is no markup. -/
def rawNames : List String := ["script", "style"]

/-- The name is compared by its small letters; the sign for kelvin has a `k` as its small letter. -/
def isVoid (name : String) : Bool :=
  String.ofList (name.toList.map fun c => if c = '\u212A' then 'k' else c.toLower) ∈ voidNames

def isTagNameChar (c : Char) : Bool :=
  isWord c || c == ':' || c == '.' || c == '-'

def tagName? : List Char → Option (List Char)
  | [] => none
  | c :: rest => if isAsciiLetter c then some (c :: rest.takeWhile isTagNameChar) else none

/-- The length of the end tag of `name` that a text starts with; only blanks may follow the name. -/
def endTagLength? (name text : List Char) : Option Nat :=
  match dropStart? ('<' :: '/' :: name) text with
  | none => none
  | some after =>
    match trimStart after with
    | '>' :: _ => some (name.length + (after.takeWhile isBlank).length + 3)
    | _ => none

/-- The first end tag of `name`: the number of characters before it, and its length. -/
def findEndTag? (name : List Char) : List Char → Option (Nat × Nat)
  | [] => none
  | c :: rest =>
    match endTagLength? name (c :: rest) with
    | some n => some (0, n)
    | none => (findEndTag? name rest).map fun r => (r.1 + 1, r.2)

def startToken (pos : Nat) (name text : List Char) : Except ParseError Token :=
  let label := String.ofList name
  let nameEnd := pos + 1 + name.length
  match tagRest label pos 0 nameEnd (text.drop (name.length + 1)) with
  | .error e => .error e
  | .ok r =>
    let tag : StartTag := ⟨label, ⟨pos, r.stop⟩, r.attributes, r.selfClosing⟩
    if r.selfClosing || !(label ∈ rawNames) then .ok (.startTag tag)
    else
      let content := text.drop (r.stop - pos)
      match findEndTag? name content with
      | none => .error (.at (.elementLeftOpen label) pos r.stop)
      | some (before, length) =>
        .ok (.rawElement tag (String.ofList (content.take before)) (r.stop + before + length))

def commentStart : List Char := ['<', '!', '-', '-']

def commentStop : List Char := ['-', '-', '>']

def nextToken (pos : Nat) (c : Char) (rest : List Char) : Except ParseError Token :=
  let text := c :: rest
  if commentStart.isPrefixOf text then
    match indexOf? commentStop (text.drop 4) with
    | none => .error (.at .openComment pos (pos + text.length))
    | some i => .ok (.comment (String.ofList (text.take (i + 7))) ⟨pos, pos + i + 7⟩)
  else if ['<', '/'].isPrefixOf text then
    match indexOf? ['>'] text with
    | none => .error (.at .openClosingTag pos (pos + text.length))
    | some i => .ok (.endTag (String.ofList (trim (slice 2 i text))) ⟨pos, pos + i + 1⟩)
  else
    match (if c = '<' then tagName? rest else none) with
    | some name => startToken pos name text
    | none =>
      if c = '{' then do
        let stop ← skipExpression pos text
        return .text (String.ofList (text.take (stop - pos))) ⟨pos, stop⟩
      else
        let run := c :: rest.takeWhile fun c => c != '<' && c != '{'
        .ok (.text (String.ofList run) ⟨pos, pos + run.length⟩)

/-- Reads tokens to the end or up to the first error. The first number counts the characters of a
token that are still to be stepped over. -/
def tokensFrom : Nat → Nat → List Char → List Token × Option ParseError
  | _, _, [] => ([], none)
  | k + 1, pos, _ :: rest => tokensFrom k (pos + 1) rest
  | 0, pos, c :: rest =>
    match nextToken pos c rest with
    | .error e => ([], some e)
    | .ok t =>
      let (more, e) := tokensFrom (t.stop - pos - 1) (pos + 1) rest
      (t :: more, e)

/-- The tokens of a text up to the first error. -/
def tokens (text : List Char) : List Token × Option ParseError := tokensFrom 0 0 text

end ComponentDoc.Markup
