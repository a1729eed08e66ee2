import ComponentDoc.Failure
import ComponentDoc.Literal.Escape
import ComponentDoc.Script.Reader
import ComponentDoc.Text.Blank
import ComponentDoc.Text.Search

namespace ComponentDoc.Script

/-- For every byte of a text, and for its end, the number of the character there; the first character
has the number `first`. -/
def charTable (first : Nat) : List Char → List Nat
  | [] => [first]
  | c :: rest => List.replicate c.utf8Size first ++ charTable (first + 1) rest

structure Source where
  text : List Char
  /-- The offset of the script in the document. An expression of the markup stands in parentheses
  of which the document knows nothing, so this may be negative. -/
  offset : Int
  /-- The text has characters of more than one byte. -/
  wide : Bool
  root : Node

namespace Source

def charAt (s : Source) (n : Nat) : Nat :=
  if s.wide then (charTable 0 s.text).getD n s.text.length else n

def charOffset (s : Source) (n : Nat) : Nat := (s.offset + s.charAt n).toNat

def locOfBytes (s : Source) (bytes : Span) : Span :=
  ⟨s.charOffset bytes.start, s.charOffset bytes.stop⟩

def locOf (s : Source) (n : Node) : Span := s.locOfBytes n.span

def slice (s : Source) (start stop : Nat) : List Char :=
  Text.slice (s.charAt start) (s.charAt stop) s.text

def chars (s : Source) (n : Node) : List Char := s.slice n.span.start n.span.stop

def textOf (s : Source) (n : Node) : String := String.ofList (s.chars n)

def nameOf (s : Source) (n : Node) : CodeText := .ofChars (s.chars n)

def excerpt? (s : Source) (n : Node) : Option String :=
  (Text.lines (Text.trim (s.chars n))).head?.map fun line => String.ofList (line.take 40)

def malformedAt (s : Source) (n : Node) : ParseError :=
  .at (.malformedScript (s.excerpt? n)) (s.locOf n).start (s.locOf n).stop

end Source

def isTyped (lang : Option String) : Bool :=
  match lang with
  | some l => String.ofList (l.toList.map Char.toLower) ∈ ["ts", "typescript"]
  | none => false

def parse [Reader] (text : List Char) (offset : Int) (lang : Option String) : Except ParseError Source :=
  let tree := Reader.read (isTyped lang) text
  let source : Source := ⟨text, offset, byteLength text ≠ text.length, tree.root⟩
  if tree.hasError then .error (source.malformedAt tree.fault) else .ok source

/-- The expression that a statement in parentheses consists of; the parentheses are seen through,
once. -/
def wrapped? (root : Node) : Option Node := do
  let statement ← root.named.head?
  let e ← statement.named.head?
  if e.kind = .parenthesizedExpression then return e.named.head?.getD e else return e

/-- Reads an expression that stands at `offset` of the document. Parentheses are put around it, so
that an object is not taken for a block. -/
def parseExpression [Reader] (text : List Char) (offset : Int) (lang : Option String) :
    Except Failure (Source × Node) := do
  let source ← (parse ('(' :: text ++ ['\n', ')']) (offset - 1) lang).mapError .malformed
  match wrapped? source.root with
  | some e => return (source, e)
  | none => throw .noExpression

def inner (text : List Char) : List Char := (text.drop 1).dropLast

def stringValue? (s : Source) (n : Node) : Except LiteralError (Option CodeText) :=
  if n.kind = .string then (unescape (inner (s.chars n))).map some
  else if n.kind = .templateString then
    if n.children.any fun c => c.kind = .templateSubstitution then .ok none
    else (unescape (inner (s.chars n))).map some
  else .ok none

end ComponentDoc.Script
