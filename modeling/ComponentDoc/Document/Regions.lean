import ComponentDoc.Document.TagAttributes
import ComponentDoc.Markup.Token

/-!
The regions of a component document: at most one instance script, one module script and one style
element, each at the top level. The markup is the document with the regions blanked out, so that an
offset in it is an offset in the document.
-/

namespace ComponentDoc.Document

open Text Markup

structure Region where
  tag : String
  content : String
  span : Span
  contentStart : Nat
  attributes : TagAttributes
  deriving DecidableEq, Repr

namespace Region

def contentStop (r : Region) : Nat := r.contentStart + r.content.length

/-- The language the element names: its `lang`, or else its `type`, without what precedes the last
slash. -/
def lang? (r : Region) : Option String :=
  let named :=
    match r.attributes.get? "lang" with
    | some "" | none => r.attributes.get? "type"
    | some l => some l
  named.map fun l => String.ofList (afterLast '/' l.toList)

end Region

structure Regions where
  script : Option Region
  moduleScript : Option Region
  style : Option Region
  deriving DecidableEq, Repr

namespace Regions

def empty : Regions := ⟨none, none, none⟩

def toList (r : Regions) : List Region :=
  r.script.toList ++ r.moduleScript.toList ++ r.style.toList

def insert (r : Regions) (region : Region) : Except ParseError Regions :=
  let second (cause : ParseCause) : Except ParseError Regions :=
    .error (.at cause region.span.start region.span.stop)
  if region.tag = "style" then
    if r.style.isSome then second .secondStyle else .ok { r with style := some region }
  else if region.attributes.get? "context" = some "module" then
    if r.moduleScript.isSome then second .secondModuleScript
    else .ok { r with moduleScript := some region }
  else if r.script.isSome then second .secondScript
  else .ok { r with script := some region }

end Regions

structure Parts where
  markup : List Char
  regions : Regions

def blankOut (spans : List Span) (pos : Nat) : List Char → List Char
  | [] => []
  | c :: rest =>
    (if c ≠ '\n' ∧ spans.any (fun s => s.start ≤ pos && pos < s.stop) then ' ' else c) ::
      blankOut spans (pos + 1) rest

/-- The offset after a start tag, and whether the tag closes itself. Expressions in braces and
quotations are stepped over; the first number counts the characters still to be stepped over. -/
def tagEnd (name : String) (start : Nat) : Nat → Nat → List Char → Except ParseError (Nat × Bool)
  | _, pos, [] => .error (.at (.openTag name) start pos)
  | k + 1, pos, _ :: rest => tagEnd name start k (pos + 1) rest
  | 0, pos, c :: rest =>
    if c = '{' then
      match skipExpression pos (c :: rest) with
      | .error e => .error e
      | .ok stop => tagEnd name start (stop - pos - 1) (pos + 1) rest
    else if c = '"' ∨ c = '\'' then
      match indexOf? [c] rest with
      | none => .error (.at (.openTag name) start (pos + 1 + rest.length))
      | some i => tagEnd name start (i + 1) (pos + 1) rest
    else if c = '/' ∧ rest.head? = some '>' then .ok (pos + 2, true)
    else if c = '>' then .ok (pos + 1, false)
    else tagEnd name start 0 (pos + 1) rest

def closeName (name : String) (opens : List String) : List String :=
  if name ∈ opens then (opens.dropWhile (· != name)).drop 1 else opens

structure Progress where
  regions : Regions
  /-- The open elements, innermost first. -/
  opens : List String

def startTagStep (p : Progress) (pos : Nat) (name text : List Char) :
    Except ParseError (Progress × Nat) := do
  let label := String.ofList name
  let nameEnd := pos + 1 + name.length
  let (stop, selfClosing) ← tagEnd label pos 0 nameEnd (text.drop (name.length + 1))
  if selfClosing || isVoid label then return (p, stop)
  if !(label ∈ rawNames) then return ({ p with opens := label :: p.opens }, stop)
  let content := text.drop (stop - pos)
  match findEndTag? name content with
  | none => throw (.at (.regionLeftOpen label) pos (pos + text.length))
  | some (before, length) =>
    let regionEnd := stop + before + length
    if !p.opens.isEmpty then return (p, regionEnd)
    let region : Region :=
      { tag := label
        content := String.ofList (content.take before)
        span := ⟨pos, regionEnd⟩
        contentStart := stop
        attributes := parseTagAttributes (slice (nameEnd - pos) (stop - 1 - pos) text) }
    let regions ← p.regions.insert region
    return ({ p with regions }, regionEnd)

/-- Takes what starts with `c` at offset `pos`: what is known then, and where to go on. -/
def step (p : Progress) (pos : Nat) (c : Char) (rest : List Char) :
    Except ParseError (Progress × Nat) :=
  let text := c :: rest
  if commentStart.isPrefixOf text then
    match indexOf? commentStop (text.drop 4) with
    | none => .ok (p, pos + text.length)
    | some i => .ok (p, pos + i + 7)
  else if c = '{' then
    (skipExpression pos text).map fun stop => (p, stop)
  else if c = '<' then
    match rest with
    | '/' :: after =>
      match tagName? after with
      | none => .ok (p, pos + 1)
      | some name =>
        let p := { p with opens := closeName (String.ofList name) p.opens }
        match indexOf? ['>'] (after.drop name.length) with
        | none => .ok (p, pos + text.length)
        | some i => .ok (p, pos + 3 + name.length + i)
    | _ =>
      match tagName? rest with
      | none => .ok (p, pos + 1)
      | some name => startTagStep p pos name text
  else .ok (p, pos + 1)

/-- Goes through a document. The first number counts the characters still to be stepped over. -/
def regionsFrom (p : Progress) : Nat → Nat → List Char → Except ParseError Regions
  | _, _, [] => .ok p.regions
  | k + 1, pos, _ :: rest => regionsFrom p k (pos + 1) rest
  | 0, pos, c :: rest =>
    match step p pos c rest with
    | .error e => .error e
    | .ok (p, next) => regionsFrom p (next - pos - 1) (pos + 1) rest

def split (source : List Char) : Except ParseError Parts := do
  let regions ← regionsFrom ⟨.empty, []⟩ 0 0 source
  return ⟨blankOut (regions.toList.map Region.span) 0 source, regions⟩

end ComponentDoc.Document
