import ComponentDoc.Markup.Token

/-!
The tree of elements of a component's markup. Offsets are those of the document, whose script and
style elements are blanked out.
-/

namespace ComponentDoc.Markup

inductive Node
  | text (content : String) (span : Span)
  | comment (content : String) (span : Span)
  /-- An element with its start tag, the offset after it, and its children. -/
  | element (tag : StartTag) (stop : Nat) (children : List Node)

namespace Node

def start : Node → Nat
  | .text _ span | .comment _ span => span.start
  | .element tag _ _ => tag.span.start

def stop : Node → Nat
  | .text _ span | .comment _ span => span.stop
  | .element _ stop _ => stop

end Node

mutual

def Node.tags : Node → List StartTag
  | .text .. | .comment .. => []
  | .element tag _ children => tag :: tagsOf children

def tagsOf : List Node → List StartTag
  | [] => []
  | n :: rest => n.tags ++ tagsOf rest

end

/-- An element whose end tag has not been met; the children read so far are in reverse. -/
structure OpenElement where
  tag : StartTag
  children : List Node

/-- A tree under construction: the children of the root, in reverse, and the open elements, the
innermost first. -/
structure Builder where
  root : List Node
  opens : List OpenElement

namespace Builder

def empty : Builder := ⟨[], []⟩

def push (b : Builder) (n : Node) : Builder :=
  match b.opens with
  | [] => { b with root := n :: b.root }
  | e :: rest => { b with opens := { e with children := n :: e.children } :: rest }

/-- Closes the innermost open element called `name`, which ends with the end tag at `span`. The
elements that were opened inside and left open end where the end tag starts. The result is the
closed element and the elements that stay open; `inner` are the nodes that the elements passed over
have become. -/
def close (name : String) (span : Span) (inner : List Node) :
    List OpenElement → Option (Node × List OpenElement)
  | [] => none
  | e :: rest =>
    let children := (inner ++ e.children).reverse
    if e.tag.name = name then some (.element e.tag span.stop children, rest)
    else close name span [.element e.tag span.start children] rest

def add (b : Builder) : Token → Except ParseError Builder
  | .text content span => .ok (b.push (.text content span))
  | .comment content span => .ok (b.push (.comment content span))
  | .startTag tag =>
    if tag.selfClosing || isVoid tag.name then .ok (b.push (.element tag tag.span.stop []))
    else .ok { b with opens := ⟨tag, []⟩ :: b.opens }
  | .rawElement tag content stop =>
    let inside := tag.span.stop
    let children :=
      if content.isEmpty then [] else [.text content ⟨inside, inside + content.length⟩]
    .ok (b.push (.element tag stop children))
  | .endTag name span =>
    match close name span [] b.opens with
    | some (n, rest) => .ok (Builder.push { b with opens := rest } n)
    | none => .error (.at (.elementNotOpen name) span.start span.stop)

def finish (b : Builder) : Except ParseError (List Node) :=
  match b.opens with
  | [] => .ok b.root.reverse
  | e :: _ => .error (.at (.elementLeftOpen e.tag.name) e.tag.span.start e.tag.span.stop)

end Builder

def ofTokens (b : Builder) : List Token → Except ParseError Builder
  | [] => .ok b
  | t :: rest =>
    match b.add t with
    | .error e => .error e
    | .ok b => ofTokens b rest

/-- Reads markup: the top-level nodes. The first fault of the text is reported, be it in a token or
in the nesting; that an element was left open shows only at the end. -/
def parse (text : List Char) : Except ParseError (List Node) :=
  let (ts, fault) := tokens text
  match ofTokens .empty ts with
  | .error e => .error e
  | .ok b =>
    match fault with
    | some e => .error e
    | none => b.finish

end ComponentDoc.Markup
