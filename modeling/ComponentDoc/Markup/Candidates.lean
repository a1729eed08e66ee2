import ComponentDoc.Comment.Reading
import ComponentDoc.Declaration.Basic
import ComponentDoc.Dialect
import ComponentDoc.Failure
import ComponentDoc.Markup.Tree
import ComponentDoc.Notice
import ComponentDoc.Script.Entry

/-!
What the markup of a component shows: child components, events, slots and references, one candidate
for each occurrence, in document order. The comment right before an element belongs to all that the
element shows.
-/

namespace ComponentDoc

namespace Markup

open Text

/-- What has to be known of the script: its dialect, its imports, and the functions that dispatch
events. -/
structure Context where
  dialect : Dialect
  imports : Imports
  dispatchers : List CodeText

inductive Finding
  | component (item : Item Child)
  | event (item : Item Attachment)
  | slot (item : Item Slot)
  | ref (item : Item Attachment)
  | comment (comment : Comment)
  | notice (notice : Notice)
  | failure (failure : Failure)

namespace Finding

def component? : Finding → Option (Item Child)
  | component i => some i
  | _ => none

def event? : Finding → Option (Item Attachment)
  | event i => some i
  | _ => none

def slot? : Finding → Option (Item Slot)
  | slot i => some i
  | _ => none

def ref? : Finding → Option (Item Attachment)
  | ref i => some i
  | _ => none

def comment? : Finding → Option Comment
  | comment c => some c
  | _ => none

def notice? : Finding → Option Notice
  | notice n => some n
  | _ => none

def failure? : Finding → Option Failure
  | failure f => some f
  | _ => none

end Finding

def spanAt (start length : Nat) : Span := ⟨start, start + length⟩

def fireMethod : CodeText := "fire"

def Context.dispatchNames (ctx : Context) : List CodeText :=
  match ctx.dialect with
  | .v3 => ctx.dispatchers
  | .v2 => [fireMethod]

def Context.dispatches (ctx : Context) (s : Script.Source) (callee : Script.Node) : Bool :=
  match ctx.dialect with
  | .v3 => s.nameOf callee ∈ ctx.dispatchers
  | .v2 =>
    if callee.kind = .memberExpression then
      (callee.child? .property).any fun p => s.nameOf p = fireMethod
    else s.nameOf callee = fireMethod

def callFindings (s : Script.Source) (comment : Option Comment) (call : Script.Node) :
    List Finding :=
  match s.stringArgument? call with
  | .error e => [.failure (.literal e)]
  | .ok none => [.notice .handlerDispatchSkipped]
  | .ok (some (name, n)) => [.event (.ofComment name (s.locOf n) comment ⟨none⟩)]

def Context.calls (ctx : Context) (s : Script.Source) (expression : Script.Node) :
    List Script.Node :=
  (Script.walk expression).filter fun n =>
    n.kind = .callExpression && (n.child? .callee).any (ctx.dispatches s)

/-- The events that the handler at an offset dispatches. A handler in which none of the names stands
is not looked at. -/
def Context.handlerFindings [Script.Reader] (ctx : Context) (comment : Option Comment) (handler : String)
    (offset : Nat) : List Finding :=
  if ctx.dispatchNames.any fun n => Text.contains n.chars handler.toList then
    match Script.parseExpression handler.toList offset none with
    | .error e => [.failure e]
    | .ok (s, expression) =>
      .notice s.notice :: (ctx.calls s expression).flatMap (callFindings s comment)
  else []

def Context.eventFindings [Script.Reader] (ctx : Context) (element : String) (comment : Option Comment)
    (a : Attribute) : List Finding :=
  match a.expression?, a.value? with
  | some (handler, offset), _ => ctx.handlerFindings comment handler offset
  | none, some (handler, offset) =>
    match ctx.dialect with
    | .v3 => []
    | .v2 => ctx.handlerFindings comment handler offset
  | none, none =>
    let loc := spanAt (a.span.start + "on:".length) a.target.length
    [.event (.ofComment a.target loc comment ⟨some element⟩)]

def Context.isRef (ctx : Context) (a : Attribute) : Bool :=
  match ctx.dialect with
  | .v3 => a.name = "bind:this"
  | .v2 => a.directive? = some "ref"

def Context.refFindings (ctx : Context) (element : String) (comment : Option Comment)
    (a : Attribute) : List Finding :=
  match ctx.dialect with
  | .v3 =>
    match a.expression?.map fun (code, offset) => (trim code.toList, code.toList, offset) with
    | none | some ([], _) => [.notice (.refWithoutTarget element)]
    | some (name, code, offset) =>
      let loc := spanAt (offset + (indexOf? name code).getD 0) name.length
      [.ref (.ofComment (.ofChars name) loc comment ⟨some element⟩)]
  | .v2 =>
    let loc := spanAt (a.span.start + "ref:".length) a.target.length
    [.ref (.ofComment a.target loc comment ⟨some element⟩)]

def Context.componentFindings (ctx : Context) (tag : StartTag) (comment : Option Comment) :
    List Finding :=
  let head := (cutAt '.' tag.name.toList).1
  match ctx.imports.get? (.ofChars head) with
  | some binding =>
    [.component (.ofComment (.ofChars head) (spanAt (tag.span.start + 1) head.length)
      (comment.or binding.comment) ⟨binding.path⟩)]
  | none => []

def slotParameter (a : Attribute) : Item SlotParameter :=
  let start :=
    match a.expression? with
    | some (code, offset) =>
      if a.isShorthand then offset + (indexOf? a.name.toList code.toList).getD 0 else a.span.start
    | none => a.span.start
  .ofComment a.name (spanAt start a.name.length) none ⟨⟩

def slotParameters (tag : StartTag) : List (Item SlotParameter) :=
  (tag.attributes.filter fun a =>
    a.name ≠ "name" && !a.isSpread && a.directive?.isNone).map slotParameter

def defaultSlotName : String := "default"

def slotName (tag : StartTag) : String × Option Notice :=
  match tag.attributes.find? fun a => a.name = "name" with
  | some a =>
    match a.value?, a.expression? with
    | some (value, _), _ =>
      let name := String.ofList (trim value.toList)
      (if name.isEmpty then defaultSlotName else name, none)
    | none, some _ => (defaultSlotName, some (.slotNameIsExpression defaultSlotName))
    | none, none => (defaultSlotName, none)
  | none => (defaultSlotName, none)

def Context.slotFindings (ctx : Context) (tag : StartTag) (comment : Option Comment) :
    List Finding :=
  let (name, notice) := slotName tag
  let parameters :=
    match ctx.dialect, slotParameters tag with
    | .v2, _ | .v3, [] => none
    | .v3, parameters => some parameters
  notice.toList.map .notice ++
    [.slot (.ofComment name (spanAt (tag.span.start + 1) tag.name.length) comment ⟨parameters⟩)]

def Context.attributeFindings [Script.Reader] (ctx : Context) (element : String) (comment : Option Comment)
    (a : Attribute) : List Finding :=
  if a.isSpread then []
  else if a.directive? = some "on" then ctx.eventFindings element comment a
  else if ctx.isRef a then ctx.refFindings element comment a
  else []

def Context.elementFindings [Script.Reader] (ctx : Context) (comment : Option Comment) (tag : StartTag) :
    List Finding :=
  (match ctx.dialect with
    | .v3 => ctx.componentFindings tag comment
    | .v2 => []) ++
  tag.attributes.flatMap (ctx.attributeFindings tag.name comment) ++
  if tag.name = "slot" then ctx.slotFindings tag comment else []

def componentKeyword : String := "component"

def readComment (content : String) (span : Span) : Comment := .ofText content.toList (some span)

def Context.isOnComponent (ctx : Context) (c : Comment) : Bool :=
  ctx.dialect = .v3 && c.has componentKeyword

/-- A comment on the whole component, with the text of its keyword as part of its description. -/
def componentComment (c : Comment) : Comment :=
  let marker := c.first? componentKeyword
  let parts := (c.description.toList ++ (marker.map (·.description)).toList).filter (· ≠ "")
  { c with
    description := Comment.nonempty? ("\n".intercalate parts)
    keywords := marker.elim c.keywords c.keywords.erase }

def Context.pendingAfter (ctx : Context) (pending : Option Comment) : Node → Option Comment
  | .text content _ => if allBlank content.toList then pending else none
  | .comment content span =>
    let c := readComment content span
    if ctx.isOnComponent c then none else some c
  | .element .. => none

mutual

/-- What a node shows; `pending` is the comment that belongs to it. -/
def Node.findings [Script.Reader] (ctx : Context) (pending : Option Comment) : Node → List Finding
  | .text .. => []
  | .comment content span =>
    let c := readComment content span
    if ctx.isOnComponent c then [.comment (componentComment c)] else []
  | .element tag _ children => ctx.elementFindings pending tag ++ findingsOf ctx none children

def findingsOf [Script.Reader] (ctx : Context) (pending : Option Comment) : List Node → List Finding
  | [] => []
  | n :: rest => n.findings ctx pending ++ findingsOf ctx (ctx.pendingAfter pending n) rest

end

/-- The candidates of the markup, one for each occurrence and in document order. -/
structure Candidates where
  components : List (Item Child)
  events : List (Item Attachment)
  slots : List (Item Slot)
  refs : List (Item Attachment)
  componentComment : Option Comment

namespace Candidates

/-- The candidates among findings; of the comments on the component the first one counts. -/
def ofFindings (findings : List Finding) : Candidates :=
  { components := findings.filterMap Finding.component?
    events := findings.filterMap Finding.event?
    slots := findings.filterMap Finding.slot?
    refs := findings.filterMap Finding.ref?
    componentComment := findings.findSome? Finding.comment? }

def notice (c : Candidates) : Notice :=
  .markupRead c.components.length c.events.length c.slots.length c.refs.length

end Candidates

/-- The candidates of markup, and the notices up to the failure if there is one. -/
def candidates [Script.Reader] (ctx : Context) (nodes : List Node) :
    Except Failure Candidates × List Notice :=
  let findings := findingsOf ctx none nodes
  match findings.findSome? Finding.failure? with
  | some f =>
    (.error f, (findings.takeWhile fun x => x.failure?.isNone).filterMap Finding.notice?)
  | none =>
    let c := Candidates.ofFindings findings
    (.ok c, findings.filterMap Finding.notice? ++ [c.notice])

end Markup

end ComponentDoc
