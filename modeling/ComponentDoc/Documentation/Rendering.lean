import ComponentDoc.Documentation.Item
import ComponentDoc.Json.Basic

namespace ComponentDoc

open JsonValue

def Span.render (s : Span) : JsonValue :=
  .object [("start", .int s.start), ("end", .int s.stop)]

def Keyword.render (k : Keyword) : JsonValue :=
  .object [("name", .string k.name), ("description", .string k.description)]

mutual

def ItemType.render : ItemType → JsonValue
  | .simple kind text name value =>
    .record [("kind", some (.string kind.name)), ("text", some (.string text)),
      ("type", some (.string name)), ("value", value.map .scalar)]
  | .compound kind text alternatives value =>
    .record [("kind", some (.string kind.name)), ("text", some (.string text)),
      ("type", some (.array (renderTypes alternatives))), ("value", value.map .scalar)]

def renderTypes : List ItemType → List JsonValue
  | [] => []
  | t :: rest => t.render :: renderTypes rest

end

def Argument.render (a : Argument) : JsonValue :=
  .record [("name", some (.string a.name)), ("type", some a.type.render),
    ("repeated", a.repeated.map .bool), ("optional", a.optional.map .bool),
    ("default", a.default.map .string), ("description", a.description.map .string)]

def Property.members (p : Property) : List (String × Option JsonValue) :=
  [("type", p.type.map ItemType.render), ("value", p.value.map .scalar)]

def Callable.members (c : Callable) : List (String × Option JsonValue) :=
  [("args", c.arguments.map fun as => .array (as.map Argument.render))]

namespace Item

variable {α : Type}

def members (i : Item α) : List (String × Option JsonValue) :=
  [("name", some (.text i.name)), ("loc", i.loc.map Span.render),
    ("description", i.description.map .string),
    ("visibility", some (.string i.visibility.name)),
    ("keywords", i.keywords.map fun ks => .array (ks.map Keyword.render))]

def render (f : α → List (String × Option JsonValue)) (i : Item α) : JsonValue :=
  .record (i.members ++ f i.detail)

end Item

def Computation.members (c : Computation) : List (String × Option JsonValue) :=
  [("dependencies", some (.array (c.dependencies.map .text)))]

def Child.members (c : Child) : List (String × Option JsonValue) :=
  [("value", some (.text c.path))]

def Attachment.members (a : Attachment) : List (String × Option JsonValue) :=
  [("parent", a.parent.map .string)]

def SlotParameter.members (_ : SlotParameter) : List (String × Option JsonValue) := []

def Slot.members (s : Slot) : List (String × Option JsonValue) :=
  [("parameters", s.parameters.map fun ps => .array (ps.map (Item.render SlotParameter.members)))]

def Version.render : Version → JsonValue
  | .whole n => .int n
  | .decimal x => .scalar (.double x)

def Documentation.render (d : Documentation) : JsonValue :=
  let list {α : Type} (f : α → List (String × Option JsonValue)) (items : List (Item α)) :
      Option JsonValue := some (.array (items.map (Item.render f)))
  .record
    [("name", some (d.name.elim .null .string)), ("version", d.version.map Version.render),
      ("description", some (d.description.elim .null .string)),
      ("data", list Property.members d.data), ("computed", list Computation.members d.computed),
      ("components", list Child.members d.components),
      ("events", list Attachment.members d.events), ("slots", list Slot.members d.slots),
      ("refs", list Attachment.members d.refs), ("methods", list Callable.members d.methods),
      ("actions", list Callable.members d.actions),
      ("helpers", list Callable.members d.helpers),
      ("transitions", list Callable.members d.transitions)]

end ComponentDoc
