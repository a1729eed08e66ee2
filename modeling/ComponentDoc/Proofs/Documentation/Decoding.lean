import ComponentDoc.Documentation.Rendering

/-!
Documentation read back from plain data. Main statement: every record is read back from what it is rendered
as, so that nothing is lost that could tell two records apart: no value from a value that is null, and nothing
from a list without members.
-/

namespace ComponentDoc

namespace JsonValue

section Readers

variable {α : Type}

def bool? : JsonValue → Option Bool
  | scalar (.bool b) => some b
  | _ => none

def int? : JsonValue → Option Int
  | scalar (.int n) => some n
  | _ => none

def nat? (v : JsonValue) : Option Nat := v.int?.bind Int.toNat?

def text? : JsonValue → Option CodeText
  | scalar (.text t) => some t
  | _ => none

def string? (v : JsonValue) : Option String := v.text?.map fun t => String.ofList t.chars

def literal? : JsonValue → Option Literal
  | scalar v => some v
  | _ => none

def list? (read : JsonValue → Option α) : JsonValue → Option (List α)
  | array items => items.mapM read
  | _ => none

def nullable? (read : JsonValue → Option α) : JsonValue → Option (Option α)
  | scalar .null => some none
  | v => (read v).map some

def given? (read : JsonValue → Option α) : Option JsonValue → Option (Option α)
  | none => some none
  | some v => (read v).map some

def field? (name : String) (v : JsonValue) : Option JsonValue := v.members?.bind (Keyed.get? name)

def required? (name : String) (read : JsonValue → Option α) (v : JsonValue) : Option α :=
  (v.field? name).bind read

def optional? (name : String) (read : JsonValue → Option α) (v : JsonValue) : Option (Option α) :=
  given? read (v.field? name)

end Readers

section Laws

variable {α : Type} {read : JsonValue → Option α} {render : α → JsonValue}

@[simp] theorem bool?_bool (b : Bool) : (bool b).bool? = some b := by
  simp [bool, bool?]

@[simp] theorem nat?_int (n : Nat) : (int n).nat? = some n := by
  simp [int, nat?, int?, Int.toNat?]

@[simp] theorem text?_text (t : CodeText) : (text t).text? = some t := by
  simp [text, text?]

@[simp] theorem string?_string (s : String) : (string s).string? = some s := by
  simp [string?, string, CodeText.ofString, CodeText.chars_ofChars]

@[simp] theorem literal?_scalar (v : Literal) : (scalar v).literal? = some v := by
  simp [literal?]

@[simp] theorem list?_array_map (h : ∀ a, read (render a) = some a) (as : List α) :
    (array (as.map render)).list? read = some as := by
  induction as with
  | nil => rfl
  | cons a as ih =>
    rw [list?] at ih ⊢
    rw [List.map_cons, List.mapM_cons, h, ih]
    rfl

@[simp] theorem nullable?_string (s : Option String) : (s.elim null string).nullable? string? = some s := by
  cases s with
  | none => rfl
  | some s => exact congrArg (Option.map some) (string?_string s)

@[simp] theorem given?_map (h : ∀ a, read (render a) = some a) (a : Option α) :
    given? read (a.map render) = some a := by
  cases a with
  | none => rfl
  | some a => rw [Option.map_some, given?, h, Option.map_some]

theorem string?_array (items : List JsonValue) : (array items).string? = none := rfl

@[simp] theorem field?_object_nil (name : String) : (object []).field? name = none := rfl

@[simp] theorem field?_object_cons (name other : String) (v : JsonValue) (ms : List (String × JsonValue)) :
    (object ((other, v) :: ms)).field? name = if other = name then some v else (object ms).field? name := by
  simp only [field?, members?, Option.bind_some, Keyed.get?_cons]

@[simp] theorem field?_record_nil (name : String) : (record []).field? name = none := rfl

@[simp] theorem field?_record_cons (name other : String) (v : Option JsonValue)
    (ms : List (String × Option JsonValue)) :
    (record ((other, v) :: ms)).field? name =
      if other = name then v.or ((record ms).field? name) else (record ms).field? name := by
  cases v with
  | none => simp [record]
  | some w => simp only [record, List.filterMap_cons, Option.map_some, field?_object_cons, Option.some_or]

end Laws

end JsonValue

open JsonValue

/-- Rendering loses nothing: every record is read back from what it is rendered as, and so no two records
are rendered alike. -/
structure Lossless {α : Type} (render : α → JsonValue) (read : JsonValue → Option α) : Prop where
  reads : ∀ a, read (render a) = some a
  injective : Function.Injective render

theorem Lossless.of_reads {α : Type} {render : α → JsonValue} {read : JsonValue → Option α}
    (h : ∀ a, read (render a) = some a) : Lossless render read where
  reads := h
  injective a b hab := by
    have hread : some a = some b := by rw [← h a, ← h b, hab]
    exact Option.some.inj hread

section Parts

def Span.decode? (v : JsonValue) : Option Span := do
  return ⟨← v.required? "start" nat?, ← v.required? "end" nat?⟩

def Keyword.decode? (v : JsonValue) : Option Keyword := do
  return ⟨← v.required? "name" string?, ← v.required? "description" string?⟩

def Visibility.decode? (v : JsonValue) : Option Visibility := v.string?.bind ofName?

def TypeKind.decode? (v : JsonValue) : Option TypeKind := v.string?.bind ofName?

def Version.decode? : JsonValue → Option Version
  | .scalar (.int n) => some (.whole n)
  | .scalar (.double x) => some (.decimal x)
  | _ => none

@[simp] theorem Span.decode?_render (s : Span) : decode? s.render = some s := by
  simp [decode?, render, required?]

@[simp] theorem Keyword.decode?_render (k : Keyword) : decode? k.render = some k := by
  simp [decode?, render, required?]

@[simp] theorem Visibility.decode?_name (v : Visibility) : decode? (.string v.name) = some v := by
  simp [decode?, ofName?_name]

@[simp] theorem TypeKind.decode?_name (k : TypeKind) : decode? (.string k.name) = some k := by
  simp [decode?]

@[simp] theorem Version.decode?_render (v : Version) : decode? v.render = some v := by
  cases v <;> rfl

end Parts

section Types

mutual

def ItemType.decode? : JsonValue → Option ItemType
  | .object members => do
    let v := JsonValue.object members
    let kind ← v.required? "kind" TypeKind.decode?
    let text ← v.required? "text" string?
    let value ← v.optional? "value" literal?
    match v.required? "type" string? with
    | some name => return .simple kind text name value
    | none => return .compound kind text (← decodeListed? members) value
  | _ => none

def ItemType.decodeListed? : List (String × JsonValue) → Option (List ItemType)
  | [] => none
  | (name, v) :: rest => if name = "type" then decodeList? v else decodeListed? rest

def ItemType.decodeList? : JsonValue → Option (List ItemType)
  | .array items => decodeAll? items
  | _ => none

def ItemType.decodeAll? : List JsonValue → Option (List ItemType)
  | [] => some []
  | v :: rest => do return (← decode? v) :: (← decodeAll? rest)

end

theorem ItemType.decode?_record (ms : List (String × Option JsonValue)) : decode? (record ms) = (do
    let kind ← (record ms).required? "kind" TypeKind.decode?
    let text ← (record ms).required? "text" string?
    let value ← (record ms).optional? "value" literal?
    match (record ms).required? "type" string? with
    | some name => return .simple kind text name value
    | none => return .compound kind text (← decodeListed? (ms.filterMap fun (name, v) => v.map (name, ·))) value) := by
  rw [record, decode?]

mutual

@[simp] theorem ItemType.decode?_render : ∀ t : ItemType, decode? t.render = some t
  | .simple kind text name value => by
    rw [render, decode?_record]
    simp [required?, optional?]
  | .compound kind text alternatives value => by
    rw [render, decode?_record]
    simp [required?, optional?, string?_array, decodeListed?, decodeList?,
      ItemType.decodeAll?_renderTypes alternatives]

theorem ItemType.decodeAll?_renderTypes : ∀ ts : List ItemType, decodeAll? (renderTypes ts) = some ts
  | [] => rfl
  | t :: rest => by
    simp [renderTypes, decodeAll?, ItemType.decode?_render t, ItemType.decodeAll?_renderTypes rest]

end

end Types

section Items

def Argument.decode? (v : JsonValue) : Option Argument := do
  return {
    name := ← v.required? "name" string?
    type := ← v.required? "type" ItemType.decode?
    repeated := ← v.optional? "repeated" bool?
    optional := ← v.optional? "optional" bool?
    default := ← v.optional? "default" string?
    description := ← v.optional? "description" string? }

def Item.decode? {α : Type} (detail : JsonValue → Option α) (v : JsonValue) : Option (Item α) := do
  return {
    name := ← v.required? "name" text?
    loc := ← v.optional? "loc" Span.decode?
    description := ← v.optional? "description" string?
    visibility := ← v.required? "visibility" Visibility.decode?
    keywords := ← v.optional? "keywords" (list? Keyword.decode?)
    detail := ← detail v }

def Property.decode? (v : JsonValue) : Option Property := do
  return ⟨← v.optional? "type" ItemType.decode?, ← v.optional? "value" literal?⟩

def Callable.decode? (v : JsonValue) : Option Callable := do
  return ⟨← v.optional? "args" (list? Argument.decode?)⟩

def Computation.decode? (v : JsonValue) : Option Computation := do
  return ⟨← v.required? "dependencies" (list? text?)⟩

def Child.decode? (v : JsonValue) : Option Child := do
  return ⟨← v.required? "value" text?⟩

def Attachment.decode? (v : JsonValue) : Option Attachment := do
  return ⟨← v.optional? "parent" string?⟩

def SlotParameter.decode? (_ : JsonValue) : Option SlotParameter := some ⟨⟩

def Slot.decode? (v : JsonValue) : Option Slot := do
  return ⟨← v.optional? "parameters" (list? (Item.decode? SlotParameter.decode?))⟩

@[simp] theorem Argument.decode?_render (a : Argument) : decode? a.render = some a := by
  simp [decode?, render, required?, optional?]

def Item.fieldNames : List String := ["name", "loc", "description", "visibility", "keywords"]

@[simp] theorem Item.field?_render {α : Type} {f : α → List (String × Option JsonValue)} {name : String}
    (h : name ∉ fieldNames) (i : Item α) : (i.render f).field? name = (record (f i.detail)).field? name := by
  have hother : ∀ other ∈ fieldNames, other ≠ name := fun other hmem heq => h (heq ▸ hmem)
  simp only [fieldNames, List.forall_mem_cons] at hother
  simp [render, members, hother]

theorem Item.decode?_render {α : Type} {detail : JsonValue → Option α} {f : α → List (String × Option JsonValue)}
    (hdetail : ∀ i : Item α, detail (i.render f) = some i.detail)
    (hfields : ∀ a, ∀ name ∈ fieldNames, (record (f a)).field? name = none) (i : Item α) :
    decode? detail (i.render f) = some i := by
  have hnone := hfields i.detail
  simp only [fieldNames, List.forall_mem_cons] at hnone
  rw [decode?, hdetail]
  simp [render, members, required?, optional?, hnone]

section Details

@[simp] theorem Property.decode?_render (i : Item Property) :
    Item.decode? decode? (i.render Property.members) = some i :=
  Item.decode?_render (fun i => by simp [decode?, members, optional?, Item.fieldNames])
    (fun a => by simp [members, Item.fieldNames]) i

@[simp] theorem Computation.decode?_render (i : Item Computation) :
    Item.decode? decode? (i.render Computation.members) = some i :=
  Item.decode?_render (fun i => by simp [decode?, members, required?, Item.fieldNames])
    (fun a => by simp [members, Item.fieldNames]) i

@[simp] theorem Callable.decode?_render (i : Item Callable) :
    Item.decode? decode? (i.render Callable.members) = some i :=
  Item.decode?_render (fun i => by simp [decode?, members, optional?, Item.fieldNames])
    (fun a => by simp [members, Item.fieldNames]) i

@[simp] theorem Child.decode?_render (i : Item Child) :
    Item.decode? decode? (i.render Child.members) = some i :=
  Item.decode?_render (fun i => by simp [decode?, members, required?, Item.fieldNames])
    (fun a => by simp [members, Item.fieldNames]) i

@[simp] theorem Attachment.decode?_render (i : Item Attachment) :
    Item.decode? decode? (i.render Attachment.members) = some i :=
  Item.decode?_render (fun i => by simp [decode?, members, optional?, Item.fieldNames])
    (fun a => by simp [members, Item.fieldNames]) i

@[simp] theorem SlotParameter.decode?_render (i : Item SlotParameter) :
    Item.decode? decode? (i.render SlotParameter.members) = some i :=
  Item.decode?_render (fun i => by simp [decode?]) (fun a => by simp [members]) i

@[simp] theorem Slot.decode?_render (i : Item Slot) :
    Item.decode? decode? (i.render Slot.members) = some i :=
  Item.decode?_render (fun i => by simp [decode?, members, optional?, Item.fieldNames])
    (fun a => by simp [members, Item.fieldNames]) i

end Details

def Documentation.decode? (v : JsonValue) : Option Documentation := do
  return {
    name := ← v.required? "name" (nullable? string?)
    version := ← v.optional? "version" Version.decode?
    description := ← v.required? "description" (nullable? string?)
    data := ← v.required? "data" (list? (Item.decode? Property.decode?))
    computed := ← v.required? "computed" (list? (Item.decode? Computation.decode?))
    components := ← v.required? "components" (list? (Item.decode? Child.decode?))
    events := ← v.required? "events" (list? (Item.decode? Attachment.decode?))
    slots := ← v.required? "slots" (list? (Item.decode? Slot.decode?))
    refs := ← v.required? "refs" (list? (Item.decode? Attachment.decode?))
    methods := ← v.required? "methods" (list? (Item.decode? Callable.decode?))
    actions := ← v.required? "actions" (list? (Item.decode? Callable.decode?))
    helpers := ← v.required? "helpers" (list? (Item.decode? Callable.decode?))
    transitions := ← v.required? "transitions" (list? (Item.decode? Callable.decode?)) }

theorem Documentation.decode?_render (d : Documentation) : decode? d.render = some d := by
  simp [decode?, render, required?, optional?]

end Items

/-- No record loses anything by being rendered: keywords, types, locations, the items of every kind, their
arguments and parameters, and whole documentations, with types in them that may be any records. -/
theorem render_lossless :
    Lossless Keyword.render Keyword.decode? ∧ Lossless Span.render Span.decode? ∧
      Lossless ItemType.render ItemType.decode? ∧ Lossless Argument.render Argument.decode? ∧
      Lossless (Item.render Property.members) (Item.decode? Property.decode?) ∧
      Lossless (Item.render Computation.members) (Item.decode? Computation.decode?) ∧
      Lossless (Item.render Child.members) (Item.decode? Child.decode?) ∧
      Lossless (Item.render Attachment.members) (Item.decode? Attachment.decode?) ∧
      Lossless (Item.render SlotParameter.members) (Item.decode? SlotParameter.decode?) ∧
      Lossless (Item.render Slot.members) (Item.decode? Slot.decode?) ∧
      Lossless (Item.render Callable.members) (Item.decode? Callable.decode?) ∧
      Lossless Documentation.render Documentation.decode? :=
  ⟨.of_reads Keyword.decode?_render, .of_reads Span.decode?_render, .of_reads ItemType.decode?_render,
    .of_reads Argument.decode?_render, .of_reads Property.decode?_render, .of_reads Computation.decode?_render,
    .of_reads Child.decode?_render, .of_reads Attachment.decode?_render, .of_reads SlotParameter.decode?_render,
    .of_reads Slot.decode?_render, .of_reads Callable.decode?_render, .of_reads Documentation.decode?_render⟩

end ComponentDoc
