import ComponentDoc.Number.Shortest
import ComponentDoc.Yaml.Scalar
import ComponentDoc.Yaml.Text

/-!
Reading a YAML document: mappings and sequences, as indented blocks or in brackets, and scalars.
Keys are texts; anchors, tags and keys of other kinds are not read.
-/

namespace ComponentDoc.Yaml

open Reader

def keyText? : JsonValue → Option String
  | .scalar .null => some "null"
  | .scalar (.bool b) => some (if b then "true" else "false")
  | .scalar (.int n) => some (toString n)
  | .scalar (.double x) => some x.text
  | .scalar (.text t) => some (String.ofList t.chars)
  | _ => none

def plain (flow : Bool) (indent : Int) : Reader JsonValue := do
  let c ← get
  match c.peek 0 with
  | some a =>
    unless startsPlain flow a (c.peek 1) do fail
    return plainValue (← plainText flow indent (c.rest.length + 1))
  | none => fail

def key (v : JsonValue) : Reader String :=
  match keyText? v with
  | some k => return k
  | none => fail

mutual

def flowNode (indent : Int) : Nat → Reader JsonValue
  | 0 => fail
  | n + 1 => do
    match ← peek 0 with
    | some '[' => do
      advance 1
      return .array (← flowItems indent n)
    | some '\x7b' => do
      advance 1
      return .object (← flowMembers indent [] n)
    | some '"' => quoted '"'
    | some '\'' => quoted '\''
    | _ => plain true indent

def flowValue (indent : Int) : Nat → Reader JsonValue
  | 0 => fail
  | n + 1 => do
    advance 1
    let _ ← toToken
    match ← peek 0 with
    | some ',' | some ']' | some '\x7d' => return .null
    | _ => flowNode indent n

/-- The items up to the closing bracket. An item with a colon after it is a mapping of one key. -/
def flowItems (indent : Int) : Nat → Reader (List JsonValue)
  | 0 => fail
  | n + 1 => do
    let _ ← toToken
    if (← peek 0) = some ']' then
      advance 1
      return []
    let first ← flowNode indent n
    let _ ← toToken
    let item ← if (← peek 0) = some ':' then do
        let k ← key first
        pure (JsonValue.object [(k, ← flowValue indent n)])
      else pure first
    let _ ← toToken
    match ← peek 0 with
    | some ',' => do
      advance 1
      return item :: (← flowItems indent n)
    | some ']' => do
      advance 1
      return [item]
    | _ => fail

def flowMembers (indent : Int) (found : Keyed String JsonValue) :
    Nat → Reader (Keyed String JsonValue)
  | 0 => fail
  | n + 1 => do
    let _ ← toToken
    if (← peek 0) = some '\x7d' then
      advance 1
      return found
    let k ← key (← flowNode indent n)
    let _ ← toToken
    let v ← if (← peek 0) = some ':' then flowValue indent n else pure .null
    let found := Keyed.set k v found
    let _ ← toToken
    match ← peek 0 with
    | some ',' => do
      advance 1
      flowMembers indent found n
    | some '\x7d' => do
      advance 1
      return found
    | _ => fail

end

def atom (indent : Int) : Reader (JsonValue × Bool) := do
  let c ← get
  let v ← match c.peek 0 with
    | some '[' | some '\x7b' => flowNode indent (2 * c.rest.length + 2)
    | some '"' => quoted '"'
    | some '\'' => quoted '\''
    | _ => plain false indent
  return (v, (← get).line = c.line)

def blockKey (indent : Nat) : Reader String := do
  let (v, onLine) ← atom indent
  let k ← key v
  modify Cursor.skipSpaces
  unless onLine && (← get).atSign ':' do fail
  return k

mutual

/-- A node that is indented more than `indent`. Only where `fresh` holds may it be a block that
starts on the line: there, nothing but signs of sequences stands before it. -/
def blockNode (indent : Int) (fresh : Bool) : Nat → Reader JsonValue
  | 0 => fail
  | n + 1 => do
    let c ← get
    if c.atSign '-' then
      unless fresh do fail
      return .array (← blockItems c.column n)
    match c.peek 0 with
    | some '|' | some '>' => blockScalar indent
    | _ =>
      let (v, onLine) ← atom indent
      let after ← get
      modify Cursor.skipSpaces
      if (← get).atSign ':' then
        unless fresh && onLine do fail
        let k ← key v
        return .object (← blockMembers c.column k [] n)
      else
        set after
        return v

/-- The items of a sequence whose signs stand in the column `indent`. -/
def blockItems (indent : Nat) : Nat → Reader (List JsonValue)
  | 0 => fail
  | n + 1 => do
    advance 1
    let anew ← toToken
    let c ← get
    let item ← if c.atEnd || (anew && c.column ≤ indent) then pure .null
      else blockNode indent true n
    let _ ← toToken
    let c ← get
    if c.atEnd || c.column < indent then return [item]
    if c.column > indent then fail
    if c.atSign '-' then return item :: (← blockItems indent n)
    return [item]

/-- The members of a mapping whose keys stand in the column `indent`, from the colon after the key
`k` on, added to those found. A sequence may be indented as the keys are. -/
def blockMembers (indent : Nat) (k : String) (found : Keyed String JsonValue) :
    Nat → Reader (Keyed String JsonValue)
  | 0 => fail
  | n + 1 => do
    advance 1
    let anew ← toToken
    let c ← get
    let v ← if c.atEnd then pure .null
      else if !anew || c.column > indent then blockNode indent anew n
      else if c.column = indent && c.atSign '-' then do
        pure (.array (← blockItems indent n))
      else pure .null
    let found := Keyed.set k v found
    let _ ← toToken
    let c ← get
    if c.atEnd || c.column < indent then return found
    if c.column > indent then fail
    let k ← blockKey indent
    blockMembers indent k found n

end

def isAllowed (c : Char) : Bool :=
  let n := c.toNat
  n = 9 || n = 10 || n = 13 || n = 0x85 || (0x20 ≤ n && n ≤ 0x7E) || (0xA0 ≤ n && n ≤ 0xFFFD) ||
    0x10000 ≤ n

def document : Reader JsonValue := do
  let size := 2 * (← get).rest.length + 4
  let _ ← toToken
  let c ← get
  let fresh ← if c.atMark && c.peek 0 = some '-' then do
      advance 3
      toToken
    else pure true
  let c ← get
  let v ← if c.atEnd then pure .null else blockNode (-1) fresh size
  let _ ← toToken
  let c ← get
  if c.atMark && c.peek 0 = some '.' then
    advance 3
    let _ ← toToken
  unless (← get).rest.isEmpty do fail
  return v

def read (text : List Char) : Option JsonValue :=
  let text := match text with
    | '\uFEFF' :: rest => rest
    | _ => text
  if text.all isAllowed then (document.run (.start text)).map Prod.fst else none

end ComponentDoc.Yaml
