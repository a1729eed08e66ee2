import ComponentDoc.Json.Basic

/-!
Merging configurations: mappings are merged member by member, the list of ignored keywords grows,
and every other value takes the place of an earlier one.
-/

namespace ComponentDoc

namespace Literal

def number? : Literal → Option (Int ⊕ Double)
  | bool b => some (.inl (if b then 1 else 0))
  | int n => some (.inl n)
  | double x => some (.inr x)
  | _ => none

def same (a b : Literal) : Bool :=
  match a.number?, b.number? with
  | some (.inl m), some (.inl n) => m == n
  | some (.inl m), some (.inr y) => y.isInt m
  | some (.inr x), some (.inl n) => x.isInt n
  | some (.inr x), some (.inr y) => x.numericEq y
  | none, none => a == b
  | _, _ => false

end Literal

namespace JsonValue

mutual

def same : JsonValue → JsonValue → Bool
  | scalar a, scalar b => a.same b
  | array as, array bs => sameItems as bs
  | object ms, object ns => ms.length == ns.length && sameMembers ms ns
  | _, _ => false

def sameItems : List JsonValue → List JsonValue → Bool
  | [], [] => true
  | a :: as, b :: bs => same a b && sameItems as bs
  | _, _ => false

def sameMembers : List (String × JsonValue) → Keyed String JsonValue → Bool
  | [], _ => true
  | (k, v) :: rest, ns =>
    (match ns.get? k with
      | some w => same v w
      | none => false) && sameMembers rest ns

end

def extend (items : List JsonValue) (more : List JsonValue) : List JsonValue :=
  more.foldl (fun found v => if found.any v.same then found else found ++ [v]) items

end JsonValue

namespace Configuration

open JsonValue

/-- The name of the list that grows. -/
def growingKey : String := "ignore_keywords"

mutual

/-- The value of a key where a configuration that gives `value` is merged into one that gives
`old`. -/
def mergeValue (key : String) (old : Option JsonValue) : JsonValue → JsonValue
  | object update =>
    match old with
    | some (object base) => object (merge base update)
    | _ => object update
  | array items =>
    match old with
    | some (array found) => array (if key = growingKey then extend found items else items)
    | _ => array items
  | scalar v => scalar v

def merge (base : Keyed String JsonValue) : List (String × JsonValue) → Keyed String JsonValue
  | [] => base
  | (key, value) :: rest =>
    merge (Keyed.set key (mergeValue key (Keyed.get? key base) value) base) rest

end

end Configuration

end ComponentDoc
