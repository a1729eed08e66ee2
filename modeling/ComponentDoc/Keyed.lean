/-!
Lists of values under keys, in the order in which the keys first came. Main statement: setting a key
changes what is found under that key and under no other.
-/

namespace ComponentDoc

abbrev Keyed (κ α : Type) := List (κ × α)

namespace Keyed

variable {κ α : Type} [DecidableEq κ]

def get? (key : κ) (entries : Keyed κ α) : Option α :=
  (entries.find? fun e => e.1 = key).map Prod.snd

def set (key : κ) (value : α) : Keyed κ α → Keyed κ α
  | [] => [(key, value)]
  | e :: rest => if e.1 = key then (key, value) :: rest else e :: set key value rest

def setDefault (key : κ) (value : α) (entries : Keyed κ α) : Keyed κ α :=
  if (get? key entries).isSome then entries else set key value entries

def keys (entries : Keyed κ α) : List κ := entries.map Prod.fst

theorem get?_cons (key : κ) (e : κ × α) (entries : Keyed κ α) :
    get? key (e :: entries) = if e.1 = key then some e.2 else get? key entries := by
  by_cases h : e.1 = key <;> simp [get?, h]

theorem get?_set_self (key : κ) (value : α) (entries : Keyed κ α) :
    get? key (set key value entries) = some value := by
  induction entries with
  | nil => simp [set, get?]
  | cons e rest ih => by_cases h : e.1 = key <;> simp [set, get?_cons, h, ih]

theorem get?_set_of_ne {key other : κ} (value : α) (entries : Keyed κ α) (h : other ≠ key) :
    get? other (set key value entries) = get? other entries := by
  induction entries with
  | nil => simp [set, get?, Ne.symm h]
  | cons e rest ih =>
    by_cases hk : e.1 = key
    · simp [set, get?_cons, hk, Ne.symm h]
    · simp [set, get?_cons, hk, ih]

theorem keys_set (key : κ) (value : α) (entries : Keyed κ α) :
    keys (set key value entries) =
      if key ∈ keys entries then keys entries else keys entries ++ [key] := by
  induction entries with
  | nil => simp [set, keys]
  | cons e rest ih =>
    by_cases h : e.1 = key
    · simp [set, keys, h]
    · simp only [keys] at ih
      by_cases hm : key ∈ rest.map Prod.fst <;> simp_all [set, keys, Ne.symm h]

end Keyed

end ComponentDoc
