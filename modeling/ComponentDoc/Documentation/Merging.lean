import ComponentDoc.Documentation.Item
import ComponentDoc.Failure
import ComponentDoc.Keyed

namespace ComponentDoc

namespace Item

variable {α : Type}

def lend (first later : Item α) : Item α :=
  if first.keywords.isNone && later.keywords.isSome then
    { first with
      description := later.description
      visibility := later.visibility
      keywords := later.keywords }
  else first

def insert (item : Item α) : List (Item α) → List (Item α)
  | [] => [item]
  | i :: rest => if i.name = item.name then i.lend item :: rest else i :: insert item rest

/-- Merges the items of each name into the first one. -/
def merge (items : List (Item α)) : List (Item α) :=
  items.foldl (fun merged i => i.insert merged) []

/-- The first fault: the earliest item whose name an item before it has, those being `before`. -/
def duplicateAfter? (category : String) (before : List (Item α)) :
    List (Item α) → Option DuplicateName
  | [] => none
  | i :: rest =>
    match before.find? fun b => b.name = i.name with
    | some first => some ⟨category, i.name, first.loc.toList ++ i.loc.toList⟩
    | none => duplicateAfter? category (before ++ [i]) rest

def duplicate? (category : String) (items : List (Item α)) : Option DuplicateName :=
  duplicateAfter? category [] items

theorem lend_name (first later : Item α) : (first.lend later).name = first.name := by
  unfold lend
  split <;> rfl

theorem insert_names (item : Item α) (items : List (Item α)) :
    (item.insert items).map (·.name) =
      if item.name ∈ items.map (·.name) then items.map (·.name)
      else items.map (·.name) ++ [item.name] := by
  induction items with
  | nil => simp [insert]
  | cons i rest ih =>
    by_cases h : i.name = item.name
    · simp [insert, h, lend_name]
    · by_cases hm : item.name ∈ rest.map (·.name) <;>
        simp_all [insert, Ne.symm h]

end Item

abbrev SlotParameters := Keyed CodeText (Keyed CodeText (Item SlotParameter))

namespace SlotParameters

/-- Adds a parameter of the slot called `name`; of the parameters of one name the first stays. -/
def add (name : CodeText) (found : SlotParameters) (p : Item SlotParameter) : SlotParameters :=
  Keyed.set name (Keyed.setDefault p.name p ((Keyed.get? name found).getD [])) found

def addSlot (found : SlotParameters) (s : Item Slot) : SlotParameters :=
  (s.detail.parameters.getD []).foldl (add s.name) found

/-- The parameters of all slots, whose names those of `merged` are. -/
def collect (merged slots : List (Item Slot)) : SlotParameters :=
  slots.foldl addSlot (merged.map fun s => (s.name, []))

end SlotParameters

/-- Merges the slots of each name, and collects their parameters. -/
def mergeSlots (slots : List (Item Slot)) : List (Item Slot) :=
  let merged := Item.merge slots
  let byName : Keyed CodeText (Item Slot) := merged.foldl (fun found s => Keyed.set s.name s found) []
  let found := SlotParameters.collect merged slots
  byName.map fun (name, s) =>
    let parameters := ((Keyed.get? name found).getD []).map Prod.snd
    { s with detail := ⟨if parameters.isEmpty then none else some parameters⟩ }

end ComponentDoc
