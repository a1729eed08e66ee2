import ComponentDoc.Documentation.Item
import ComponentDoc.Notice
import ComponentDoc.Options

namespace ComponentDoc

namespace Item

variable {α : Type}

def isHidden (o : Options) (i : Item α) : Bool :=
  (o.hidePrivate && i.visibility ≠ .everyone) ||
    (i.keywords.getD []).any fun k => (k.name : CodeText) ∈ o.hiddenKeywords

def withoutLoc (i : Item α) : Item α := { i with loc := none }

/-- The items that are not hidden, with or without their places. -/
def select (o : Options) (items : List (Item α)) : List (Item α) :=
  let shown := items.filter fun i => !i.isHidden o
  if o.includeLocations then shown else shown.map withoutLoc

def hiddenNotices (o : Options) (items : List (Item α)) : List Notice :=
  (items.filter (isHidden o)).map fun i => .itemHidden i.name

end Item

def Slot.select (o : Options) (s : Slot) : Slot :=
  if o.includeLocations then s else ⟨s.parameters.map fun ps => ps.map Item.withoutLoc⟩

namespace Documentation

/-- The documentation without what the options leave out. -/
def select (o : Options) (d : Documentation) : Documentation :=
  { d with
    data := Item.select o d.data
    computed := Item.select o d.computed
    components := Item.select o d.components
    events := Item.select o d.events
    slots := (Item.select o d.slots).map fun s => { s with detail := s.detail.select o }
    refs := Item.select o d.refs
    methods := Item.select o d.methods
    actions := Item.select o d.actions
    helpers := Item.select o d.helpers
    transitions := Item.select o d.transitions }

def hiddenNotices (o : Options) (d : Documentation) : List Notice :=
  Item.hiddenNotices o d.data ++ Item.hiddenNotices o d.computed ++
    Item.hiddenNotices o d.components ++ Item.hiddenNotices o d.events ++
    Item.hiddenNotices o d.slots ++ Item.hiddenNotices o d.refs ++
    Item.hiddenNotices o d.methods ++ Item.hiddenNotices o d.actions ++
    Item.hiddenNotices o d.helpers ++ Item.hiddenNotices o d.transitions

def notice (d : Documentation) : Notice :=
  let name := (d.name.filter (· ≠ "")).getD "<anonymous>"
  .assembled name d.data.length d.computed.length d.events.length d.slots.length

end Documentation

end ComponentDoc
