import ComponentDoc.Script.FreeNames

namespace ComponentDoc

open Script

def knownName? (known : List CodeText) (name : CodeText) : Option CodeText :=
  if name ∈ known then some name
  else
    match name.points with
    | p :: rest => if p = '$'.toNat ∧ rest ≠ [] ∧ ⟨rest⟩ ∈ known then some ⟨rest⟩ else none
    | [] => none

def knownReads (s : Source) (known : List CodeText) (expression : Node) : List CodeText :=
  ((s.freeNames [] expression).filterMap (knownName? known)).eraseDups

/-- The known names that the expression of the item `self` reads, its own name left out. -/
def dependencies (s : Source) (known : List CodeText) (self : CodeText) (expression : Node) :
    List CodeText :=
  (knownReads s known expression).erase self

end ComponentDoc
