import ComponentDoc.Declaration.Dependencies
import ComponentDoc.Documentation.Merging
import ComponentDoc.Markup.Candidates
import ComponentDoc.Options
import ComponentDoc.Path

/-!
The complete documentation of a component, put together from what its script declares and what its
markup shows. Names are the public ones. Events of both sides are merged in document order.
-/

namespace ComponentDoc

open Markup

namespace Declarations

def properties (d : Declarations) : List (Item Property) :=
  d.data.map fun x =>
    .ofComment (d.publicName x.name) x.loc x.comment ⟨some x.type, x.value⟩

def dependenciesOf (d : Declarations) (c : ComputedDeclaration) : List CodeText :=
  match c.reads, d.source with
  | .names names, _ => names
  | .expression (some e), some s => dependencies s d.knownNames c.name e
  | .expression _, _ => []

def readsItself (d : Declarations) (c : ComputedDeclaration) : Bool :=
  match c.reads, d.source with
  | .expression (some e), some s => c.name ∈ knownReads s d.knownNames e
  | _, _ => false

def computations (d : Declarations) : List (Item Computation) :=
  d.computed.map fun x =>
    .ofComment (d.publicName x.name) x.loc x.comment ⟨(d.dependenciesOf x).map d.publicName⟩

def functionsIn (d : Declarations) (b : Bucket) : List (Item Callable) :=
  (d.functions.filter fun x => x.bucket = b).map fun x =>
    .ofComment (d.publicName x.name) x.loc x.comment ⟨some x.arguments⟩

def childItems (d : Declarations) : List (Item Child) :=
  d.children.map fun x => .ofComment x.name x.loc x.comment ⟨x.path⟩

def eventItems (d : Declarations) : List (Item Attachment) :=
  d.events.map fun x => .ofComment x.name x.loc x.comment ⟨none⟩

def duplicate? (d : Declarations) (c : Candidates) : Option DuplicateName :=
  (Item.duplicate? "data" d.properties).or <|
    (Item.duplicate? "computed" d.computations).or <|
      (Bucket.all.findSome? fun b => Item.duplicate? b.name (d.functionsIn b)).or <|
        Item.duplicate? "refs" c.refs

end Declarations

def Item.start {α : Type} (i : Item α) : Nat := i.loc.elim 0 Span.start

/-- The events of the script and of the markup, in document order; of two at one place that of the
script comes first. -/
def mergeEvents (script markup : List (Item Attachment)) : List (Item Attachment) :=
  Item.merge ((script ++ markup).mergeSort fun a b => a.start ≤ b.start)

def componentName (file : FileName) (comment : Option Comment) : Except Failure (Option String) :=
  let written := (comment.bind fun c => c.first? "name").map fun k =>
    String.ofList (Text.firstWord k.description.toList)
  match written.filter (· ≠ "") with
  | some name => .ok (some name)
  | none =>
    match file with
    | .absent => .ok none
    | .given file => .ok (some (String.ofList (fileStem file.toList)))
    | .unusable => .error .unusableFileName

def assemble (version : Version) (file : FileName) (d : Declarations) (c : Candidates) :
    Except Failure Documentation :=
  match d.duplicate? c with
  | some e => .error (.duplicate e)
  | none =>
    let comment := d.componentComment.or c.componentComment
    (componentName file comment).map fun name =>
      { name := name
        version := some version
        description := comment.bind (·.description)
        data := d.properties
        computed := d.computations
        components := Item.merge (d.childItems ++ c.components)
        events := mergeEvents d.eventItems c.events
        slots := mergeSlots c.slots
        refs := c.refs
        methods := d.functionsIn .methods
        actions := d.functionsIn .actions
        helpers := d.functionsIn .helpers
        transitions := d.functionsIn .transitions }

end ComponentDoc
