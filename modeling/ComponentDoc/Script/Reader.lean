import ComponentDoc.Script.Syntax

namespace ComponentDoc.Script

def byteLength (s : List Char) : Nat := s.foldl (fun n c => n + c.utf8Size) 0

structure Tree where
  root : Node
  /-- Somewhere in the tree the script is malformed. -/
  hasError : Bool

/-- Gives a tree for every script, with types or without. An inferred reader spares every function between a
document and its scripts an argument. -/
class Reader where
  read (typed : Bool) (script : List Char) : Tree

def Tree.fault (t : Tree) : Node :=
  ((walk t.root).find? fun n => n.kind = .error || n.kind = .missing).getD t.root

end ComponentDoc.Script
