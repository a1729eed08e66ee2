import ComponentDoc.Text.Search

namespace ComponentDoc

open Text

def pathParts (path : List Char) : List (List Char) :=
  (path.splitOn '/').filter fun part => part ≠ [] && part ≠ ['.']

def fileName (path : List Char) : List Char := (pathParts path).getLast?.getD []

/-- The last part of a path up to its last dot. A dot at one of the two ends does not count. -/
def fileStem (path : List Char) : List Char :=
  let name := fileName path
  let extension := afterLast '.' name
  let stem := name.take (name.length - extension.length - 1)
  if extension.length < name.length ∧ extension ≠ [] ∧ stem ≠ [] then stem else name

/-- A path without needless slashes and dots. Two slashes at the start differ from one. -/
def plainPath (path : String) : String :=
  let root :=
    match path.toList with
    | '/' :: '/' :: '/' :: _ => "/"
    | '/' :: '/' :: _ => "//"
    | '/' :: _ => "/"
    | _ => ""
  let joined := root ++ "/".intercalate ((pathParts path.toList).map String.ofList)
  if joined.isEmpty then "." else joined

end ComponentDoc
