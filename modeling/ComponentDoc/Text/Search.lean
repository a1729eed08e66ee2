
namespace ComponentDoc.Text

/-- The number of characters before the first occurrence of `needle`. -/
def indexOf? (needle : List Char) : List Char → Option Nat
  | [] => if needle.isEmpty then some 0 else none
  | c :: rest =>
    if needle.isPrefixOf (c :: rest) then some 0 else (indexOf? needle rest).map (· + 1)

def contains (needle s : List Char) : Bool := (indexOf? needle s).isSome

def dropStart? (start : List Char) (s : List Char) : Option (List Char) :=
  if start.isPrefixOf s then some (s.drop start.length) else none

def dropStop? (stop : List Char) (s : List Char) : Option (List Char) :=
  if stop.isSuffixOf s then some (s.take (s.length - stop.length)) else none

def cutAt (c : Char) (s : List Char) : List Char × Option (List Char) :=
  match s.dropWhile (· != c) with
  | [] => (s, none)
  | _ :: rest => (s.takeWhile (· != c), some rest)

def afterLast (c : Char) (s : List Char) : List Char :=
  (s.reverse.takeWhile (· != c)).reverse

def slice (start stop : Nat) (s : List Char) : List Char :=
  (s.drop start).take (stop - start)

theorem indexOf?_append_self (needle rest : List Char) (h : needle ≠ []) :
    indexOf? needle (needle ++ rest) = some 0 := by
  cases needle with
  | nil => contradiction
  | cons c cs => simp [indexOf?]

end ComponentDoc.Text
