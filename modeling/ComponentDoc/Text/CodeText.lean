import ComponentDoc.Text.Blank

/-!
Texts of code points. An escape sequence can write half of a surrogate pair, which no `String` can
hold, so names and values read from string literals are texts of this kind.
-/

namespace ComponentDoc

structure CodeText where
  points : List Nat
  deriving DecidableEq, Repr, Inhabited

namespace CodeText

def ofChars (s : List Char) : CodeText := ⟨s.map Char.toNat⟩

def ofString (s : String) : CodeText := ofChars s.toList

instance : Coe String CodeText := ⟨ofString⟩

def empty : CodeText := ⟨[]⟩

def isEmpty (t : CodeText) : Bool := t.points.isEmpty

def append (s t : CodeText) : CodeText := ⟨s.points ++ t.points⟩

instance : Append CodeText := ⟨append⟩

def concat (parts : List CodeText) : CodeText := ⟨parts.flatMap points⟩

def isSurrogate (n : Nat) : Bool := 0xD800 ≤ n && n ≤ 0xDFFF

/-- The code points as characters; a surrogate is left out. -/
def chars (t : CodeText) : List Char :=
  t.points.filterMap fun n => if h : n.isValidChar then some (Char.ofNatAux n h) else none

def toString? (t : CodeText) : Option String :=
  if t.points.any isSurrogate then none else some (String.ofList t.chars)

def le (s t : CodeText) : Bool := !(t.points.lex s.points fun m n => m < n)

theorem ofChars_points (s : List Char) : (ofChars s).points = s.map Char.toNat := rfl

theorem chars_ofChars (s : List Char) : (ofChars s).chars = s := by
  have hsome : (fun n => if h : n.isValidChar then some (Char.ofNatAux n h) else none) ∘ Char.toNat =
      some := by
    funext c
    exact dif_pos c.valid
  change (s.map Char.toNat).filterMap _ = s
  rw [List.filterMap_map, hsome, List.filterMap_some]

theorem ofChars_injective {s t : List Char} (h : ofChars s = ofChars t) : s = t := by
  rw [← chars_ofChars s, ← chars_ofChars t, h]

end CodeText

end ComponentDoc
