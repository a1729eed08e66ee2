import ComponentDoc.Proofs.Literal.Escape
import ComponentDoc.Proofs.Literal.Integer

namespace ComponentDoc

namespace Escape

open Script

def letters : List (Char × Nat) := [('n', 10), ('t', 9), ('r', 13), ('b', 8), ('f', 12), ('v', 11), ('0', 0)]

def marks : List Char := ['n', 't', 'r', 'b', 'f', 'v', '0', 'u', 'x', '\r', '\n']

/-- A code point as it may be written. Half of a surrogate pair is no character, but it may be escaped. -/
inductive SpellsPoint : Nat → List Char → Prop
  | plain {c : Char} : c ≠ '\\' → SpellsPoint c.toNat [c]
  | two {n : Nat} {digits : List Char} : IsDigitsOf 16 n digits → digits.length = 2 →
      SpellsPoint n ('\\' :: 'x' :: digits)
  | four {n : Nat} {digits : List Char} : IsDigitsOf 16 n digits → digits.length = 4 →
      SpellsPoint n ('\\' :: 'u' :: digits)
  | braced {n : Nat} {digits : List Char} : n < 0x110000 → IsDigitsOf 16 n digits →
      SpellsPoint n ('\\' :: 'u' :: '{' :: (digits ++ ['}']))
  | letter {c : Char} {n : Nat} : (c, n) ∈ letters → SpellsPoint n ['\\', c]
  | escaped {c : Char} : c ∉ marks → SpellsPoint c.toNat ['\\', c]

/-- Code points one after another, and lines that go on between them. -/
inductive Spells : List Nat → List Char → Prop
  | nil : Spells [] []
  | goesOn {points : List Nat} {text : List Char} : Spells points text → Spells points ('\\' :: '\n' :: text)
  | cons {n : Nat} {points : List Nat} {piece text : List Char} : SpellsPoint n piece → Spells points text →
      Spells (n :: points) (piece ++ text)

variable {n k : Nat} {c d : Char} {points : List Nat} {digits piece rest text : List Char}

section Hex

theorem isHex_of_isDigitsOf (h : IsDigitsOf 16 n digits) : ∀ c ∈ digits, isHex c :=
  fun c hc => NumberLiteral.isHex_of_digitIn? (h.digitIn? (by decide) (by decide) c hc)

theorem hexNumber_eq (h : IsDigitsOf 16 n digits) : hexNumber digits = n := by
  have hall := h.digitIn? (by decide) (by decide)
  rw [hexNumber, ← withDigits_eq_foldl (by decide) hall, h.withDigits (by decide) (by decide)]

end Hex

section Sequence

theorem sequence_braced (hn : n < 0x110000) (hdigits : IsDigitsOf 16 n digits) (rest : List Char) :
    sequence 'u' ('{' :: (digits ++ '}' :: rest)) = .ok ([n], digits.length + 3) := by
  have hread : (('{' :: (digits ++ '}' :: rest)).drop 1).takeWhile isHex = digits :=
    takeWhile_isHex (isHex_of_isDigitsOf hdigits)
  have hclose : ('{' :: (digits ++ '}' :: rest))[digits.length + 1]? = some '}' := by simp
  have hbraced : ('u' = 'u' ∧ ('{' :: (digits ++ '}' :: rest)).head? = some '{' ∧ digits ≠ [] ∧
      ('{' :: (digits ++ '}' :: rest))[digits.length + 1]? = some '}') :=
    ⟨rfl, rfl, hdigits.ne_nil, hclose⟩
  rw [sequence, hread, if_pos hbraced, hexNumber_eq hdigits, point, if_pos hn]
  rfl

theorem head?_ne_brace (hdigits : IsDigitsOf 16 n digits) (rest : List Char) : (digits ++ rest).head? ≠ some '{' := by
  intro hbrace
  cases digits with
  | nil => exact hdigits.ne_nil rfl
  | cons c digits =>
    have hc := isHex_of_isDigitsOf hdigits c List.mem_cons_self
    exact (isHex_ne hc).2.2 (Option.some.inj hbrace)

theorem sequence_four (hdigits : IsDigitsOf 16 n digits) (hlength : digits.length = 4) (rest : List Char) :
    sequence 'u' (digits ++ rest) = .ok ([n], 5) := by
  have htake : (digits ++ rest).take 4 = digits := List.take_left' hlength
  have hall : digits.all isHex := List.all_eq_true.mpr (isHex_of_isDigitsOf hdigits)
  rw [sequence, if_neg fun h => head?_ne_brace hdigits rest h.2.1, htake, if_pos ⟨rfl, hlength, hall⟩,
    hexNumber_eq hdigits]

theorem sequence_two (hdigits : IsDigitsOf 16 n digits) (hlength : digits.length = 2) (rest : List Char) :
    sequence 'x' (digits ++ rest) = .ok ([n], 3) := by
  have htake : (digits ++ rest).take 2 = digits := List.take_left' hlength
  have hall : digits.all isHex := List.all_eq_true.mpr (isHex_of_isDigitsOf hdigits)
  rw [sequence, if_neg fun h => absurd h.1 (by decide), if_neg fun h => absurd h.1 (by decide), htake,
    if_pos ⟨rfl, hlength, hall⟩, hexNumber_eq hdigits]

theorem letter_of_mem (h : (c, n) ∈ letters) : letter c = [n] ∧ c ≠ 'u' ∧ c ≠ 'x' ∧ c ≠ '\r' := by
  have hall : ∀ entry ∈ letters, letter entry.1 = [entry.2] ∧ entry.1 ≠ 'u' ∧ entry.1 ≠ 'x' ∧ entry.1 ≠ '\r' := by
    decide
  exact hall (c, n) h

theorem letter_of_not_mem (h : c ∉ marks) : letter c = [c.toNat] := by
  simp only [marks, List.mem_cons, List.not_mem_nil, or_false, not_or] at h
  unfold letter
  split <;> simp_all

end Sequence

section Decoding

theorem decodeFrom_drop (k : Nat) (text : List Char) : decodeFrom k text = decodeFrom 0 (text.drop k) := by
  induction k generalizing text with
  | zero => rfl
  | succ k ih =>
    cases text with
    | nil => rfl
    | cons c text => exact ih text

theorem decodeFrom_sequence {after : List Char} {length : Nat} (h : sequence d after = .ok (points, length))
    (hdrop : (d :: after).drop length = rest) :
    decodeFrom 0 ('\\' :: d :: after) = (decodeFrom 0 rest).map (points ++ ·) := by
  rw [decodeFrom, if_pos rfl, h]
  dsimp only
  rw [decodeFrom_drop, hdrop]

theorem SpellsPoint.decodeFrom (h : SpellsPoint n piece) (rest : List Char) :
    decodeFrom 0 (piece ++ rest) = (Escape.decodeFrom 0 rest).map (n :: ·) := by
  cases h with
  | plain hc => exact decodeFrom_plain hc rest
  | two hdigits hlength =>
    apply decodeFrom_sequence (sequence_two hdigits hlength rest)
    exact List.drop_left' hlength
  | four hdigits hlength =>
    apply decodeFrom_sequence (sequence_four hdigits hlength rest)
    exact List.drop_left' hlength
  | @braced _ digits hn hdigits =>
    have hpiece : '\\' :: 'u' :: '{' :: (digits ++ ['}']) ++ rest =
        '\\' :: 'u' :: '{' :: (digits ++ '}' :: rest) := by simp
    rw [hpiece]
    apply decodeFrom_sequence (sequence_braced hn hdigits rest)
    simp [List.drop_append]
  | letter hmem =>
    obtain ⟨hletter, hu, hx, hr⟩ := letter_of_mem hmem
    have hdecoded := decodeFrom_letter hu hx hr rest
    rwa [hletter] at hdecoded
  | @escaped c hmarks =>
    have hne {d : Char} (hd : d ∈ marks) : c ≠ d := by
      rintro rfl
      exact hmarks hd
    have hdecoded := decodeFrom_letter (hne (by decide)) (hne (by decide)) (hne (by decide)) rest
    rwa [letter_of_not_mem hmarks] at hdecoded

theorem Spells.decodeFrom (h : Spells points text) : decodeFrom 0 text = .ok points := by
  induction h with
  | nil => rfl
  | @goesOn points text h ih =>
    have hstep := decodeFrom_letter (c := '\n') (by decide) (by decide) (by decide) text
    rw [hstep, ih]
    rfl
  | cons hpoint h ih =>
    rw [hpoint.decodeFrom, ih]
    rfl

end Decoding

end Escape

open Escape

/-- However the code points of a text are spelled in the body of a string literal, they are its value. -/
theorem unescape_of_spells {points : List Nat} {body : List Char} (h : Spells points body) :
    unescape body = .ok ⟨points⟩ := by
  rw [unescape, h.decodeFrom]
  rfl

theorem unescape_mixed_spellings :
    let points := [0x62, 0x61, 0xd835, 0x30, 0, 0x5c, 0x1f600, 0x7d]
    let body := "\\x62a\\\n\\uD8350\\0\\\\\\u\x7b001f600\x7d\x7d".toList
    Spells points body ∧ unescape body = .ok ⟨points⟩ := by
  intro points body
  have htwo : SpellsPoint 0x62 "\\x62".toList := .two ⟨0, rfl⟩ rfl
  have hfour : SpellsPoint 0xd835 "\\uD835".toList := .four ⟨0, by decide⟩ rfl
  have hletter : SpellsPoint 0 "\\0".toList := .letter (by decide)
  have hescaped : SpellsPoint 0x5c "\\\\".toList := .escaped (c := '\\') (by decide)
  have hbraced : SpellsPoint 0x1f600 "\\u\x7b001f600\x7d".toList :=
    @SpellsPoint.braced _ "001f600".toList (by decide) ⟨2, by decide⟩
  have hplain {c : Char} (hc : c ≠ '\\') : SpellsPoint c.toNat [c] := .plain hc
  have htail : Spells [0x5c, 0x1f600, 0x7d] "\\\\\\u\x7b001f600\x7d\x7d".toList :=
    .cons hescaped (.cons hbraced (.cons (hplain (c := '}') (by decide)) .nil))
  have hspells : Spells points body :=
    .cons htwo (.cons (hplain (c := 'a') (by decide)) (.goesOn (.cons hfour
      (.cons (hplain (c := '0') (by decide)) (.cons hletter htail)))))
  exact ⟨hspells, unescape_of_spells hspells⟩

end ComponentDoc
