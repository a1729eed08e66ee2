import ComponentDoc.Script.Source
import Mathlib.Data.List.Infix

/-!
Bytes and characters of a script. Main statement: between boundaries of characters the table of
characters cuts out of a text what the byte offsets cut out of its UTF-8 form.
-/

namespace ComponentDoc.Script

def utf8 (text : List Char) : List UInt8 := text.flatMap String.utf8EncodeChar

theorem utf8_append (s t : List Char) : utf8 (s ++ t) = utf8 s ++ utf8 t := List.flatMap_append

theorem byteLength_eq_length_utf8 (text : List Char) : byteLength text = (utf8 text).length := by
  have hfoldl (n : Nat) : text.foldl (fun n c => n + c.utf8Size) n = n + (utf8 text).length := by
    induction text generalizing n with
    | nil => rfl
    | cons c text ih =>
      rw [List.foldl_cons, ih, Nat.add_assoc, ← String.length_utf8EncodeChar, ← List.length_append]
      rfl
  exact (hfoldl 0).trans (Nat.zero_add _)

theorem byteLength_append (s t : List Char) : byteLength (s ++ t) = byteLength s + byteLength t := by
  simp only [byteLength_eq_length_utf8, utf8_append, List.length_append]

theorem byteLength_cons (c : Char) (text : List Char) :
    byteLength (c :: text) = c.utf8Size + byteLength text := by
  rw [← List.singleton_append, byteLength_append]
  exact congrArg (· + byteLength text) (Nat.zero_add _)

theorem length_le_byteLength (text : List Char) : text.length ≤ byteLength text := by
  induction text with
  | nil => exact Nat.le_refl _
  | cons c text ih =>
    rw [byteLength_cons, List.length_cons, Nat.add_comm]
    exact Nat.add_le_add c.utf8Size_pos ih

def IsBoundary (text : List Char) (n : Nat) : Prop := ∃ before, before <+: text ∧ byteLength before = n

instance (text : List Char) (n : Nat) : Decidable (IsBoundary text n) :=
  decidable_of_iff (∃ before ∈ text.inits, byteLength before = n) (by simp only [IsBoundary, List.mem_inits])

theorem length_charTable (first : Nat) (text : List Char) :
    (charTable first text).length = byteLength text + 1 := by
  induction text generalizing first with
  | nil => rfl
  | cons c text ih =>
    rw [charTable, List.length_append, List.length_replicate, ih, byteLength_cons, Nat.add_assoc]

theorem charTable_boundary (first : Nat) {before text : List Char} (h : before <+: text) :
    (charTable first text)[byteLength before]? = some (first + before.length) := by
  induction before generalizing first text with
  | nil =>
    cases text with
    | nil => rfl
    | cons c text =>
      have hpos : 0 < (List.replicate c.utf8Size first).length := List.length_replicate ▸ c.utf8Size_pos
      exact (List.getElem?_append_left hpos).trans (List.getElem?_replicate_of_lt c.utf8Size_pos)
  | cons c before ih =>
    obtain ⟨after, rfl⟩ := h
    rw [List.cons_append, charTable, byteLength_cons,
      List.getElem?_append_right (by rw [List.length_replicate]; exact Nat.le_add_right _ _),
      List.length_replicate, Nat.add_sub_cancel_left, ih (first + 1) (List.prefix_append _ _),
      List.length_cons, Nat.add_assoc, Nat.add_comm 1]

theorem byteLength_take {text : List Char} (h : byteLength text = text.length) {n : Nat} (hn : n ≤ text.length) :
    byteLength (text.take n) = n := by
  have hbytes := byteLength_append (text.take n) (text.drop n)
  have hchars := congrArg List.length (List.take_append_drop n text)
  rw [List.length_append] at hchars
  rw [List.take_append_drop] at hbytes
  have htake := length_le_byteLength (text.take n)
  have hdrop := length_le_byteLength (text.drop n)
  rw [List.length_take_of_le hn] at htake hchars
  omega

theorem charTable_narrow {text : List Char} (h : byteLength text = text.length) {n : Nat} (hn : n ≤ text.length) :
    (charTable 0 text)[n]? = some n := by
  have := charTable_boundary 0 (List.take_prefix n text)
  rwa [byteLength_take h hn, List.length_take_of_le hn, Nat.zero_add] at this

theorem prefix_of_byteLength_le {s t text : List Char} (hs : s <+: text) (ht : t <+: text)
    (h : byteLength s ≤ byteLength t) : s <+: t := by
  rcases List.prefix_or_prefix_of_prefix hs ht with hst | ⟨rest, rfl⟩
  · exact hst
  · rw [byteLength_append] at h
    have hrest := length_le_byteLength rest
    rw [List.length_eq_zero_iff.mp (by omega : rest.length = 0), List.append_nil]

namespace Source

variable {s : Source}

/-- The script knows whether some of its characters take more than a byte. -/
def KnowsWidth (s : Source) : Prop := s.wide = true ↔ byteLength s.text ≠ s.text.length

theorem charAt_boundary (h : s.KnowsWidth) {before : List Char} (hb : before <+: s.text) :
    s.charAt (byteLength before) = before.length := by
  unfold charAt
  split
  · rw [List.getD_eq_getElem?_getD, charTable_boundary 0 hb, Nat.zero_add, Option.getD_some]
  · next hwide =>
    have hnarrow : byteLength s.text = s.text.length := Decidable.not_not.mp (mt h.mpr hwide)
    obtain ⟨after, htext⟩ := hb
    have := length_le_byteLength before
    have := length_le_byteLength after
    rw [← htext, byteLength_append, List.length_append] at hnarrow
    omega

theorem charAt_eq_charTable (h : s.KnowsWidth) {n : Nat} (hn : n ≤ byteLength s.text) :
    (charTable 0 s.text)[n]? = some (s.charAt n) := by
  unfold charAt
  split
  · have hlt : n < (charTable 0 s.text).length := by rw [length_charTable]; omega
    rw [List.getD_eq_getElem?_getD, List.getElem?_eq_getElem hlt, Option.getD_some]
  · next hwide =>
    have hnarrow : byteLength s.text = s.text.length := Decidable.not_not.mp (mt h.mpr hwide)
    exact charTable_narrow hnarrow (hnarrow ▸ hn)

theorem utf8_slice (h : s.KnowsWidth) {start stop : Nat} (hstart : IsBoundary s.text start)
    (hstop : IsBoundary s.text stop) :
    utf8 (s.slice start stop) = ((utf8 s.text).drop start).take (stop - start) := by
  obtain ⟨before, hbefore, rfl⟩ := hstart
  obtain ⟨upTo, hupTo, rfl⟩ := hstop
  rw [slice, charAt_boundary h hbefore, charAt_boundary h hupTo, Text.slice]
  rcases Nat.le_total (byteLength before) (byteLength upTo) with hle | hle
  · obtain ⟨inside, rfl⟩ := prefix_of_byteLength_le hbefore hupTo hle
    obtain ⟨after, htext⟩ := hupTo
    have hchars : (s.text.drop before.length).take ((before ++ inside).length - before.length) = inside := by
      rw [← htext, List.append_assoc, List.drop_left, List.length_append, Nat.add_sub_cancel_left, List.take_left]
    rw [hchars, byteLength_append, Nat.add_sub_cancel_left, ← htext, utf8_append, utf8_append, List.append_assoc,
      byteLength_eq_length_utf8, byteLength_eq_length_utf8, List.drop_left, List.take_left]
  · obtain ⟨inside, rfl⟩ := prefix_of_byteLength_le hupTo hbefore hle
    rw [Nat.sub_eq_zero_of_le hle, Nat.sub_eq_zero_of_le (List.length_append ▸ Nat.le_add_right _ _)]
    rfl

theorem knowsWidth_of_parse [Reader] {text : List Char} {offset : Int} {lang : Option String}
    (h : parse text offset lang = .ok s) : s.KnowsWidth ∧ s.text = text ∧ s.offset = offset := by
  unfold parse at h
  dsimp only at h
  split at h
  · cases h
  · cases h
    exact ⟨by simp [KnowsWidth], rfl, rfl⟩

end Source

end ComponentDoc.Script
