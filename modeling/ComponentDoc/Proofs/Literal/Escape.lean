import ComponentDoc.Literal.Escape
import ComponentDoc.Proofs.Literal.Number

/-!
Escapes that stand for something. Main statement: the body of a string literal has a value unless it escapes
a code point beyond the last one.
-/

namespace ComponentDoc

namespace Escape

open Script

def isBackslash (c : Char) : Bool := c == '\\'

def backslashes (text : List Char) : Nat := (text.reverse.takeWhile isBackslash).length

def IsBeyond (digits : List Char) : Prop :=
  digits ≠ [] ∧ (∀ c ∈ digits, isHex c) ∧ 0x110000 ≤ hexNumber digits

/-- A text has a code point beyond the last one in the braces of an escape. The backslash of the escape is
not itself escaped: an even number of them precedes it. -/
def HasBeyond (body : List Char) : Prop :=
  ∃ front digits back, body = front ++ '\\' :: 'u' :: '{' :: (digits ++ '}' :: back) ∧ backslashes front % 2 = 0 ∧
    IsBeyond digits

section Steps

variable {c d : Char} {front plain rest : List Char}

theorem backslashes_cons (c : Char) (text : List Char) :
    backslashes (c :: text) = backslashes text + if text.all isBackslash ∧ isBackslash c then 1 else 0 := by
  rw [backslashes, backslashes, List.reverse_cons, List.takeWhile_append]
  by_cases hall : text.all isBackslash
  · have hself : text.reverse.takeWhile isBackslash = text.reverse :=
      List.takeWhile_eq_self_iff.mpr (by simpa using hall)
    rw [if_pos (congrArg List.length hself), hself, List.length_append]
    cases hc : isBackslash c <;> simp [hall, hc]
  · have hshort : (text.reverse.takeWhile isBackslash).length ≠ text.reverse.length := by
      intro hlength
      have hself := (List.takeWhile_prefix isBackslash).eq_of_length hlength
      exact hall (by simpa using List.takeWhile_eq_self_iff.mp hself)
    rw [if_neg hshort, if_neg fun hboth => hall hboth.1, Nat.add_zero]

theorem hasBeyond_cons (hc : c ≠ '\\') : HasBeyond (c :: rest) ↔ HasBeyond rest := by
  have hcount (front : List Char) : backslashes (c :: front) = backslashes front := by
    rw [backslashes_cons, if_neg fun h => hc (by simpa [isBackslash] using h.2), Nat.add_zero]
  constructor
  · rintro ⟨front, digits, back, hbody, heven, hbeyond⟩
    cases front with
    | nil => exact absurd (List.cons.inj hbody).1 hc
    | cons x front =>
      obtain ⟨rfl, rfl⟩ := List.cons.inj hbody
      rw [hcount] at heven
      exact ⟨front, digits, back, rfl, heven, hbeyond⟩
  · rintro ⟨front, digits, back, rfl, heven, hbeyond⟩
    refine ⟨c :: front, digits, back, rfl, ?_, hbeyond⟩
    rwa [hcount]

theorem hasBeyond_plain (h : ∀ c ∈ plain, c ≠ '\\') : HasBeyond (plain ++ rest) ↔ HasBeyond rest := by
  induction plain with
  | nil => rfl
  | cons c plain ih =>
    obtain ⟨hc, hplain⟩ := List.forall_mem_cons.mp h
    rw [List.cons_append, hasBeyond_cons hc, ih hplain]

theorem hasBeyond_escape : HasBeyond ('\\' :: d :: rest) ↔
    (d = 'u' ∧ ∃ digits back, rest = '{' :: (digits ++ '}' :: back) ∧ IsBeyond digits) ∨ HasBeyond rest := by
  have hcount (front : List Char) : backslashes ('\\' :: d :: front) % 2 = backslashes front % 2 := by
    rw [backslashes_cons, backslashes_cons, List.all_cons]
    by_cases h : front.all isBackslash ∧ isBackslash d
    · rw [if_pos h, if_pos ⟨by rw [h.1, h.2]; rfl, rfl⟩]
      omega
    · rw [if_neg h, if_neg fun hboth => h (Bool.and_eq_true_iff.mp hboth.1).symm]
      rfl
  constructor
  · rintro ⟨front, digits, back, hbody, heven, hbeyond⟩
    match front with
    | [] =>
      obtain ⟨rfl, rfl⟩ := List.cons.inj (List.cons.inj hbody).2
      exact .inl ⟨rfl, digits, back, rfl, hbeyond⟩
    | [x] =>
      obtain ⟨rfl, -⟩ := List.cons.inj hbody
      exact absurd heven (by decide)
    | x :: y :: front =>
      obtain ⟨rfl, hrest⟩ := List.cons.inj hbody
      obtain ⟨rfl, rfl⟩ := List.cons.inj hrest
      rw [hcount] at heven
      exact .inr ⟨front, digits, back, rfl, heven, hbeyond⟩
  · rintro (⟨rfl, digits, back, rfl, hbeyond⟩ | ⟨front, digits, back, rfl, heven, hbeyond⟩)
    · exact ⟨[], digits, back, rfl, rfl, hbeyond⟩
    · exact ⟨'\\' :: d :: front, digits, back, rfl, by rwa [hcount], hbeyond⟩

end Steps

section Sequences

variable {d : Char} {rest digits back : List Char}

theorem isHex_ne {c : Char} (h : isHex c) : c ≠ '\\' ∧ c ≠ '}' ∧ c ≠ '{' := by
  refine ⟨?_, ?_, ?_⟩ <;>
  · rintro rfl
    cases h

theorem takeWhile_isHex (h : ∀ c ∈ digits, isHex c) : (digits ++ '}' :: back).takeWhile isHex = digits := by
  rw [List.takeWhile_append_of_pos h, List.takeWhile_cons_of_neg (by decide), List.append_nil]

theorem braced_iff : ((rest.drop 1).takeWhile isHex ≠ [] ∧ rest.head? = some '{' ∧
    rest[((rest.drop 1).takeWhile isHex).length + 1]? = some '}') ↔
      ∃ digits back, rest = '{' :: (digits ++ '}' :: back) ∧ digits ≠ [] ∧ ∀ c ∈ digits, isHex c := by
  constructor
  · rintro ⟨hne, hhead, hclose⟩
    obtain ⟨more, rfl⟩ := List.head?_eq_some_iff.mp hhead
    rw [List.drop_one, List.tail_cons] at hne hclose
    rw [List.getElem?_cons_succ] at hclose
    have hsplit := List.takeWhile_append_dropWhile (p := isHex) (l := more)
    generalize hdigits : more.takeWhile isHex = digits at *
    rw [← hsplit, List.getElem?_append_right (Nat.le_refl _), Nat.sub_self, ← List.head?_eq_getElem?] at hclose
    obtain ⟨back, hback⟩ := List.head?_eq_some_iff.mp hclose
    refine ⟨digits, back, by rw [← hback, hsplit], hne, fun c hc => ?_⟩
    rw [← hdigits] at hc
    exact List.mem_takeWhile_imp hc
  · rintro ⟨digits, back, rfl, hne, hdigits⟩
    rw [List.drop_one, List.tail_cons, takeWhile_isHex hdigits]
    exact ⟨hne, rfl, by simp⟩

theorem braced_spec (hne : digits ≠ []) (hdigits : ∀ c ∈ digits, isHex c) (back : List Char) :
    match point (hexNumber digits) with
    | .error _ => HasBeyond ('\\' :: 'u' :: '{' :: (digits ++ '}' :: back))
    | .ok _ => HasBeyond ('\\' :: 'u' :: '{' :: (digits ++ '}' :: back)) ↔ HasBeyond back := by
  have hback : HasBeyond ('{' :: (digits ++ '}' :: back)) ↔ HasBeyond back := by
    rw [hasBeyond_cons (by decide), hasBeyond_plain fun c hc => (isHex_ne (hdigits c hc)).1,
      hasBeyond_cons (by decide)]
  by_cases hn : hexNumber digits < 0x110000
  · rw [point, if_pos hn]
    dsimp only
    rw [hasBeyond_escape, hback]
    refine or_iff_right ?_
    rintro ⟨-, digits', back', heq, -, hdigits', hbeyond⟩
    have hsame := congrArg (List.takeWhile isHex) (List.cons.inj heq).2
    rw [takeWhile_isHex hdigits, takeWhile_isHex hdigits'] at hsame
    rw [← hsame] at hbeyond
    exact Nat.not_le.mpr hn hbeyond
  · have hbeyond : HasBeyond ('\\' :: 'u' :: '{' :: (digits ++ '}' :: back)) :=
      hasBeyond_escape.mpr (.inl ⟨rfl, digits, back, rfl, hne, hdigits, Nat.not_lt.mp hn⟩)
    rw [point, if_neg hn]
    split
    · exact hbeyond
    · next hok => split at hok <;> cases hok

/-- What is read of an escape tells whether it, or what follows it, holds one of a code point beyond the
last. -/
def Tells (text : List Char) (rest : List Char) : Except LiteralError (List Nat × Nat) → Prop
  | .error _ => HasBeyond text
  | .ok (_, length) => HasBeyond text ↔ HasBeyond (rest.drop length)

/-- What an escape covers holds no other escape; it fails if it is one of a code point beyond the last. -/
theorem sequence_tells (d : Char) (rest : List Char) : Tells ('\\' :: d :: rest) (d :: rest) (sequence d rest) := by
  have hskip {n : Nat} (hall : (rest.take n).all isHex) : HasBeyond rest ↔ HasBeyond (rest.drop n) := by
    have hplain : HasBeyond (rest.take n ++ rest.drop n) ↔ HasBeyond (rest.drop n) :=
      hasBeyond_plain fun c hc => (isHex_ne (List.all_eq_true.mp hall c hc)).1
    rwa [List.take_append_drop] at hplain
  unfold sequence
  dsimp only
  split
  · next hbraced =>
    obtain ⟨rfl, hhead, hne, hclose⟩ := hbraced
    obtain ⟨digits, back, rfl, hne, hdigits⟩ := braced_iff.mp ⟨hne, hhead, hclose⟩
    have hspec := braced_spec hne hdigits back
    rw [List.drop_one, List.tail_cons, takeWhile_isHex hdigits]
    cases hpoint : point (hexNumber digits) with
    | error e =>
      rw [hpoint] at hspec
      exact hspec
    | ok n =>
      rw [hpoint] at hspec
      have hdrop : ('u' :: '{' :: (digits ++ '}' :: back)).drop (digits.length + 3) = back := by
        simp [List.drop_append]
      change HasBeyond _ ↔ HasBeyond (('u' :: '{' :: (digits ++ '}' :: back)).drop (digits.length + 3))
      rw [hdrop]
      exact hspec
  · next hnot =>
    have hother {after : List Char} (h : HasBeyond rest ↔ HasBeyond after) :
        HasBeyond ('\\' :: d :: rest) ↔ HasBeyond after := by
      rw [hasBeyond_escape, h]
      refine or_iff_right ?_
      rintro ⟨rfl, digits, back, hrest, hne, hdigits, -⟩
      obtain ⟨hne', hhead, hclose⟩ := braced_iff.mpr ⟨digits, back, hrest, hne, hdigits⟩
      exact hnot ⟨rfl, hhead, hne', hclose⟩
    split
    · next hfour => exact hother (hskip hfour.2.2)
    split
    · next htwo => exact hother (hskip htwo.2.2)
    split
    · next hfeed =>
      obtain ⟨more, rfl⟩ := List.head?_eq_some_iff.mp hfeed.2
      exact hother (hasBeyond_cons (by decide))
    · exact hother Iff.rfl

end Sequences

section Decoding

variable {c : Char}

theorem decodeFrom_plain (hc : c ≠ '\\') (rest : List Char) :
    decodeFrom 0 (c :: rest) = (decodeFrom 0 rest).map (c.toNat :: ·) := by
  cases rest <;> simp [decodeFrom, hc]

theorem decodeFrom_letter (hu : c ≠ 'u') (hx : c ≠ 'x') (hr : c ≠ '\r') (rest : List Char) :
    decodeFrom 0 ('\\' :: c :: rest) = (decodeFrom 0 rest).map (letter c ++ ·) := by
  simp [decodeFrom, sequence, hu, hx, hr]

theorem not_hasBeyond_short {text : List Char} (h : text.length < 5) : ¬HasBeyond text := by
  rintro ⟨front, digits, back, rfl, -, hne, -⟩
  have hpos := List.length_pos_iff.mpr hne
  simp only [List.length_append, List.length_cons] at h
  omega

theorem decodeFrom_isOk_iff (k : Nat) (text : List Char) :
    (decodeFrom k text).isOk ↔ ¬HasBeyond (text.drop k) := by
  fun_induction decodeFrom k text with
  | case1 k =>
    rw [List.drop_nil]
    exact iff_of_true rfl (not_hasBeyond_short (by decide))
  | case2 k c rest ih => exact ih
  | case3 => exact iff_of_true rfl (not_hasBeyond_short (by decide))
  | case4 d after e hsequence =>
    have htells := sequence_tells d after
    rw [hsequence] at htells
    exact iff_of_false nofun fun hnot => hnot htells
  | case5 d after points length hsequence ih =>
    have htells := sequence_tells d after
    rw [hsequence] at htells
    rw [isOk_map, ih]
    exact not_congr htells.symm
  | case6 c rest hc ih =>
    rw [isOk_map, ih]
    exact not_congr (hasBeyond_cons hc).symm

end Decoding

end Escape

theorem unescape_isOk_iff (body : List Char) : (unescape body).isOk ↔ ¬Escape.HasBeyond body := by
  rw [unescape, isOk_map]
  exact Escape.decodeFrom_isOk_iff 0 body

end ComponentDoc
