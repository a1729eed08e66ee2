import ComponentDoc.Proofs.ItemType.LiteralUnions
import ComponentDoc.Proofs.Literal.Integer

namespace ComponentDoc

namespace TypeExpression

open Text NumberLiteral

def isSimple (c : Char) : Bool :=
  !isQuote c && !isOpening c && !isClosing c && !isBlank c && c != '|' && c != ':'

variable {c : Char} {text : List Char} {previous : Option Char}

theorem isSimple_iff : isSimple c ↔ isQuote c = false ∧ isOpening c = false ∧ isClosing c = false ∧
    isBlank c = false ∧ c ≠ '|' ∧ c ≠ ':' := by
  simp [isSimple, and_assoc]

theorem partsFrom_simple (h : ∀ c ∈ text, isSimple c) : partsFrom (· == '|') ⟨0, none, previous⟩ text = [text] := by
  induction text generalizing previous with
  | nil => rfl
  | cons c text ih =>
    obtain ⟨hc, htext⟩ := List.forall_mem_cons.mp h
    obtain ⟨hquote, hopening, hclosing, -, hbar, -⟩ := isSimple_iff.mp hc
    have hcut : SplitState.cuts ⟨0, none, previous⟩ (· == '|') c = false := by simp [SplitState.cuts, hbar]
    have hnext : SplitState.next ⟨0, none, previous⟩ c = ⟨0, none, some c⟩ := by
      simp [SplitState.next, hquote, hopening, hclosing]
    rw [partsFrom, hnext, ih htext, hcut]
    rfl

theorem not_isWrapped_simple {opener closer : Char} (hopener : isOpening opener) (h : ∀ c ∈ text, isSimple c) :
    isWrapped opener closer text = false := by
  apply isWrapped_of_head
  intro hhead
  obtain ⟨-, hplain, -⟩ := isSimple_iff.mp (h opener (List.mem_of_mem_head? hhead))
  rw [hopener] at hplain
  cases hplain

theorem read_simple (hne : text ≠ []) (h : ∀ c ∈ text, isSimple c) (levels : Nat) :
    read (levels + 1) text = (readSingle text).map some := by
  have htrim : trim text = text := trim_of_no_blank fun c hc => (isSimple_iff.mp (h c hc)).2.2.2.1
  have hcolon : text.head? ≠ some ':' := by
    intro hhead
    exact (isSimple_iff.mp (h ':' (List.mem_of_mem_head? hhead))).2.2.2.2.2 rfl
  have hnormal : normalize text = text := by
    rw [normalize_of_trim htrim hcolon, not_isWrapped_simple (by decide) h]
    rfl
  have hsingle : alternatives (normalize text) = [text] := by
    rw [hnormal, alternatives, splitTopLevel, SplitState.start, partsFrom_simple h, List.map_singleton, htrim]
    simp [hne]
  rw [read_single (by rwa [hnormal]) hsingle, not_isWrapped_simple (by decide) h]
  rfl

section Integers

variable {m base : Nat} {sign magnitude big : List Char}

theorem isSimple_of_digitIn? (hbase : base ≤ 16) (h : (digitIn? base c).isSome) : isSimple c := by
  have hall : ∀ base < 17, ∀ n < 103, (digitIn? base (Char.ofNat n)).isSome → isSimple (Char.ofNat n) := by decide
  exact forall_digitIn? isSimple (hall base (by omega)) h

theorem isSimple_spaced {digits : List Char} (h : Spaced digits magnitude) (hbase : base ≤ 16)
    (hdigits : ∀ c ∈ digits, (digitIn? base c).isSome) : ∀ c ∈ magnitude, isSimple c := by
  intro c hc
  rcases h.mem c hc with hdigit | rfl
  · exact isSimple_of_digitIn? hbase (hdigits c hdigit)
  · decide

theorem isSimple_writes (h : Writes m base magnitude) : ∀ c ∈ magnitude, isSimple c := by
  cases h with
  | decimal hspaced => exact isSimple_spaced hspaced (by decide) digitIn?_of_toDigits
  | marked hmark hdigits hspaced =>
    obtain ⟨-, hlow, hhigh⟩ := bounds_of_baseMark? hmark
    have hmarks : ∀ c ∈ ['x', 'X', 'o', 'O', 'b', 'B'], isSimple c := List.all_eq_true.mp rfl
    rw [List.forall_mem_cons, List.forall_mem_cons]
    refine ⟨by decide, hmarks _ (mem_of_baseMark? hmark), ?_⟩
    exact isSimple_spaced hspaced hhigh (hdigits.digitIn? hlow hhigh)
  | octal _ hdigits _ hspaced => exact isSimple_spaced hspaced (by decide) (digitIn?_cons_zero hdigits)

theorem isSimple_signed (h : Writes m base magnitude) (hsign : sign ∈ [[], ['+'], ['-']]) (hbig : IsLetter big) :
    ∀ c ∈ sign ++ magnitude ++ big, isSimple c := by
  have hsigns : ∀ sign ∈ [[], ['+'], ['-']], sign.all isSimple := List.all_eq_true.mp rfl
  rw [List.forall_mem_append, List.forall_mem_append]
  refine ⟨⟨List.all_eq_true.mp (hsigns sign hsign), isSimple_writes h⟩, ?_⟩
  rcases hbig with rfl | rfl
  · exact List.forall_mem_nil _
  · exact List.all_eq_true.mp rfl

theorem quotation?_simple (h : ∀ c ∈ text, isSimple c) : quotation? text = none := by
  cases text with
  | nil => rfl
  | cons c text =>
    have hquote := (isSimple_iff.mp (h c List.mem_cons_self)).1
    simp [quotation?, hquote]

theorem read_of_isNumeral (hne : text ≠ []) (h : ∀ c ∈ text, isSimple c) (hnumeral : isNumeral text) (levels : Nat) :
    read (levels + 1) text = (parse text).map fun v => some (.const v) := by
  have hliteral : literal? text = (parse text).map some := by
    rw [literal?, quotation?_simple h]
    exact if_pos hnumeral
  rw [read_simple hne h, readSingle, hliteral]
  cases parse text <;> rfl

/-- A whole number is read exactly, and as the type of its value, unless it is a decimal number of too many
digits. -/
theorem reads_integers (h : Writes m base magnitude) (hsign : sign ∈ [[], ['+'], ['-']]) (hbig : IsLetter big)
    (levels : Nat) :
    let text := sign ++ magnitude ++ big
    let value : Except LiteralError Literal :=
      if base = 10 ∧ 10 ^ maxDigits ≤ m then .error (.tooManyDigits (Nat.toDigits 10 m).length)
      else .ok (.int (if sign = ['-'] then -m else m))
    parse text = value ∧ read (levels + 1) text = value.map fun v => some (.const v) := by
  have hparse := h.parse hsign hbig
  have hne : sign ++ magnitude ++ big ≠ [] := by
    obtain ⟨c, rest, rfl, -⟩ := h.exists_head
    simp
  refine ⟨hparse, ?_⟩
  rw [read_of_isNumeral hne (isSimple_signed h hsign hbig) (h.isNumeral hsign hbig), hparse]

theorem reads_integers_hexadecimal :
    Writes 255 16 "0X0_f__F".toList ∧ parse "-0X0_f__Fn".toList = .ok (.int (-255)) ∧
      read (levelsAt 0) "-0X0_f__Fn".toList = .ok (some (.const (.int (-255)))) := by
  have hdigits : IsDigitsOf 16 255 ['0', 'f', 'F'] := ⟨1, by decide⟩
  have hwrites : Writes 255 16 "0X0_f__F".toList := .marked rfl hdigits (.cons '0' 1 (.cons 'f' 2 (.last 'F')))
  have hsign : ['-'] ∈ [[], ['+'], ['-']] := by decide
  exact ⟨hwrites, reads_integers hwrites hsign (.inr rfl) 4⟩

theorem toDigits_pow (k : Nat) : Nat.toDigits 10 (10 ^ k) = '1' :: List.replicate k '0' := by
  induction k with
  | zero => rfl
  | succ k ih =>
    have happend := Nat.toDigits_append_toDigits (by decide : 1 < 10) (Nat.pow_pos (by decide) : 0 < 10 ^ k)
      (by decide : 0 < 10)
    rw [Nat.pow_succ', ← Nat.add_zero (10 * 10 ^ k), ← happend, ih, List.replicate_succ']
    rfl

/-- One digit more than are read. -/
theorem integer_too_long :
    let text := '1' :: List.replicate maxDigits '0'
    Writes (10 ^ maxDigits) 10 text ∧ parse text = .error (.tooManyDigits 4301) ∧
      read (levelsAt 0) text = .error (.tooManyDigits 4301) := by
  intro text
  have hwrites : Writes (10 ^ maxDigits) 10 text := by
    have hspaced := Spaced.self (List.cons_ne_nil '1' (List.replicate maxDigits '0'))
    refine .decimal ?_
    rwa [toDigits_pow]
  have hnil : [] ∈ [[], ['+'], ['-']] := List.mem_cons_self
  have hlength : (Nat.toDigits 10 (10 ^ maxDigits)).length = 4301 := by
    rw [toDigits_pow, List.length_cons, List.length_replicate]
    rfl
  have hparse := hwrites.parse hnil (.inl rfl)
  rw [if_pos ⟨rfl, Nat.le_refl _⟩, hlength, List.nil_append, List.append_nil] at hparse
  have hsimple := isSimple_writes hwrites
  have hnumeral := hwrites.isNumeral hnil (.inl rfl)
  rw [List.nil_append, List.append_nil] at hnumeral
  refine ⟨hwrites, hparse, ?_⟩
  exact (read_of_isNumeral (List.cons_ne_nil _ _) hsimple hnumeral 4).trans (by rw [hparse]; rfl)

end Integers

end TypeExpression

end ComponentDoc
