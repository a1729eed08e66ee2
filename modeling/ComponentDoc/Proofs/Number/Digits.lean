import ComponentDoc.Proofs.Number.Reading
import Mathlib.Data.Nat.Digits.Defs

namespace ComponentDoc

open Text

/-- Digits of `n` in a base, the letters among them in either case, and maybe with zeros in front. -/
def IsDigitsOf (base n : Nat) (digits : List Char) : Prop :=
  ∃ zeros, digits.map Char.toLower = List.replicate zeros '0' ++ Nat.toDigits base n

def withDigits (base n : Nat) (digits : List Char) : Nat :=
  digits.foldl (fun n c => base * n + (digitIn? base c).getD 0) n

variable {base n d : Nat} {c : Char} {digits : List Char}

section Digit

theorem toLower_of_not_upper (h : ¬(65 ≤ c.toNat ∧ c.toNat ≤ 90)) : c.toLower = c := by
  unfold Char.toLower
  split
  · next hupper => exact absurd hupper h
  · rfl

theorem digitIn?_toLower (hbase : base ≤ 16) (c : Char) : digitIn? base c.toLower = digitIn? base c := by
  by_cases hupper : 65 ≤ c.toNat ∧ c.toNat ≤ 90
  · have hall : ∀ base < 17, ∀ n < 91, 65 ≤ n →
        digitIn? base (Char.ofNat n).toLower = digitIn? base (Char.ofNat n) := by decide
    have h := hall base (by omega) c.toNat (by omega) hupper.1
    rwa [Char.ofNat_toNat] at h
  · rw [toLower_of_not_upper hupper]

theorem digitIn?_digitChar (hd : d < base) (hbase : base ≤ 16) : digitIn? base (Nat.digitChar d) = some d := by
  have hall : ∀ base < 17, ∀ d < base, digitIn? base (Nat.digitChar d) = some d := by decide
  apply hall
  · omega
  · exact hd

theorem forall_digitIn? (p : Char → Bool) (h : ∀ n < 103, (digitIn? base (Char.ofNat n)).isSome → p (Char.ofNat n))
    (hc : (digitIn? base c).isSome) : p c := by
  have hcodes := toNat_of_digitIn? hc
  have hp := h c.toNat (by omega)
  rw [Char.ofNat_toNat] at hp
  exact hp hc

end Digit

section Value

theorem withDigits_append (base n : Nat) (front back : List Char) :
    withDigits base n (front ++ back) = withDigits base (withDigits base n front) back :=
  List.foldl_append

theorem withDigits_eq_foldl {value : Char → Nat} (hvalue : ∀ n < 103, (digitIn? base (Char.ofNat n)).isSome →
      digitIn? base (Char.ofNat n) == some (value (Char.ofNat n)))
    (h : ∀ c ∈ digits, (digitIn? base c).isSome) (n : Nat) :
    withDigits base n digits = digits.foldl (fun n c => base * n + value c) n := by
  induction digits generalizing n with
  | nil => rfl
  | cons c digits ih =>
    obtain ⟨hc, hdigits⟩ := List.forall_mem_cons.mp h
    have hd := forall_digitIn? (fun c => digitIn? base c == some (value c)) hvalue hc
    rw [List.foldl_cons, ← ih hdigits]
    simp [withDigits, eq_of_beq hd]

theorem withDigits_toLower (hbase : base ≤ 16) (n : Nat) (digits : List Char) :
    withDigits base n (digits.map Char.toLower) = withDigits base n digits := by
  simp only [withDigits, List.foldl_map, digitIn?_toLower hbase]

theorem withDigits_zeros (h : 1 < base) (zeros : Nat) : withDigits base 0 (List.replicate zeros '0') = 0 := by
  have hzero : digitIn? base '0' = some 0 := by simp [digitIn?]; omega
  induction zeros with
  | zero => rfl
  | succ zeros ih =>
    rw [List.replicate_succ]
    simp only [withDigits, List.foldl_cons, hzero] at ih ⊢
    exact ih

variable (hlow : 1 < base) (hhigh : base ≤ 16)

include hlow hhigh

theorem withDigits_toDigits (n : Nat) : withDigits base 0 (Nat.toDigits base n) = n := by
  induction n using Nat.strongRecOn with
  | ind n ih =>
    rw [Nat.toDigits_eq_if hlow]
    split
    · next hn => simp [withDigits, digitIn?_digitChar hn hhigh]
    · next hn =>
      have hmod : n % base < base := Nat.mod_lt _ (by omega)
      have hdiv : n / base < n := Nat.div_lt_self (by omega) hlow
      rw [withDigits_append, ih _ hdiv]
      simp only [withDigits, List.foldl_cons, List.foldl_nil, digitIn?_digitChar hmod hhigh, Option.getD_some]
      exact Nat.div_add_mod n base

theorem digitIn?_of_mem_toDigits (h : c ∈ Nat.toDigits base n) : (digitIn? base c).isSome := by
  induction n using Nat.strongRecOn with
  | ind n ih =>
    rw [Nat.toDigits_eq_if hlow] at h
    split at h
    · next hn =>
      rw [List.mem_singleton.mp h, digitIn?_digitChar hn hhigh]
      rfl
    · next hn =>
      rcases List.mem_append.mp h with h | h
      · exact ih _ (Nat.div_lt_self (by omega) hlow) h
      · rw [List.mem_singleton.mp h, digitIn?_digitChar (Nat.mod_lt _ (by omega)) hhigh]
        rfl

theorem IsDigitsOf.withDigits (h : IsDigitsOf base n digits) : withDigits base 0 digits = n := by
  obtain ⟨zeros, hdigits⟩ := h
  rw [← withDigits_toLower hhigh, hdigits, withDigits_append, withDigits_zeros hlow, withDigits_toDigits hlow hhigh]

theorem IsDigitsOf.digitIn? (h : IsDigitsOf base n digits) : ∀ c ∈ digits, (digitIn? base c).isSome := by
  obtain ⟨zeros, hdigits⟩ := h
  intro c hc
  have hlower : c.toLower ∈ List.replicate zeros '0' ++ Nat.toDigits base n := by
    rw [← hdigits]
    exact List.mem_map_of_mem hc
  rw [← digitIn?_toLower hhigh]
  rcases List.mem_append.mp hlower with hzero | hdigit
  · rw [List.eq_of_mem_replicate hzero]
    simp [ComponentDoc.digitIn?]
    omega
  · exact digitIn?_of_mem_toDigits hlow hhigh hdigit

omit hlow hhigh in
theorem IsDigitsOf.ne_nil (h : IsDigitsOf base n digits) : digits ≠ [] := by
  rintro rfl
  obtain ⟨zeros, hdigits⟩ := h
  have hnil := (List.append_eq_nil_iff.mp hdigits.symm).2
  exact Nat.toDigits_ne_nil hnil

end Value

section Reading

theorem naturalFrom_eq (h : ∀ c ∈ digits, (digitIn? base c).isSome) (n : Nat) :
    naturalFrom base n digits = some (withDigits base n digits) := by
  induction digits generalizing n with
  | nil => rfl
  | cons c digits ih =>
    obtain ⟨hc, hdigits⟩ := List.forall_mem_cons.mp h
    obtain ⟨d, hd⟩ := Option.isSome_iff_exists.mp hc
    have hline : c ≠ '_' := by
      rintro rfl
      cases hc
    rw [naturalFrom]
    · rw [hd]
      dsimp only
      rw [ih hdigits]
      simp [withDigits, hd]
    · intro c' rest hc'
      exact absurd hc' hline

theorem natural?_eq (hne : digits ≠ []) (h : ∀ c ∈ digits, (digitIn? base c).isSome) :
    natural? base digits = some (withDigits base 0 digits) := by
  obtain ⟨c, digits, rfl⟩ := List.exists_cons_of_ne_nil hne
  obtain ⟨hc, hdigits⟩ := List.forall_mem_cons.mp h
  obtain ⟨d, hd⟩ := Option.isSome_iff_exists.mp hc
  rw [natural?, hd, Option.bind_some, naturalFrom_eq hdigits]
  simp [withDigits, hd]

theorem plainNumeral_digits (h : ∀ c ∈ digits, (digitIn? base c).isSome) : plainNumeral digits = digits := by
  have hplain : ∀ c ∈ digits, plainChar c = c := by
    intro c hc
    have hcodes := toNat_of_digitIn? (h c hc)
    apply plainChar_of_lt
    omega
  have hblank : ∀ c ∈ digits, isAsciiBlank (plainChar c) = false := by
    intro c hc
    rw [hplain c hc]
    exact not_blank_of_digitIn? (h c hc)
  have heq := plainNumeral_append hblank (List.forall_mem_nil _)
  rwa [List.append_nil, List.map_congr_left hplain, List.map_id'] at heq

theorem readInteger_eq (hne : digits ≠ []) (h : ∀ c ∈ digits, (digitIn? base c).isSome) :
    readInteger base digits =
      if base ∉ [2, 8, 16] ∧ maxDigits < digits.length then .error (.tooManyDigits digits.length)
      else .ok (withDigits base 0 digits) := by
  have hsign : cutSign digits = (false, digits) := by
    apply cutSign_eq
    intro c hc
    have hcodes := toNat_of_digitIn? (h c (List.mem_of_mem_head? hc))
    constructor <;>
    · rintro rfl
      revert hcodes
      decide
  have hmarked := markedNatural?_eq h (.inl rfl)
  rw [List.append_nil, natural?_eq hne h] at hmarked
  unfold readInteger
  rw [plainNumeral_digits h, hsign]
  dsimp only
  rw [hmarked, countedDigits_eq h]
  by_cases hbase : base ∈ [2, 8, 16]
  · simp [hbase]
  · simp only [hbase, not_false_eq_true, true_and]
    rfl

end Reading

end ComponentDoc
