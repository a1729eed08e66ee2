import ComponentDoc.Number.Reading
import Mathlib.Algebra.Order.Ring.Nat

namespace ComponentDoc

namespace Double

def IsCanonical : Double → Prop
  | finite _ m e => m < 2 ^ 53 ∧ -1074 ≤ e ∧ (2 ^ 52 ≤ m ∨ e = -1074)
  | _ => True

variable {x y z : Double} {m n : Int}

section Equality

theorem numericEq_self (h : x ≠ nan) : x.numericEq x := by
  cases x with
  | nan => exact absurd rfl h
  | infinite s => simp [numericEq]
  | finite s m e => simp [numericEq]

theorem numericEq_trans (hxy : x.numericEq y) (hyz : y.numericEq z) : x.numericEq z := by
  cases x <;> cases y <;> cases z <;> simp [numericEq] at hxy hyz ⊢
  · exact hxy.trans hyz
  · obtain ⟨⟨rfl, rfl⟩, hsign⟩ := hxy
    obtain ⟨⟨rfl, rfl⟩, hsign'⟩ := hyz
    refine ⟨⟨rfl, rfl⟩, ?_⟩
    rcases hsign with rfl | hzero
    · exact hsign'
    · exact .inr hzero

theorem isInt_finite_iff {s : Bool} {a : Nat} {e : Int} : (finite s a e).isInt n ↔
    a * 2 ^ e.toNat = n.natAbs * 2 ^ (-e).toNat ∧ (a = 0 ∨ s = decide (n < 0)) := by
  simp only [isInt, powerOfTwo, Bool.and_eq_true, Bool.or_eq_true, beq_iff_eq]
  norm_cast
  rw [decide_eq_true_iff]
  rfl

theorem isInt_congr (h : x.numericEq y) : x.isInt n ↔ y.isInt n := by
  cases x <;> cases y <;> simp only [numericEq, Bool.false_eq_true, Bool.and_eq_true, beq_iff_eq] at h
  · exact Iff.rfl
  · obtain ⟨⟨rfl, rfl⟩, hsign⟩ := h
    rw [isInt_finite_iff, isInt_finite_iff]
    simp only [Bool.or_eq_true, beq_iff_eq] at hsign
    rcases hsign with rfl | rfl
    · exact Iff.rfl
    · simp

theorem eq_of_isInt (hm : x.isInt m) (hn : x.isInt n) : m = n := by
  cases x with
  | nan => cases hm
  | infinite s => cases hm
  | finite s a e =>
    obtain ⟨hsize, hsign⟩ := isInt_finite_iff.mp hm
    obtain ⟨hsize', hsign'⟩ := isInt_finite_iff.mp hn
    have habs : m.natAbs = n.natAbs :=
      Nat.eq_of_mul_eq_mul_right (Nat.two_pow_pos _) (hsize.symm.trans hsize')
    by_cases hzero : a = 0
    · subst hzero
      have hpos := Nat.two_pow_pos (-e).toNat
      rw [Nat.zero_mul, zero_eq_mul] at hsize
      omega
    · have hneg : decide (m < 0) = decide (n < 0) :=
        (hsign.resolve_left hzero).symm.trans (hsign'.resolve_left hzero)
      have hiff : m < 0 ↔ n < 0 := by simpa using hneg
      omega

theorem not_lt_of_size {s t : Bool} {a b : Nat} {e f : Int} (ha : (finite s a e).IsCanonical)
    (hb : (finite t b f).IsCanonical) (h : a * 2 ^ (e.toNat + (-f).toNat) = b * 2 ^ (f.toNat + (-e).toNat)) :
    ¬e < f := by
  intro hlt
  obtain ⟨hsmall, hleast, -⟩ := ha
  have hlarge : 2 ^ 52 ≤ b := hb.2.2.resolve_right (by omega)
  have hexponent : f.toNat + (-e).toNat = (f - e).toNat + (e.toNat + (-f).toNat) := by omega
  have hmantissa : a = b * 2 ^ (f - e).toNat := by
    apply Nat.eq_of_mul_eq_mul_right (Nat.two_pow_pos (e.toNat + (-f).toNat))
    rw [Nat.mul_assoc, ← Nat.pow_add, ← hexponent, h]
  have htwo : 2 ^ 1 ≤ 2 ^ (f - e).toNat := Nat.pow_le_pow_right (by decide) (by omega)
  have hproduct := Nat.mul_le_mul hlarge htwo
  omega

theorem numericEq_of_isInt (hx : x.IsCanonical) (hy : y.IsCanonical) (hxn : x.isInt n) (hyn : y.isInt n) :
    x.numericEq y := by
  cases x with
  | nan => cases hxn
  | infinite s => cases hxn
  | finite s a e =>
    cases y with
    | nan => cases hyn
    | infinite t => cases hyn
    | finite t b f =>
      obtain ⟨hsize, hsign⟩ := isInt_finite_iff.mp hxn
      obtain ⟨hsize', hsign'⟩ := isInt_finite_iff.mp hyn
      have hcross : a * 2 ^ (e.toNat + (-f).toNat) = b * 2 ^ (f.toNat + (-e).toNat) := by
        rw [Nat.pow_add, Nat.pow_add, ← Nat.mul_assoc, ← Nat.mul_assoc, hsize, hsize', Nat.mul_right_comm]
      have hexponent : e = f := by
        have hle := not_lt_of_size hx hy hcross
        have hge := not_lt_of_size hy hx hcross.symm
        omega
      subst hexponent
      have hmantissa : a = b := Nat.eq_of_mul_eq_mul_right (Nat.two_pow_pos _) hcross
      subst hmantissa
      have hsame : s = t ∨ a = 0 := by
        rcases hsign with hzero | hs
        · exact .inr hzero
        · exact hsign'.elim .inr fun ht => .inl (hs.trans ht.symm)
      simpa [numericEq] using hsame

end Equality

end Double

end ComponentDoc
