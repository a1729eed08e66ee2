import ComponentDoc.Configuration.Merging
import ComponentDoc.Proofs.Keyed
import ComponentDoc.Proofs.Number.Double
import Mathlib.Data.List.Forall2

namespace ComponentDoc

namespace Literal

/-- A number that is one, in the form in which numbers are read. -/
def IsProper : Literal → Prop
  | double x => x ≠ .nan ∧ x.IsCanonical
  | _ => True

def SameNumber : Int ⊕ Double → Int ⊕ Double → Prop
  | .inl m, .inl n => m = n
  | .inl m, .inr y => y.isInt m
  | .inr x, .inl n => x.isInt n
  | .inr x, .inr y => x.numericEq y

variable {a b c : Literal} {p q r : Int ⊕ Double}

theorem sameNumber_trans (hp : ∀ x ∈ p.getRight?, x.IsCanonical) (hr : ∀ z ∈ r.getRight?, z.IsCanonical)
    (hpq : SameNumber p q) (hqr : SameNumber q r) : SameNumber p r := by
  cases q with
  | inl n =>
    cases p with
    | inl m =>
      obtain rfl : m = n := hpq
      exact hqr
    | inr x =>
      cases r with
      | inl k =>
        obtain rfl : n = k := hqr
        exact hpq
      | inr z => exact Double.numericEq_of_isInt (hp x rfl) (hr z rfl) hpq hqr
  | inr y =>
    cases p with
    | inl m =>
      cases r with
      | inl k => exact Double.eq_of_isInt hpq hqr
      | inr z => exact (Double.isInt_congr hqr).mp hpq
    | inr x =>
      cases r with
      | inl k => exact (Double.isInt_congr hpq).mpr hqr
      | inr z => exact Double.numericEq_trans hpq hqr

theorem same_iff : a.same b ↔
    (∃ p ∈ a.number?, ∃ q ∈ b.number?, SameNumber p q) ∨ (a.number? = none ∧ b.number? = none ∧ a = b) := by
  unfold same
  rcases ha : a.number? with _ | (m | x) <;> rcases hb : b.number? with _ | (n | y) <;> simp [SameNumber]

theorem same_self (h : a.IsProper) : a.same a := by
  cases a with
  | double x => exact Double.numericEq_self h.1
  | _ => simp [same, number?]

theorem same_trans (ha : a.IsProper) (hc : c.IsProper) (hab : a.same b) (hbc : b.same c) : a.same c := by
  have hcanonical {v : Literal} (hv : v.IsProper) : ∀ p ∈ v.number?, ∀ x ∈ p.getRight?, x.IsCanonical := by
    intro p hp x hx
    cases v <;> cases hp <;> cases hx
    exact hv.2
  rw [same_iff] at hab hbc ⊢
  rcases hab with ⟨p, hp, q, hq, hpq⟩ | ⟨-, hb, rfl⟩
  · rcases hbc with ⟨q', hq', r, hr, hqr⟩ | ⟨hb, -, -⟩
    · obtain rfl : q = q' := Option.some.inj (hq.symm.trans hq')
      exact .inl ⟨p, hp, r, hr, sameNumber_trans (hcanonical ha p hp) (hcanonical hc r hr) hpq hqr⟩
    · rw [hb] at hq
      cases hq
  · exact hbc

end Literal

namespace JsonValue

open Keyed

/-- Every key of an object stands in it once, and every number is one. -/
inductive IsProper : JsonValue → Prop
  | scalar {v : Literal} : v.IsProper → IsProper (.scalar v)
  | array {items : List JsonValue} : (∀ v ∈ items, IsProper v) → IsProper (.array items)
  | object {members : Keyed String JsonValue} : (keys members).Nodup → (∀ m ∈ members, IsProper m.2) →
      IsProper (.object members)

variable {a b c : JsonValue} {as bs cs : List JsonValue} {members ms ns : Keyed String JsonValue}

@[simp]
theorem isProper_scalar_iff {v : Literal} : IsProper (.scalar v) ↔ v.IsProper :=
  ⟨fun | .scalar h => h, .scalar⟩

@[simp]
theorem isProper_array_iff : IsProper (.array as) ↔ ∀ v ∈ as, IsProper v :=
  ⟨fun | .array h => h, .array⟩

@[simp]
theorem isProper_object_iff : IsProper (.object ms) ↔ (keys ms).Nodup ∧ ∀ m ∈ ms, IsProper m.2 :=
  ⟨fun | .object hkeys h => ⟨hkeys, h⟩, fun h => .object h.1 h.2⟩

theorem sameItems_iff : sameItems as bs ↔ List.Forall₂ (fun a b => same a b) as bs := by
  induction as generalizing bs with
  | nil => cases bs <;> simp [sameItems]
  | cons a as ih => cases bs <;> simp [sameItems, ih]

theorem sameMembers_iff : sameMembers ms ns ↔ ∀ m ∈ ms, ∃ w, get? m.1 ns = some w ∧ same m.2 w := by
  induction ms with
  | nil => simp [sameMembers]
  | cons m ms ih =>
    rw [sameMembers, Bool.and_eq_true, ih, List.forall_mem_cons]
    refine and_congr_left' ?_
    cases get? m.1 ns <;> simp

theorem forall₂_trans {R : JsonValue → JsonValue → Prop} (hab : List.Forall₂ R as bs) (hbc : List.Forall₂ R bs cs)
    (h : ∀ a ∈ as, ∀ b, ∀ c ∈ cs, R a b → R b c → R a c) : List.Forall₂ R as cs := by
  induction hab generalizing cs with
  | nil => exact hbc
  | cons hab _ ih =>
    cases hbc with
    | cons hbc hrest =>
      refine .cons (h _ List.mem_cons_self _ _ List.mem_cons_self hab hbc) (ih hrest ?_)
      exact fun a ha b c hc => h a (List.mem_cons_of_mem _ ha) b c (List.mem_cons_of_mem _ hc)

theorem IsProper.same_self (h : IsProper a) : same a a := by
  induction h with
  | scalar hv => exact Literal.same_self hv
  | array _ ih =>
    rw [same, sameItems_iff]
    exact List.forall₂_same.mpr ih
  | object hkeys _ ih =>
    rw [same, Bool.and_eq_true, sameMembers_iff]
    refine ⟨beq_self_eq_true _, fun m hm => ⟨m.2, get?_of_mem hkeys hm, ih m hm⟩⟩

theorem IsProper.same_trans (ha : IsProper a) (hc : IsProper c) (hab : same a b) (hbc : same b c) : same a c := by
  induction ha generalizing b c with
  | scalar ha =>
    cases hc with
    | scalar hc =>
      cases b with
      | scalar b => exact Literal.same_trans ha hc hab hbc
      | _ => cases hab
    | _ => cases b <;> simp [same] at hab hbc
  | @array as _ ih =>
    cases hc with
    | @array cs hcs =>
      cases b with
      | array bs =>
        rw [same, sameItems_iff] at hab hbc ⊢
        exact forall₂_trans hab hbc fun a ha b c hc => ih a ha (hcs c hc)
      | _ => cases hab
    | _ => cases b <;> simp [same] at hab hbc
  | @object ms hms _ ih =>
    cases hc with
    | @object ps _ hps =>
      cases b with
      | object ns =>
        rw [same, Bool.and_eq_true, sameMembers_iff] at hab hbc ⊢
        refine ⟨?_, fun m hm => ?_⟩
        · exact beq_iff_eq.mpr ((eq_of_beq hab.1).trans (eq_of_beq hbc.1))
        · obtain ⟨w, hw, hsame⟩ := hab.2 m hm
          obtain ⟨x, hx, hsame'⟩ := hbc.2 (m.1, w) (mem_of_get? hw)
          exact ⟨x, hx, ih m hm (hps _ (mem_of_get? hx)) hsame hsame'⟩
      | _ => cases hab
    | _ => cases b <;> simp [same] at hab hbc

end JsonValue

end ComponentDoc
