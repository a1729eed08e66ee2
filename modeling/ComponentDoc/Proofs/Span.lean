import ComponentDoc.Span
import Mathlib.Data.List.Basic

namespace ComponentDoc.Span

structure Ascending (pieces : List Span) : Prop where
  start_le_stop : ∀ p ∈ pieces, p.start ≤ p.stop
  apart : pieces.Pairwise fun p q => p.stop ≤ q.start

instance (pieces : List Span) : Decidable (Ascending pieces) :=
  decidable_of_iff ((∀ p ∈ pieces, p.start ≤ p.stop) ∧ pieces.Pairwise fun p q => p.stop ≤ q.start)
    ⟨fun h => ⟨h.1, h.2⟩, fun h => ⟨h.1, h.2⟩⟩

theorem ascending_nil : Ascending [] := ⟨List.forall_mem_nil _, .nil⟩

theorem ascending_cons_iff {p : Span} {pieces : List Span} :
    Ascending (p :: pieces) ↔
      p.start ≤ p.stop ∧ (∀ q ∈ pieces, p.stop ≤ q.start) ∧ Ascending pieces := by
  constructor
  · rintro ⟨hle, hapart⟩
    obtain ⟨hp, hapart⟩ := List.pairwise_cons.mp hapart
    exact ⟨hle p List.mem_cons_self, hp, fun q hq => hle q (List.mem_cons_of_mem _ hq), hapart⟩
  · rintro ⟨hp, hnext, hle, hapart⟩
    exact ⟨List.forall_mem_cons.mpr ⟨hp, hle⟩, List.pairwise_cons.mpr ⟨hnext, hapart⟩⟩

theorem Ascending.pairwise_stop {pieces : List Span} (h : Ascending pieces) :
    (pieces.map Span.stop).Pairwise (· ≤ ·) := by
  rw [List.pairwise_map]
  refine h.apart.imp_of_mem fun _ hq hapart => Nat.le_trans hapart (h.start_le_stop _ hq)

theorem ascending_append {pieces more : List Span} (h : Ascending pieces) (hmore : Ascending more)
    (hapart : ∀ p ∈ pieces, ∀ q ∈ more, p.stop ≤ q.start) : Ascending (pieces ++ more) where
  start_le_stop := List.forall_mem_append.mpr ⟨h.start_le_stop, hmore.start_le_stop⟩
  apart := List.pairwise_append.mpr ⟨h.apart, hmore.apart, hapart⟩

theorem getElem_le_getElem {ends : List Nat} (hs : ends.Pairwise (· ≤ ·)) {i j : Nat} (hij : i ≤ j)
    (hj : j < ends.length) : ends[i] ≤ ends[j] := by
  rcases Nat.eq_or_lt_of_le hij with rfl | hlt
  · exact Nat.le_refl _
  · exact List.pairwise_iff_getElem.mp hs i j (Nat.lt_trans hlt hj) hj hlt

end ComponentDoc.Span
