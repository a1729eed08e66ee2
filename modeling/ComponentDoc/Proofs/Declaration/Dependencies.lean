import ComponentDoc.Declaration.Dependencies
import ComponentDoc.Proofs.Outcome
import ComponentDoc.Proofs.Script.Variables
import ComponentDoc.Script.Parse

namespace ComponentDoc

open Script

def storeName (x : CodeText) : CodeText := ⟨'$'.toNat :: x.points⟩

/-- A use reads the known name `x`: nothing around it binds its name, which is `x`, or that of the store
`x` if this is not known itself. -/
def Script.Source.Reads (s : Source) (known : List CodeText) (x : CodeText) (u : Use) : Prop :=
  s.IsFree u ∧ x ∈ known ∧
    (s.nameOf u.node = x ∨
      s.nameOf u.node = storeName x ∧ storeName x ∉ known ∧ x ≠ .empty)

instance (s : Source) (known : List CodeText) (x : CodeText) (u : Use) :
    Decidable (s.Reads known x u) :=
  inferInstanceAs (Decidable (_ ∧ _ ∧ (_ ∨ _ ∧ _ ∧ _)))

theorem knownName?_eq_some_iff {known : List CodeText} {name x : CodeText} :
    knownName? known name = some x ↔
      x ∈ known ∧ (name = x ∨ name = storeName x ∧ storeName x ∉ known ∧ x ≠ .empty) := by
  obtain ⟨points⟩ := name
  unfold knownName?
  by_cases hknown : (⟨points⟩ : CodeText) ∈ known
  · rw [if_pos hknown, Option.some_inj]
    constructor
    · rintro rfl
      exact ⟨hknown, .inl rfl⟩
    · rintro ⟨-, hname | ⟨hname, hstore, -⟩⟩
      · exact hname
      · exact absurd (hname ▸ hknown) hstore
  · rw [if_neg hknown]
    have hne (hx : x ∈ known) : (⟨points⟩ : CodeText) ≠ x := fun h => hknown (h ▸ hx)
    obtain ⟨rest'⟩ := x
    cases points with
    | nil => simpa [storeName] using hne
    | cons p rest =>
      simp only [Option.ite_none_right_eq_some, Option.some_inj, CodeText.mk.injEq, storeName,
        List.cons.injEq, CodeText.empty, ne_eq]
      constructor
      · rintro ⟨⟨rfl, hrest, hmem⟩, rfl⟩
        exact ⟨hmem, .inr ⟨⟨rfl, rfl⟩, hknown, hrest⟩⟩
      · rintro ⟨hmem, ⟨rfl, rfl⟩ | ⟨⟨rfl, rfl⟩, -, hrest⟩⟩
        · exact absurd hmem hknown
        · exact ⟨⟨rfl, hrest, hmem⟩, rfl⟩

section FirstUses

variable {α β : Type} [DecidableEq β]

theorem pairwise_eraseDups_filterMap (g : α → Option β) (us : List α) :
    (us.filterMap g).eraseDups.Pairwise fun x y =>
      us.findIdx (fun u => g u = some x) < us.findIdx (fun u => g u = some y) := by
  induction us generalizing g with
  | nil => simp
  | cons u us ih =>
    cases hu : g u with
    | none =>
      rw [List.filterMap_cons_none hu]
      refine (ih g).imp fun {x y} h => ?_
      simpa [List.findIdx_cons, hu] using h
    | some z =>
      have hrest : ((us.filterMap g).filter fun y => !y == z) =
          us.filterMap fun u => (g u).filter fun y => !y == z := by
        rw [List.filter_filterMap]
      rw [List.filterMap_cons_some hu, List.eraseDups_cons, List.pairwise_cons, hrest]
      have hother {y : β} (hy : y ∈ (us.filterMap fun u => (g u).filter fun y => !y == z).eraseDups) :
          y ≠ z := by
        rw [List.mem_eraseDups, ← hrest, List.mem_filter] at hy
        simpa using hy.2
      refine ⟨fun y hy => ?_, (ih _).imp_of_mem fun {x y} hx hy h => ?_⟩
      · simp [List.findIdx_cons, hu, (hother hy).symm]
      · have hfound {w : β} (hw : w ≠ z) (v : α) :
            (g v).filter (fun y => !y == z) = some w ↔ g v = some w := by
          simp [Option.filter_eq_some_iff, hw]
        simpa [List.findIdx_cons, hu, (hother hx).symm, (hother hy).symm, hfound (hother hx),
          hfound (hother hy)] using h

end FirstUses

section Reads

variable (s : Source) (known : List CodeText) (self : CodeText) {e : Node}

theorem reads_iff {u : Use} {x : CodeText} : s.Reads known x u ↔
    (if s.IsFree u then knownName? known (s.nameOf u.node) else none) = some x := by
  by_cases hfree : s.IsFree u <;> simp [Source.Reads, hfree, knownName?_eq_some_iff]

theorem knownReads_nodup (e : Node) : (knownReads s known e).Nodup :=
  (pairwise_eraseDups_filterMap (knownName? known) (s.freeNames [] e)).imp fun h heq => by simp [heq] at h

variable {s} (he : e.isPlain) (hhoisted : e.hoisted = []) (hkeeps : s.KeepsVariables e)

include he hhoisted hkeeps

theorem filterMap_freeNames : (s.freeNames [] e).filterMap (knownName? known) =
    e.uses.filterMap fun u => if s.IsFree u then knownName? known (s.nameOf u.node) else none := by
  rw [Source.freeNames_eq_freeUses he, Source.freeUses, List.filterMap_map, List.filterMap_filter]
  refine List.filterMap_congr fun u hu => ?_
  simp [Source.isFree_iff_ownNames he hhoisted hkeeps hu]

theorem knownReads_pairwise : (knownReads s known e).Pairwise fun x y =>
    e.uses.findIdx (fun u => s.Reads known x u) < e.uses.findIdx (fun u => s.Reads known y u) := by
  simp only [knownReads, filterMap_freeNames known he hhoisted hkeeps, reads_iff]
  exact pairwise_eraseDups_filterMap _ e.uses

theorem mem_knownReads {x : CodeText} :
    x ∈ knownReads s known e ↔ ∃ u ∈ e.uses, s.Reads known x u := by
  simp only [knownReads, filterMap_freeNames known he hhoisted hkeeps, reads_iff, List.mem_eraseDups,
    List.mem_filterMap]

/-- The dependencies of an item are the known names but its own that its expression reads, each once, in
the order in which they are read first. -/
theorem dependencies_exact :
    (dependencies s known self e).Nodup ∧
    (∀ x, x ∈ dependencies s known self e ↔ x ≠ self ∧ ∃ u ∈ e.uses, s.Reads known x u) ∧
    (dependencies s known self e).Pairwise fun x y =>
      e.uses.findIdx (fun u => s.Reads known x u) < e.uses.findIdx (fun u => s.Reads known y u) := by
  have hnodup := knownReads_nodup s known e
  refine ⟨hnodup.erase self, fun x => ?_,
    (knownReads_pairwise known he hhoisted hkeeps).sublist List.erase_sublist⟩
  rw [dependencies, hnodup.mem_erase_iff, mem_knownReads known he hhoisted hkeeps]

end Reads

theorem dependencies_exact_shadowed :
    let text := "rows.map(({ at: [x] }) => { for (var all of x) go(all + $count); return total + rows })".toList
    let known : List CodeText := ["count", "rows", "total", "x", "all"]
    ∃ s e, parseExpression text 0 none = .ok (s, e) ∧ e.isPlain ∧ e.hoisted = [] ∧ s.KeepsVariables e ∧
      dependencies s known "total" e = [("rows" : CodeText), "count"] ∧
      (dependencies s known "total" e).Nodup ∧
      (∀ x, x ∈ dependencies s known "total" e ↔ x ≠ "total" ∧ ∃ u ∈ e.uses, s.Reads known x u) ∧
      (dependencies s known "total" e).Pairwise fun x y =>
        e.uses.findIdx (fun u => s.Reads known x u) < e.uses.findIdx (fun u => s.Reads known y u) := by
  intro text known
  have hread : (parseExpression text 0 none).toOption.any fun p => p.2.isPlain ∧ p.2.hoisted.isEmpty ∧
      p.1.KeepsVariables p.2 ∧ dependencies p.1 known "total" p.2 = [("rows" : CodeText), "count"] := by
    decide +kernel
  obtain ⟨⟨s, e⟩, hparse, hread⟩ := exists_ok_of_any hread
  obtain ⟨hplain, hhoisted, hkeeps, hnames⟩ := of_decide_eq_true hread
  have hhoisted := List.isEmpty_iff.mp hhoisted
  exact ⟨s, e, hparse, hplain, hhoisted, hkeeps, hnames, dependencies_exact known "total" hplain hhoisted hkeeps⟩

theorem dependencies_variable_leaks :
    let text := "() => { for (var i of xs) {} return i }".toList
    let known : List CodeText := ["i", "xs"]
    ∃ s e, parseExpression text 0 none = .ok (s, e) ∧ e.isPlain ∧ e.hoisted = [] ∧
      dependencies s known .empty e = [("xs" : CodeText), "i"] ∧ ¬∃ u ∈ e.uses, s.Reads known "i" u := by
  intro text known
  have hread : (parseExpression text 0 none).toOption.any fun p => p.2.isPlain ∧ p.2.hoisted.isEmpty ∧
      dependencies p.1 known .empty p.2 = [("xs" : CodeText), "i"] ∧
      ∀ u ∈ p.2.uses, ¬p.1.Reads known "i" u := by
    decide +kernel
  obtain ⟨⟨s, e⟩, hparse, hread⟩ := exists_ok_of_any hread
  obtain ⟨hplain, hhoisted, hnames, hnone⟩ := of_decide_eq_true hread
  exact ⟨s, e, hparse, hplain, List.isEmpty_iff.mp hhoisted, hnames, fun ⟨u, hu, hreads⟩ => hnone u hu hreads⟩

end ComponentDoc
