import ComponentDoc.Span
import ComponentDoc.Text.Search
import Mathlib.Data.List.Basic
import Mathlib.Data.List.Infix
import Mathlib.Data.List.TakeWhile

namespace ComponentDoc

namespace Text

theorem eq_append_of_append_eq {α : Type} {a b c d : List α} (h : a ++ b = c ++ d)
    (hl : a.length ≤ c.length) : ∃ e, c = a ++ e ∧ b = e ++ d := by
  rcases List.append_eq_append_iff.mp h with ⟨e, rfl, rfl⟩ | ⟨e, rfl, rfl⟩
  · exact ⟨e, rfl, rfl⟩
  · obtain rfl : e = [] := by
      rw [← List.length_eq_zero_iff]
      simp only [List.length_append] at hl
      omega
    exact ⟨[], by simp, by simp⟩

theorem indexOf?_reads {needle s : List Char} {i : Nat} (h : indexOf? needle s = some i) :
    ∃ before rest, s = before ++ needle ++ rest ∧ before.length = i ∧
      ∀ more, indexOf? needle (before ++ needle ++ more) = some i := by
  induction s generalizing i with
  | nil =>
    cases needle with
    | nil =>
      refine ⟨[], [], rfl, by simpa [indexOf?] using h, fun more => ?_⟩
      cases more <;> simp_all [indexOf?]
    | cons d ds => simp [indexOf?] at h
  | cons c rest ih =>
    rw [indexOf?] at h
    split at h
    · next hp =>
      obtain ⟨more, he⟩ := List.isPrefixOf_iff_prefix.mp hp
      refine ⟨[], more, by simp [he], by simpa using h, fun more => ?_⟩
      cases needle with
      | nil => cases more <;> simp_all [indexOf?]
      | cons d ds => simp_all [indexOf?]
    · next hp =>
      obtain ⟨j, hj, rfl⟩ := Option.map_eq_some_iff.mp h
      obtain ⟨before, after, rfl, rfl, hm⟩ := ih hj
      refine ⟨c :: before, after, rfl, rfl, fun more => ?_⟩
      have hn : ¬ needle.isPrefixOf (c :: (before ++ needle ++ more)) := by
        intro hq
        apply hp
        rw [List.isPrefixOf_iff_prefix] at hq ⊢
        have hs : needle <+: c :: before ++ needle :=
          List.prefix_of_prefix_length_le hq (List.prefix_append (c :: before ++ needle) more)
            (by simp only [List.length_append, List.length_cons]; omega)
        exact hs.trans ⟨after, by simp⟩
      rw [List.cons_append, List.cons_append, indexOf?, if_neg hn, hm more]
      rfl

theorem indexOf?_singleton_eq_some_iff {c : Char} {s : List Char} {i : Nat} :
    indexOf? [c] s = some i ↔
      ∃ before rest, s = before ++ c :: rest ∧ before.length = i ∧ c ∉ before := by
  induction s generalizing i with
  | nil => simp [indexOf?]
  | cons d rest ih =>
    by_cases hd : c = d
    · subst hd
      constructor
      · intro h
        exact ⟨[], rest, rfl, by simpa [indexOf?] using h, by simp⟩
      · rintro ⟨before, after, he, rfl, hc⟩
        cases before with
        | nil => simp [indexOf?]
        | cons e es => simp_all
    · have hstep : indexOf? [c] (d :: rest) = (indexOf? [c] rest).map (· + 1) := by
        simp [indexOf?, hd]
      rw [hstep, Option.map_eq_some_iff]
      constructor
      · rintro ⟨j, hj, rfl⟩
        obtain ⟨before, after, rfl, rfl, hc⟩ := ih.mp hj
        exact ⟨d :: before, after, rfl, rfl, by simp [hd, hc]⟩
      · rintro ⟨before, after, he, rfl, hc⟩
        cases before with
        | nil => simp_all
        | cons e es =>
          simp only [List.cons_append, List.cons.injEq] at he
          exact ⟨es.length, ih.mpr ⟨es, after, he.2, rfl, by simp_all⟩, rfl⟩

theorem indexOf?_append_singleton {c : Char} {before : List Char} (h : c ∉ before) (rest : List Char) :
    indexOf? [c] (before ++ c :: rest) = some before.length :=
  indexOf?_singleton_eq_some_iff.mpr ⟨before, rest, rfl, rfl, h⟩

theorem dropStart?_eq_some_iff {start s rest : List Char} :
    dropStart? start s = some rest ↔ s = start ++ rest := by
  unfold dropStart?
  split
  · next h =>
    obtain ⟨more, rfl⟩ := List.isPrefixOf_iff_prefix.mp h
    simp
  · next h =>
    simp only [reduceCtorEq, false_iff]
    rintro rfl
    simp at h

theorem not_mem_of_forall {α : Type} {p : α → Bool} {l : List α} {a : α} (h : ∀ b ∈ l, p b = true)
    (ha : p a = false) : a ∉ l := by
  intro hm
  rw [h a hm] at ha
  exact absurd ha (by decide)

theorem takeWhile_append_stop {α : Type} {p : α → Bool} {l more : List α} (hl : ∀ a ∈ l, p a = true)
    (hm : ∀ a ∈ more.head?, p a = false) : (l ++ more).takeWhile p = l := by
  cases more with
  | nil => simpa using hl
  | cons a as => simp_all

theorem cutAt_eq_some {c : Char} {s before after : List Char} (h : cutAt c s = (before, some after)) :
    s = before ++ c :: after := by
  unfold cutAt at h
  split at h
  · simp at h
  · next d rest hd =>
    simp only [Prod.mk.injEq, Option.some.injEq] at h
    obtain ⟨rfl, rfl⟩ := h
    have hn := List.head?_dropWhile_not (· != c) s
    rw [hd] at hn
    obtain rfl : d = c := by simpa using hn
    rw [← hd, List.takeWhile_append_dropWhile]

theorem cutAt_append {c : Char} {s : List Char} (h : c ∉ s) (rest : List Char) :
    cutAt c (s ++ c :: rest) = (s, some rest) := by
  have hs : ∀ d ∈ s, (d != c) = true := by
    intro d hd
    rw [bne_iff_ne]
    rintro rfl
    exact h hd
  rw [cutAt, List.dropWhile_append_of_pos hs, List.takeWhile_append_of_pos hs]
  simp

theorem suffix_of_suffix_append {stop front l : List Char} (h : stop <:+ front ++ l) (hl : l ≠ [])
    (hfront : ∀ c ∈ front.getLast?, c ∉ stop.dropLast) : stop <:+ l := by
  rcases List.eq_nil_or_concat front with rfl | ⟨front, c, rfl⟩
  · exact h
  · have hc : c ∉ stop.dropLast := hfront c (by simp)
    have hlong : ¬ c :: l <:+ stop := by
      rintro ⟨start, rfl⟩
      rw [List.dropLast_append_of_ne_nil (by simp), List.dropLast_cons_of_ne_nil hl] at hc
      exact hc (List.mem_append_right start List.mem_cons_self)
    have hl' : c :: l <:+ front.concat c ++ l := by simp
    rcases List.suffix_or_suffix_of_suffix h hl' with hs | hs
    · rcases List.suffix_cons_iff.mp hs with rfl | hs
      · exact absurd List.suffix_rfl hlong
      · exact hs
    · exact absurd hs hlong

theorem infix_append_cons {stop front l : List Char} {c : Char} (h : stop <:+: front ++ c :: l)
    (hc : c ∉ stop) : stop <:+: front ∨ stop <:+: l := by
  obtain ⟨s, t, he⟩ := h
  rcases List.append_eq_append_iff.mp he with ⟨e, hfront, -⟩ | ⟨e, hs, htail⟩
  · left
    exact ⟨s, e, hfront.symm⟩
  cases e with
  | nil =>
    left
    exact ⟨s, [], by simpa using hs⟩
  | cons d e =>
    obtain ⟨rfl, rfl⟩ := List.cons_eq_cons.mp htail
    rcases List.append_eq_append_iff.mp hs with ⟨f, rfl, hstop⟩ | ⟨f, hs, hstop⟩
    · exact absurd (hstop ▸ List.mem_append_right f List.mem_cons_self) hc
    · cases f with
      | nil =>
        rw [List.nil_append] at hstop
        exact absurd (hstop ▸ List.mem_cons_self) hc
      | cons g f =>
        obtain ⟨rfl, rfl⟩ := List.cons_eq_cons.mp hstop
        right
        exact ⟨f, t, by simp⟩

end Text

namespace Span

theorem of_append {start stop : Nat} {before used : List Char} (rest : List Char)
    (hs : start = before.length) (he : stop = start + used.length) :
    (⟨start, stop⟩ : Span).of (before ++ used ++ rest) = used := by
  subst hs he
  simp [of, length]

end Span

end ComponentDoc
