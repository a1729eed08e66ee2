import ComponentDoc.Proofs.Script.Grammar.Basic
import ComponentDoc.Script.Grammar.Elements

namespace ComponentDoc.Script

open Std.Do
open Script.Parser

set_option mvcgen.warning false

namespace Grammar

variable {g : Grammar} {v : View} (hg : g.Sound v.script)

@[spec] theorem makes_hyphenName {kind : Kind} (h : kind.isFree) : Makes v (hyphenName kind) := by
  mvcgen [hyphenName]
  all_goals simp_all

theorem exists_takeWhile_ne {q : Char} {rest : List Char}
    (h : (rest.takeWhile (· != q)).length ≠ rest.length) : ∃ after, rest = rest.takeWhile (· != q) ++ q :: after := by
  have hsplit := List.takeWhile_append_dropWhile (p := (· != q)) (l := rest)
  have hhead := List.head?_dropWhile_not (· != q) rest
  cases hdrop : rest.dropWhile (· != q) with
  | nil =>
    rw [hdrop, List.append_nil] at hsplit
    exact absurd (congrArg List.length hsplit) h
  | cons d after =>
    rw [hdrop] at hsplit hhead
    obtain rfl : d = q := by simpa using hhead
    exact ⟨after, hsplit.symm⟩

@[spec] theorem makes_elementString : Makes v elementString := by
  refine triple_iff.mpr fun c n c' hc h => ?_
  unfold elementString at h
  simp only [bind_eq_some] at h
  obtain ⟨_, _, hget, h⟩ := h
  cases hget
  cases hrest : c.rest with
  | nil =>
    rw [hrest] at h
    cases h
  | cons q rest =>
    rw [hrest] at h
    dsimp only at h
    split at h
    · cases h
    · next hquote =>
      split at h
      · cases h
      · next hlength =>
        cases h
        obtain ⟨after, hafter⟩ := exists_takeWhile_ne hlength
        have hnot : q ∉ rest.takeWhile (· != q) := fun hq => by simpa using List.mem_takeWhile_imp hq
        generalize rest.takeWhile (· != q) = inside at *
        subst hafter
        have hshape : c.rest = (q :: inside ++ [q]) ++ after := by simp [hrest]
        have htake : c.rest.take (inside.length + 2) = q :: inside ++ [q] := by
          rw [hshape, List.take_left' (by simp)]
        refine ⟨standsIn_after _ (hc.place.drop _), allClean_node.mpr (clean_string rfl rfl ?_)⟩
        refine ⟨q :: inside ++ [q], inside, ?_, q, ?_, rfl, .inr hnot⟩
        · change ReadsAt v.text ⟨c.pos, c.pos + byteLength (c.rest.take (inside.length + 2))⟩ _
          rw [htake]
          exact (hshape ▸ hc.place).reads
        · by_cases hq : q = '"'
          · exact .inl hq
          · exact .inr (Decidable.not_not.mp fun hq' => hquote ⟨hq, hq'⟩)

@[spec] theorem makes_elementName : Makes v g.elementName := by
  mvcgen [elementName]
  all_goals simp_all

include hg

@[spec] theorem elementExpression_spec : ⦃fun c => ⌜c.StandsIn v⌝⦄ g.elementExpression
    ⦃⇓? n c => ⌜(c.StandsIn v ∧ n.Clean v.script) ∧ c.token = ⟨.sign, closeBrace⟩⌝⦄ := by
  mvcgen [elementExpression, assignment, expression]
  all_goals simp_all

@[spec] theorem makes_elementAttribute : Makes v g.elementAttribute := by
  mvcgen [elementAttribute]
  all_goals simp_all

theorem elementContent_spec {n : Nat} {rest : List Char} {pos : Nat} :
    ⦃fun c => ⌜v.At rest pos c.comments⌝⦄ g.elementContent n rest pos
    ⦃⇓? ns c => ⌜(c.StandsIn v ∧ AllClean ns v.script) ∧ c.rest.head? = some '>'⌝⦄ := by
  have hresume := resume_spec v
  induction n generalizing rest pos with
  | zero =>
    mvcgen [elementContent]
    all_goals simp_all
  | succ n ih =>
    have hskip (comments : List Node) (h : v.At rest pos comments) := h.skip fun c => !(c ∈ ['<', '>', '{', '}'])
    mvcgen [elementContent, hresume, ih]
    all_goals simp_all +zetaDelta [Cursor.StandsIn.behind_brace, Cursor.StandsIn.behind_angle]

theorem elementRule_spec : ⦃fun c => ⌜c.StandsIn v⌝⦄ g.elementRule
    ⦃⇓? n c => ⌜(c.StandsIn v ∧ n.Clean v.script) ∧ c.rest.head? = some '>'⌝⦄ := by
  have hcontent := @elementContent_spec g v hg
  mvcgen [elementRule, hcontent]
  all_goals simp_all +zetaDelta [Cursor.StandsIn.behind_angle]

end Grammar

end ComponentDoc.Script
