import ComponentDoc.Markup.Candidates
import ComponentDoc.Proofs.Markup.Tags

namespace ComponentDoc

namespace Text

theorem exists_indexOf? (front needle back : List Char) :
    ∃ i, indexOf? needle (front ++ needle ++ back) = some i := by
  induction front with
  | nil =>
    cases needle with
    | nil => cases back <;> exact ⟨0, rfl⟩
    | cons c needle => exact ⟨0, indexOf?_append_self _ _ (List.cons_ne_nil _ _)⟩
  | cons c front ih =>
    obtain ⟨i, hi⟩ := ih
    rw [List.cons_append, List.cons_append, indexOf?]
    split
    · exact ⟨0, rfl⟩
    · exact ⟨i + 1, by rw [hi]; rfl⟩

theorem prefix_cutAt (c : Char) (s : List Char) : (cutAt c s).1 <+: s := by
  unfold cutAt
  split
  · exact List.prefix_rfl
  · exact List.takeWhile_prefix _

end Text

def StandsAt (text : List Char) (start : Nat) (piece : List Char) : Prop :=
  ∃ before after, text = before ++ piece ++ after ∧ before.length = start

namespace StandsAt

variable {text piece : List Char} {start : Nat}

theorem of_spanAt (h : StandsAt text start piece) : (Markup.spanAt start piece.length).of text = piece := by
  obtain ⟨before, after, rfl, hstart⟩ := h
  exact Span.of_append after hstart.symm rfl

theorem inside (front back : List Char) (h : StandsAt text start (front ++ piece ++ back)) :
    StandsAt text (start + front.length) piece := by
  obtain ⟨before, after, rfl, rfl⟩ := h
  exact ⟨before ++ front, back ++ after, by simp, by simp⟩

theorem of_prefix {front : List Char} (h : StandsAt text start piece) (hp : front <+: piece) :
    StandsAt text start front := by
  obtain ⟨back, rfl⟩ := hp
  exact StandsAt.inside [] back h

end StandsAt

theorem Span.standsAt {text : List Char} {span : Span} (hle : span.start ≤ span.stop)
    (hstop : span.stop ≤ text.length) : StandsAt text span.start (span.of text) := by
  refine ⟨text.take span.start, (text.drop span.start).drop span.length, ?_, ?_⟩
  · rw [List.append_assoc, Span.of, List.take_append_drop, List.take_append_drop]
  · exact List.length_take_of_le (hle.trans hstop)

namespace Markup

open Text

variable {text : List Char}

namespace Attribute.StandsIn

variable {a : Attribute} (h : a.StandsIn text)

include h

theorem start_lt_stop : a.span.start < a.span.stop := by
  obtain ⟨before, used, more, -, hshape⟩ := h
  rw [hshape.start_eq, hshape.stop_eq]
  exact Nat.lt_add_of_pos_right (List.length_pos_iff.mpr hshape.ne_nil)

theorem name (hshort : a.isShorthand = false) (hspread : a.isSpread = false) :
    StandsAt text a.span.start a.name.toList ∧ a.span.start + a.name.length ≤ a.span.stop := by
  obtain ⟨before, used, more, rfl, hshape⟩ := h
  cases hshape with
  | @bare name isName =>
    exact ⟨⟨before, more, by simp, rfl⟩, by simp⟩
  | @assigned name equals value content isName isEquals valued =>
    refine ⟨⟨before, equals ++ value ++ more, by simp, rfl⟩, ?_⟩
    simp only [String.length_ofList, List.length_append]
    omega
  | alone =>
    unfold bracedAttribute at hshort hspread
    dsimp only at hshort hspread
    split at hshort <;> simp_all [isShorthand, isSpread]

theorem expression {code : String} {offset : Nat} (hspread : a.isSpread = false)
    (hcode : a.expression? = some (code, offset)) :
    StandsAt text offset code.toList ∧ a.span.start < offset ∧ offset + code.length < a.span.stop := by
  obtain ⟨before, used, more, rfl, hshape⟩ := h
  cases hshape with
  | bare => simp [expression?] at hcode
  | @assigned name equals value content isName isEquals valued =>
    cases valued with
    | quoted | unquoted => simp [expression?] at hcode
    | @quotedExpression quote front code back =>
      obtain ⟨rfl, rfl⟩ := Prod.mk.inj (Option.some.inj hcode)
      refine ⟨⟨before ++ name ++ equals ++ quote :: front ++ ['{'], '}' :: back ++ quote :: more, ?_, ?_⟩, ?_, ?_⟩
      · simp [braces]
      · simp only [List.length_append, List.length_cons, List.length_nil]
        omega
      · dsimp only
        omega
      · simp only [List.length_append, List.length_cons, String.length_ofList, braces_length]
        omega
    | @braced code =>
      obtain ⟨rfl, rfl⟩ := Prod.mk.inj (Option.some.inj hcode)
      refine ⟨⟨before ++ name ++ equals ++ ['{'], '}' :: more, ?_, ?_⟩, ?_, ?_⟩
      · simp [braces]
      · simp only [List.length_append, List.length_cons, List.length_nil]
      · dsimp only
        omega
      · simp only [List.length_append, String.length_ofList, braces_length]
        omega
  | @alone inner =>
    unfold bracedAttribute at hspread hcode ⊢
    dsimp only at hspread hcode ⊢
    split at hspread
    · simp [isSpread] at hspread
    · next hdots =>
      simp only [hdots, expression?] at hcode ⊢
      obtain ⟨rfl, rfl⟩ := Prod.mk.inj (Option.some.inj hcode)
      refine ⟨⟨before ++ ['{'], '}' :: more, by simp [braces], by simp⟩, Nat.lt_succ_self _, ?_⟩
      simp only [String.length_ofList, braces_length]
      omega

end Attribute.StandsIn

theorem Attribute.StandsIn.shorthand_name {a : Attribute} (h : a.StandsIn text) {code : String} {offset : Nat}
    (hshort : a.isShorthand) (hcode : a.expression? = some (code, offset)) : a.name.toList = trim code.toList := by
  obtain ⟨before, used, more, rfl, hshape⟩ := h
  cases hshape with
  | bare => simp [Attribute.isShorthand] at hshort
  | assigned _ _ valued => cases valued <;> simp [Attribute.isShorthand] at hshort
  | @alone inner =>
    unfold bracedAttribute at hshort hcode ⊢
    dsimp only at hshort hcode ⊢
    split at hshort
    · simp [Attribute.isShorthand] at hshort
    · next hdots =>
      simp only [hdots, Attribute.expression?] at hcode ⊢
      obtain ⟨rfl, -⟩ := Prod.mk.inj (Option.some.inj hcode)
      simp

theorem standsAt_trim {code : List Char} {offset : Nat} (h : StandsAt text offset code) :
    StandsAt text (offset + (indexOf? (trim code) code).getD 0) (trim code) ∧
      (indexOf? (trim code) code).getD 0 + (trim code).length ≤ code.length := by
  obtain ⟨front, back, -, -, hcode⟩ := exists_trim_append code
  obtain ⟨i, hi⟩ := exists_indexOf? front (trim code) back
  rw [← hcode] at hi
  obtain ⟨before, after, hsplit, rfl, -⟩ := indexOf?_reads hi
  rw [hi, Option.getD_some]
  constructor
  · refine StandsAt.inside before after ?_
    rwa [← hsplit]
  · have := congrArg List.length hsplit
    simp only [List.length_append] at this
    omega

theorem Attribute.StandsIn.target {a : Attribute} (h : a.StandsIn text) {directive : String}
    (hdirective : a.directive? = some directive) (hshort : a.isShorthand = false) (hspread : a.isSpread = false) :
    StandsAt text (a.span.start + (directive.length + 1)) a.target.toList ∧
      a.span.start + (directive.length + 1) ≤ a.span.stop := by
  obtain ⟨hname, hstop⟩ := h.name hshort hspread
  unfold Attribute.directive? at hdirective
  unfold Attribute.target
  split at hdirective
  · simp at hdirective
  · next before after hcut =>
    obtain rfl := Option.some.inj hdirective
    have hsplit := cutAt_eq_some hcut
    have hlength := congrArg List.length hsplit
    rw [hcut]
    simp only [Option.getD_some, String.toList_ofList, String.length_ofList]
    rw [String.length_toList, List.length_append, List.length_cons] at hlength
    refine ⟨?_, by omega⟩
    rw [hsplit, show before ++ ':' :: after = (before ++ [':']) ++ after ++ [] by simp] at hname
    have hafter := hname.inside
    rw [List.length_append, List.length_singleton] at hafter
    exact hafter.of_prefix (prefix_cutAt '|' after)

end Markup

end ComponentDoc
