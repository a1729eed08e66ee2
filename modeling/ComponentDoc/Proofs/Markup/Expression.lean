import ComponentDoc.Proofs.Markup.Transition
import ComponentDoc.Proofs.Outcome
import Mathlib.Data.List.Forall2

namespace ComponentDoc.Markup

inductive Frame.Alike : Frame → Frame → Prop
  | braces (start other : Nat) (depth : Int) : Alike (.braces start depth) (.braces other depth)
  | template (start other : Nat) : Alike (.template start) (.template other)
  | quoted (quote : Char) (start other : Nat) : Alike (.quoted quote start) (.quoted quote other)
  | lineComment : Alike .lineComment .lineComment
  | blockComment : Alike .blockComment .blockComment

theorem Frame.Step.alike {f g : Frame} {pos : Nat} {next : Option Char} {used : List Char} {now : List Frame}
    (h : f.Step pos next used now) (hfg : f.Alike g) (other : Nat) :
    ∃ now', List.Forall₂ Frame.Alike now now' ∧ g.Step other next used now' := by
  cases h with
  | stringEscape =>
    cases hfg with | quoted _ _ start => exact ⟨_, .cons (.quoted _ _ start) .nil, .stringEscape⟩
  | stringClose hquote => cases hfg with | quoted => exact ⟨[], .nil, .stringClose hquote⟩
  | stringPlain hescape hquote hfeed =>
    cases hfg with
    | quoted _ _ start => exact ⟨_, .cons (.quoted _ _ start) .nil, .stringPlain hescape hquote hfeed⟩
  | templateEscape => cases hfg with | template _ start => exact ⟨_, .cons (.template _ start) .nil, .templateEscape⟩
  | templateClose => cases hfg with | template => exact ⟨[], .nil, .templateClose⟩
  | substitution =>
    cases hfg with
    | template _ start => exact ⟨_, .cons (.braces _ (other + 1) 1) (.cons (.template _ start) .nil), .substitution⟩
  | templatePlain hescape hquote hopen =>
    cases hfg with
    | template _ start => exact ⟨_, .cons (.template _ start) .nil, .templatePlain hescape hquote hopen⟩
  | lineEnd => cases hfg with | lineComment => exact ⟨[], .nil, .lineEnd⟩
  | linePlain hfeed => cases hfg with | lineComment => exact ⟨_, .cons .lineComment .nil, .linePlain hfeed⟩
  | blockEnd => cases hfg with | blockComment => exact ⟨[], .nil, .blockEnd⟩
  | blockPlain hend => cases hfg with | blockComment => exact ⟨_, .cons .blockComment .nil, .blockPlain hend⟩
  | lastBrace => cases hfg with | braces => exact ⟨[], .nil, .lastBrace⟩
  | openBrace => cases hfg with | braces _ start => exact ⟨_, .cons (.braces _ start _) .nil, .openBrace⟩
  | closeBrace hdepth =>
    cases hfg with | braces _ start => exact ⟨_, .cons (.braces _ start _) .nil, .closeBrace hdepth⟩
  | other hc hcomment =>
    cases hfg with | braces _ start => exact ⟨_, .cons (.braces _ start _) .nil, .other hc hcomment⟩
  | openString hquote =>
    cases hfg with
    | braces _ start =>
      exact ⟨_, .cons (.quoted _ _ other) (.cons (.braces _ start _) .nil), .openString hquote⟩
  | openTemplate =>
    cases hfg with
    | braces _ start => exact ⟨_, .cons (.template _ other) (.cons (.braces _ start _) .nil), .openTemplate⟩
  | openLine =>
    cases hfg with | braces _ start => exact ⟨_, .cons .lineComment (.cons (.braces _ start _) .nil), .openLine⟩
  | openBlock =>
    cases hfg with | braces _ start => exact ⟨_, .cons .blockComment (.cons (.braces _ start _) .nil), .openBlock⟩

/-- Wherever the scan of `used` starts and whatever follows, it closes the frames with the last
character, a brace. -/
def Closes (fs : List Frame) (used : List Char) : Prop :=
  used.getLast? = some '}' ∧ ∀ gs pos more, List.Forall₂ Frame.Alike fs gs →
    scan gs pos (used ++ more) = .ok (pos + used.length)

theorem Closes.ne_nil {fs : List Frame} {used : List Char} (h : Closes fs used) : used ≠ [] := by
  rintro rfl
  simp [Closes] at h

theorem Closes.frames_ne_nil {fs : List Frame} {used : List Char} (h : Closes fs used) : fs ≠ [] := by
  rintro rfl
  obtain ⟨c, rest, rfl⟩ := List.exists_cons_of_ne_nil h.ne_nil
  have hclosed : scan [] 0 (c :: rest) = .ok 0 := by rw [scan]
  have hscan := h.2 [] 0 [] .nil
  rw [List.append_nil, hclosed] at hscan
  simp at hscan

theorem Closes.step {f : Frame} {now below : List Frame} {pos : Nat} {used rest : List Char}
    (hstep : f.Step pos rest.head? used now) (h : Closes (now ++ below) rest) :
    Closes (f :: below) (used ++ rest) := by
  refine ⟨by rw [List.getLast?_append_of_ne_nil _ h.ne_nil, h.1], fun gs other more hf => ?_⟩
  have hhead : (rest ++ more).head? = rest.head? := List.head?_append_of_ne_nil rest h.ne_nil
  cases hf with
  | @cons _ g _ gs hfg hgs =>
    obtain ⟨now', hnow, hstep'⟩ := hstep.alike hfg other
    have hnext : List.Forall₂ Frame.Alike (now ++ below) (now' ++ gs) := List.rel_append hnow hgs
    have hne : now' ++ gs ≠ [] := fun hnil => h.frames_ne_nil (List.forall₂_nil_right_iff.mp (hnil ▸ hnext))
    rw [List.append_assoc, (hhead ▸ hstep' : g.Step other _ used now').scan_eq hne,
      h.2 (now' ++ gs) (other + used.length) more hnext, List.length_append, Nat.add_assoc]

theorem closes_lastBrace (start : Nat) : Closes [.braces start 1] ['}'] := by
  refine ⟨rfl, fun gs pos more hf => ?_⟩
  cases hf with
  | cons hfg hgs =>
    cases hfg
    cases hgs
    exact (Frame.Step.scan_last .lastBrace (grounded_braces _ 1)).2

def Reads (fs : List Frame) (pos stop : Nat) (text : List Char) : Prop :=
  ∃ used rest, text = used ++ rest ∧ stop = pos + used.length ∧ Closes fs used

theorem ScanRun.reads {fs : List Frame} {pos stop : Nat} {text : List Char} {r : Except ParseError Nat}
    (h : ScanRun fs pos text r) (hr : r = .ok stop) (hg : Grounded fs) : Reads fs pos stop text := by
  induction h with
  | closed => exact hg.elim
  | unfinished | stops => cases hr
  | @step f now below pos used rest r head tail ih =>
    by_cases hne : now ++ below = []
    · obtain ⟨rfl, rfl⟩ := List.append_eq_nil_iff.mp hne
      obtain ⟨start, depth, rfl⟩ := hg
      cases tail
      cases hr
      cases head
      exact ⟨['}'], rest, rfl, rfl, closes_lastBrace start⟩
    · obtain ⟨more, behind, rfl, rfl, hcloses⟩ := ih hr (head.grounded hg hne)
      rw [List.head?_append_of_ne_nil more hcloses.ne_nil] at head
      exact ⟨used ++ more, behind, by rw [List.append_assoc], by rw [List.length_append, Nat.add_assoc],
        hcloses.step head⟩

theorem scan_reads {fs : List Frame} {pos stop : Nat} {text : List Char}
    (hg : Grounded fs) (h : scan fs pos text = .ok stop) : Reads fs pos stop text :=
  (scanRun_scan hg).reads h hg

theorem scan_openBrace (start pos : Nat) (depth : Int) (text : List Char) :
    scan [.braces start depth] pos ('{' :: text) = scan [.braces start (depth + 1)] (pos + 1) text :=
  Frame.Step.openBrace.scan_eq (by simp)

def Balanced (e : List Char) : Prop := skipExpression 0 e = .ok e.length

instance (e : List Char) : Decidable (Balanced e) := inferInstanceAs (Decidable (_ = _))

theorem closes_iff_balanced {e : List Char} (pos : Nat) : Closes [.braces pos 0] e ↔ Balanced e := by
  constructor
  · intro h
    simpa [Balanced, skipExpression] using h.2 [.braces 0 0] 0 [] (.cons (.braces ..) .nil)
  · intro h
    obtain ⟨used, rest, rfl, hl, hc⟩ := scan_reads (grounded_braces 0 0) h
    obtain rfl : rest = [] := by
      rw [← List.length_eq_zero_iff]
      simp only [List.length_append] at hl
      omega
    rw [List.append_nil]
    refine ⟨hc.1, fun gs start more hf => hc.2 gs start more ?_⟩
    cases hf with | cons hd hb => cases hd; cases hb; exact .cons (.braces ..) .nil

theorem skipExpression_eq_ok_iff {pos stop : Nat} {text : List Char} :
    skipExpression pos text = .ok stop ↔
      ∃ used rest, text = used ++ rest ∧ stop = pos + used.length ∧ Balanced used := by
  constructor
  · intro h
    obtain ⟨used, rest, he, hs, hc⟩ := scan_reads (grounded_braces pos 0) h
    exact ⟨used, rest, he, hs, (closes_iff_balanced pos).mp hc⟩
  · rintro ⟨used, rest, rfl, rfl, h⟩
    exact ((closes_iff_balanced pos).mpr h).2 _ pos rest (.cons (.braces ..) .nil)

theorem Balanced.skip {e : List Char} (h : Balanced e) (pos : Nat) (rest : List Char) :
    skipExpression pos (e ++ rest) = .ok (pos + e.length) :=
  skipExpression_eq_ok_iff.mpr ⟨e, rest, rfl, rfl, h⟩

theorem Balanced.getLast? {e : List Char} (h : Balanced e) : e.getLast? = some '}' :=
  ((closes_iff_balanced 0).mpr h).1

theorem Balanced.ne_nil {e : List Char} (h : Balanced e) : e ≠ [] :=
  ((closes_iff_balanced 0).mpr h).ne_nil

theorem balanced_cons_iff {e : List Char} : Balanced ('{' :: e) ↔ Closes [.braces 0 1] e := by
  constructor
  · intro h
    rw [Balanced, skipExpression, scan_openBrace] at h
    obtain ⟨used, rest, rfl, hl, hc⟩ := scan_reads (grounded_braces 0 1) h
    obtain rfl : rest = [] := by
      rw [← List.length_eq_zero_iff]
      simp only [List.length_cons, List.length_append] at hl
      omega
    rwa [List.append_nil]
  · intro h
    have hstep : (Frame.braces 0 0).Step 0 e.head? ['{'] [.braces 0 1] := .openBrace
    exact (closes_iff_balanced 0).mp (Closes.step hstep h)

theorem Closes.dot {e : List Char} (h : Closes [.braces 0 1] e) : Closes [.braces 0 1] ('.' :: e) := by
  have hstep : (Frame.braces 0 1).Step 0 e.head? ['.'] [.braces 0 1] := .other (by decide) (by simp)
  exact Closes.step hstep h

end ComponentDoc.Markup
