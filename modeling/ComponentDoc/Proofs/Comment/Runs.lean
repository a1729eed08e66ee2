import ComponentDoc.Proofs.Comment.Order
import ComponentDoc.Proofs.Outcome
import ComponentDoc.Script.Parse
import Mathlib.Data.List.SplitBy

namespace ComponentDoc

section Lists

variable {α : Type} {r : α → α → Bool} {l run : List α}

theorem mem_splitBy_iff : run ∈ l.splitBy r ↔ run ≠ [] ∧ (run.IsChain fun a b => r a b) ∧
    ∃ before after, l = before ++ run ++ after ∧ (∀ a ∈ before.getLast?, ∀ b ∈ run.head?, r a b = false) ∧
      ∀ a ∈ run.getLast?, ∀ b ∈ after.head?, r a b = false := by
  constructor
  · intro hrun
    have hapart := List.isChain_getLast_head_splitBy r l
    have hflatten := List.flatten_splitBy r l
    have hne : ∀ m ∈ l.splitBy r, m ≠ [] := fun m hm => List.ne_nil_of_mem_splitBy hm
    refine ⟨hne run hrun, List.isChain_of_mem_splitBy hrun, ?_⟩
    obtain ⟨front, back, heq⟩ := List.append_of_mem hrun
    rw [heq] at hapart hflatten hne
    obtain ⟨-, hback, hfront⟩ := List.isChain_append.mp hapart
    refine ⟨front.flatten, back.flatten, ?_, ?_, ?_⟩
    · rw [← hflatten, List.flatten_append, List.flatten_cons, List.append_assoc]
    · intro a ha b hb
      rcases List.eq_nil_or_concat front with rfl | ⟨front, last, rfl⟩
      · cases ha
      · obtain ⟨hlast, hhead, hr⟩ := hfront last (by simp) run (by simp)
        have ha' : last.getLast? = some a := by
          rw [← ha, List.concat_eq_append, List.flatten_append, List.flatten_singleton,
            List.getLast?_append_of_ne_nil _ hlast]
        rwa [List.getLast_of_mem_getLast? ha', List.head_of_mem_head? hb] at hr
    · intro a ha b hb
      cases back with
      | nil => cases hb
      | cons next back =>
        obtain ⟨hlast, hhead, hr⟩ := (List.isChain_cons.mp hback).1 next (by simp)
        have hb' : next.head? = some b := by rw [← hb, List.flatten_cons, List.head?_append_of_ne_nil _ hhead]
        rwa [List.getLast_of_mem_getLast? ha, List.head_of_mem_head? hb'] at hr
  · rintro ⟨hne, hchain, before, after, rfl, hbefore, hafter⟩
    have hlast : ∀ a ∈ (before ++ run).getLast?, ∀ b ∈ after.head?, r a b = false := by
      rwa [List.getLast?_append_of_ne_nil _ hne]
    rw [List.splitBy_append hlast, List.splitBy_append hbefore, List.splitBy_of_isChain hne hchain]
    simp

theorem exists_left_of_forall₂ {β : Type} {R : α → β → Prop} {l : List α} {u : List β} {b : β}
    (h : List.Forall₂ R l u) (hb : b ∈ u) : ∃ a ∈ l, R a b := by
  induction h with
  | nil => cases hb
  | @cons a b' l u hab _ ih =>
    rcases List.mem_cons.mp hb with rfl | hb
    · exact ⟨a, List.mem_cons_self, hab⟩
    · obtain ⟨a, ha, hab⟩ := ih hb
      exact ⟨a, List.mem_cons_of_mem _ ha, hab⟩

end Lists

namespace CommentIndex

open Script

variable {s : Source} {b : CommentBlock} {m n : Node} {run ns : List Node}

/-- A line comment and the line comment after it, with only blanks and at most one line feed between them. -/
structure Adjoins (s : Source) (m n : Node) : Prop where
  first : ['/', '/'] <+: s.chars m
  second : ['/', '/'] <+: s.chars n
  blank : ∀ c ∈ s.slice m.span.stop n.span.start, c ∈ [' ', '\t', '\n', '\x0b', '\x0c', '\r']
  lineFeeds : (s.slice m.span.stop n.span.start).count '\n' ≤ 1

instance (s : Source) (m n : Node) : Decidable (Adjoins s m n) :=
  -- through the list: a search over every character would also be an instance
  haveI : Decidable (∀ c ∈ s.slice m.span.stop n.span.start, c ∈ [' ', '\t', '\n', '\x0b', '\x0c', '\r']) :=
    List.decidableBAll _ _
  decidable_of_iff (['/', '/'] <+: s.chars m ∧ ['/', '/'] <+: s.chars n ∧
      (∀ c ∈ s.slice m.span.stop n.span.start, c ∈ [' ', '\t', '\n', '\x0b', '\x0c', '\r']) ∧
      (s.slice m.span.stop n.span.start).count '\n' ≤ 1)
    ⟨fun ⟨hfirst, hsecond, hblank, hlines⟩ => ⟨hfirst, hsecond, hblank, hlines⟩,
      fun h => ⟨h.first, h.second, h.blank, h.lineFeeds⟩⟩

/-- A longest run of the comments in which each adjoins the next. -/
def IsRun (s : Source) (ns run : List Node) : Prop :=
  run ≠ [] ∧ run.IsChain (Adjoins s) ∧ ∃ before after, ns = before ++ run ++ after ∧
    (∀ m ∈ before.getLast?, ∀ n ∈ run.head?, ¬Adjoins s m n) ∧
    ∀ m ∈ run.getLast?, ∀ n ∈ after.head?, ¬Adjoins s m n

/-- The block consists of the comments of the run. -/
structure IsBlockOf (s : Source) (run : List Node) (b : CommentBlock) : Prop where
  text : b.text = Text.joinLines (run.map s.chars)
  start : run.head?.map (·.span.start) = some b.span.start
  stop : run.getLast?.map (·.span.stop) = some b.span.stop
  unclaimed : b.claimed = false

theorem isAsciiBlank_iff {c : Char} : Text.isAsciiBlank c ↔ c ∈ [' ', '\t', '\n', '\x0b', '\x0c', '\r'] := by
  have hcode (d : Char) : c = d ↔ c.toNat = d.toNat := ⟨congrArg _, Char.toNat_inj.mp⟩
  simp only [Text.isAsciiBlank, Bool.or_eq_true, beq_iff_eq, Bool.and_eq_true, decide_eq_true_eq, List.mem_cons,
    List.not_mem_nil, or_false, hcode]
  simp only [Char.reduceToNat]
  omega

theorem isShortGap_iff {gap : List Char} : isShortGap gap ↔
    (∀ c ∈ gap, c ∈ [' ', '\t', '\n', '\x0b', '\x0c', '\r']) ∧ gap.count '\n' ≤ 1 := by
  simp only [isShortGap, Bool.and_eq_true, List.all_eq_true, isAsciiBlank_iff, decide_eq_true_eq]

theorem isBlockOf_singleton (n : Node) : IsBlockOf s [n] (blockOf s n) := ⟨rfl, rfl, rfl, rfl⟩

theorem isLineComment_of_isChain (hchain : run.IsChain (Adjoins s)) (hlength : 2 ≤ run.length) (hm : m ∈ run) :
    ['/', '/'] <+: s.chars m := by
  induction run with
  | nil => cases hm
  | cons a run ih =>
    cases run with
    | nil => simp at hlength
    | cons b run =>
      obtain ⟨hab, hrest⟩ := List.isChain_cons_cons.mp hchain
      rcases List.mem_cons.mp hm with rfl | hm
      · exact hab.first
      · cases run with
        | nil =>
          obtain rfl := List.mem_singleton.mp hm
          exact hab.second
        | cons c run => exact ih hrest (by simp) hm

theorem prefix_joinLines {first : List Char} {rest : List (List Char)} {mark : List Char} (h : mark <+: first) :
    mark <+: Text.joinLines (first :: rest) := by
  cases rest with
  | nil => exact h
  | cons line rest => exact h.trans (List.prefix_append _ _)

theorem IsBlockOf.continues_iff (hb : IsBlockOf s run b) (hchain : run.IsChain (Adjoins s))
    (hm : run.getLast? = some m) : continues s b n ↔ Adjoins s m n := by
  have hstop : m.span.stop = b.span.stop := by simpa [hm] using hb.stop
  have hline : isLineComment b.text ↔ ['/', '/'] <+: s.chars m := by
    rw [isLineComment, List.isPrefixOf_iff_prefix, hb.text]
    match run, hm with
    | [k], hm =>
      obtain rfl : k = m := Option.some.inj hm
      exact Iff.rfl
    | k :: l :: run, hm =>
      have hall := fun x => isLineComment_of_isChain (m := x) hchain (by simp)
      exact iff_of_true (prefix_joinLines (hall k List.mem_cons_self)) (hall m (List.mem_of_getLast? hm))
  rw [continues, Bool.and_eq_true, Bool.and_eq_true, hline, isShortGap_iff, isLineComment, List.isPrefixOf_iff_prefix,
    ← hstop]
  exact ⟨fun ⟨⟨hsecond, hfirst⟩, hblank, hlines⟩ => ⟨hfirst, hsecond, hblank, hlines⟩,
    fun h => ⟨⟨h.second, h.first⟩, h.blank, h.lineFeeds⟩⟩

theorem joinLines_concat (lines : List (List Char)) (hne : lines ≠ []) (line : List Char) :
    Text.joinLines (lines ++ [line]) = Text.joinLines lines ++ '\n' :: line := by
  induction lines with
  | nil => exact absurd rfl hne
  | cons first lines ih =>
    cases lines with
    | nil => rfl
    | cons second lines =>
      have hrest := ih (List.cons_ne_nil _ _)
      simp only [List.cons_append, Text.joinLines] at hrest ⊢
      rw [hrest, List.append_assoc, List.cons_append]

theorem IsBlockOf.extend (hb : IsBlockOf s run b) (hne : run ≠ []) (n : Node) :
    IsBlockOf s (run ++ [n]) (extend s b n) where
  text := by
    rw [List.map_append, List.map_singleton, joinLines_concat _ (by simpa using hne), ← hb.text]
    rfl
  start := by
    rw [List.head?_append_of_ne_nil _ hne]
    exact hb.start
  stop := by simp [CommentIndex.extend]
  unclaimed := hb.unclaimed

theorem blocksFrom_runs (hb : IsBlockOf s run b) (hne : run ≠ []) (hchain : run.IsChain (Adjoins s)) :
    List.Forall₂ (IsBlockOf s) ((run ++ ns).splitBy fun m n => Adjoins s m n) (blocksFrom s b ns) := by
  have hsplit : ∀ run : List Node, run ≠ [] → run.IsChain (Adjoins s) →
      run.splitBy (fun m n => Adjoins s m n) = [run] := by
    intro run hne hchain
    exact List.splitBy_of_isChain hne (hchain.imp fun _ _ h => decide_eq_true h)
  induction ns generalizing b run with
  | nil =>
    rw [List.append_nil, hsplit run hne hchain]
    exact .cons hb .nil
  | cons n ns ih =>
    have hlast := List.getLast?_eq_some_getLast hne
    have hcontinues := hb.continues_iff (n := n) hchain hlast
    rw [blocksFrom]
    split
    · next hcont =>
      have hlonger : (run ++ [n]).IsChain (Adjoins s) := by
        refine hchain.append (List.isChain_singleton n) fun m hm k hk => ?_
        obtain rfl : run.getLast hne = m := Option.some.inj (hlast.symm.trans hm)
        obtain rfl : n = k := Option.some.inj hk
        exact hcontinues.mp hcont
      rw [List.append_cons]
      exact ih (hb.extend hne n) (by simp) hlonger
    · next hcont =>
      have hapart : ∀ m ∈ run.getLast?, decide (Adjoins s m n) = false := by
        intro m hm
        obtain rfl : run.getLast hne = m := Option.some.inj (hlast.symm.trans hm)
        exact decide_eq_false (mt hcontinues.mpr hcont)
      rw [List.splitBy_append_cons ns hapart, hsplit run hne hchain]
      exact .cons hb (ih (isBlockOf_singleton n) (List.cons_ne_nil _ _) (List.isChain_singleton n))

theorem blocks_runs (ns : List Node) :
    List.Forall₂ (IsBlockOf s) (ns.splitBy fun m n => Adjoins s m n) (blocks s ns) := by
  cases ns with
  | nil => exact .nil
  | cons n ns => exact blocksFrom_runs (isBlockOf_singleton n) (List.cons_ne_nil _ _) (List.isChain_singleton n)

theorem mem_runs_iff : run ∈ ns.splitBy (fun m n => Adjoins s m n) ↔ IsRun s ns run := by
  simp only [mem_splitBy_iff, IsRun, decide_eq_true_eq, decide_eq_false_iff_not]

theorem IsBlockOf.start_lt_stop (hb : IsBlockOf s run b) (hascend : Span.Ascending (run.map (·.span)))
    (hcovers : ∀ n ∈ run, n.span.start < n.span.stop) : b.span.start < b.span.stop := by
  obtain ⟨first, hfirst, hstart⟩ := Option.map_eq_some_iff.mp hb.start
  obtain ⟨rest, rfl⟩ := List.head?_eq_some_iff.mp hfirst
  obtain ⟨last, hlast, hstop⟩ := Option.map_eq_some_iff.mp hb.stop
  rw [← hstart, ← hstop]
  have hlt := hcovers last (List.mem_of_getLast? hlast)
  rcases List.mem_cons.mp (List.mem_of_getLast? hlast) with rfl | hmem
  · exact hlt
  · obtain ⟨hle, hapart, -⟩ := Span.ascending_cons_iff.mp hascend
    exact (hle.trans (hapart last.span (List.mem_map_of_mem hmem))).trans_lt hlt

theorem ascending_of_isRun (h : Span.Ascending (ns.map (·.span))) (hrun : IsRun s ns run) :
    Span.Ascending (run.map (·.span)) := by
  obtain ⟨-, -, before, after, rfl, -, -⟩ := hrun
  rw [List.map_append, List.map_append] at h
  exact ⟨fun p hp => h.start_le_stop p (by simp [hp]),
    (List.pairwise_append.mp (List.pairwise_append.mp h.apart).1).2.1⟩

/-- The comments of a script fall into runs, and its blocks are these runs, one after another. -/
theorem ofSource_runs (h : CommentsAscend s) (hnonempty : ∀ n ∈ comments s.root, n.span.start < n.span.stop) :
    ∃ runs : List (List Node), runs.flatten = comments s.root ∧
      (∀ run, run ∈ runs ↔ IsRun s (comments s.root) run) ∧ List.Forall₂ (IsBlockOf s) runs (ofSource s) ∧
      (∀ b ∈ ofSource s, b.span.start < b.span.stop) ∧
      (ofSource s).Pairwise fun b b' => b.span.start < b'.span.start ∧ b.span.stop ≤ b'.span.start := by
  have hblocks := blocks_runs (s := s) (comments s.root)
  rw [← inOrder_eq_self (blocks_ascending h)] at hblocks
  have hcovers : ∀ b ∈ ofSource s, b.span.start < b.span.stop := by
    intro b hb
    obtain ⟨run, hrun, hblock⟩ := exists_left_of_forall₂ hblocks hb
    have hrun := mem_runs_iff.mp hrun
    refine hblock.start_lt_stop (ascending_of_isRun h hrun) fun n hn => ?_
    obtain ⟨-, -, before, after, heq, -, -⟩ := hrun
    exact hnonempty n (by simp [heq, hn])
  have hapart := (ofSource_ascending h).apart
  rw [List.pairwise_map] at hapart
  exact ⟨_, List.flatten_splitBy _ _, fun run => mem_runs_iff, hblocks, hcovers,
    hapart.imp_of_mem fun hb _ hle => ⟨(hcovers _ hb).trans_le hle, hle⟩⟩

/-- A blank line and a comment of the other kind part line comments. -/
theorem ofSource_runs_parted :
    let text := "// One,\n// two.\n\n// Three.\n/* Four. */ // Five,\n\t// six.\nlet a; // Seven."
    ∃ s runs, parse text.toList 0 none = .ok s ∧ CommentsAscend s ∧
      (∀ n ∈ comments s.root, n.span.start < n.span.stop) ∧ runs.flatten = comments s.root ∧
      (∀ run, run ∈ runs ↔ IsRun s (comments s.root) run) ∧ List.Forall₂ (IsBlockOf s) runs (ofSource s) ∧
      (ofSource s).map (fun b => String.ofList b.text) =
        ["// One,\n// two.", "// Three.", "/* Four. */", "// Five,\n// six.", "// Seven."] := by
  intro text
  have hread : (parse text.toList 0 none).toOption.any fun s => CommentsAscend s ∧
      (∀ n ∈ comments s.root, n.span.start < n.span.stop) ∧ (ofSource s).map (fun b => String.ofList b.text) =
        ["// One,\n// two.", "// Three.", "/* Four. */", "// Five,\n// six.", "// Seven."] := by
    decide +kernel
  obtain ⟨s, hs, hread⟩ := exists_ok_of_any hread
  obtain ⟨hascend, hnonempty, htexts⟩ := of_decide_eq_true hread
  obtain ⟨runs, hflatten, hruns, hblocks, -⟩ := ofSource_runs hascend hnonempty
  exact ⟨s, runs, hs, hascend, hnonempty, hflatten, hruns, hblocks, htexts⟩

end CommentIndex

end ComponentDoc
