import ComponentDoc.Proofs.Comment.Order
import ComponentDoc.Script.Parse

namespace ComponentDoc.CommentIndex

open Script

inductive Call
  | peek (n : Node)
  | take (n : Node)

namespace Call

def node : Call → Node
  | peek n => n
  | take n => n

def isTake : Call → Bool
  | peek _ => false
  | take _ => true

def answer (s : Source) (index : CommentIndex) : Call → Option Comment × CommentIndex
  | peek n => (index.peek s n, index)
  | take n => index.take s n

end Call

/-- What calls answer one after another. -/
def answers (s : Source) (index : CommentIndex) : List Call → List (Option Comment)
  | [] => []
  | c :: cs => (c.answer s index).1 :: answers s (c.answer s index).2 cs

def available? (s : Source) (index : CommentIndex) (n : Node) : Option CommentBlock :=
  (preceding? s index n.span.start).filter fun b => !b.claimed

/-- The blocks that calls give one after another. -/
def given (s : Source) (index : CommentIndex) : List Call → List (Option CommentBlock)
  | [] => []
  | c :: cs => available? s index c.node :: given s (c.answer s index).2 cs

/-- The call at `j` takes the block `b`. -/
def TakenAt (s : Source) (index : CommentIndex) (calls : List Call) (j : Nat) (b : CommentBlock) : Prop :=
  (∃ n, calls[j]? = some (.take n)) ∧ (given s index calls)[j]? = some (some b)

variable {s : Source} {index : CommentIndex} {taken : List CommentBlock} {b : CommentBlock}

theorem answer_fst (c : Call) : (c.answer s index).1 = (available? s index c.node).map (read s) := by
  cases c with
  | peek n => rfl
  | take n => exact take_fst s index n

theorem answers_eq_given (calls : List Call) :
    answers s index calls = (given s index calls).map (Option.map (read s)) := by
  induction calls generalizing index with
  | nil => rfl
  | cons c calls ih => rw [answers, given, List.map_cons, answer_fst, ih]

theorem answers_filter_isTake (calls : List Call) :
    answers s index (calls.filter Call.isTake) =
      ((calls.zip (answers s index calls)).filter fun p => p.1.isTake).map Prod.snd := by
  induction calls generalizing index with
  | nil => rfl
  | cons c calls ih =>
    cases c with
    | peek n => exact ih
    | take n => exact congrArg (List.cons _) ih

def marked (index : CommentIndex) (taken : List CommentBlock) : CommentIndex :=
  index.map fun b => { b with claimed := taken.any fun t => t.span = b.span }

theorem marked_nil (h : ∀ b ∈ index, b.claimed = false) : marked index [] = index := by
  refine (List.map_congr_left fun b hb => ?_).trans (List.map_id index)
  rw [List.any_nil, ← h b hb]
  rfl

theorem claim_marked (t : CommentBlock) : (marked index taken).claim t = marked index (t :: taken) := by
  unfold claim marked
  rw [List.map_map]
  refine List.map_congr_left fun b _ => ?_
  by_cases h : b.span = t.span
  · simp [h]
  · simp [h, Ne.symm h]

theorem lastBefore?_marked (start : Nat) :
    (marked index taken).lastBefore? start =
      (index.lastBefore? start).map fun b => { b with claimed := taken.any fun t => t.span = b.span } := by
  have hstops : (marked index taken).map (fun b => b.span.stop) = index.map fun b => b.span.stop := by
    rw [marked, List.map_map]
    rfl
  have hlength : (marked index taken).length = index.length := List.length_map _
  unfold lastBefore?
  rw [hstops, hlength]
  split
  · rfl
  · exact List.getElem?_map

theorem available?_marked (h : ∀ b ∈ index, b.claimed = false) (n : Node) :
    available? s (marked index taken) n = some b ↔
      preceding? s index n.span.start = some b ∧ ∀ t ∈ taken, t.span ≠ b.span := by
  unfold available? preceding?
  rw [lastBefore?_marked]
  cases hlast : index.lastBefore? n.span.start with
  | none => simp
  | some b₀ =>
    obtain ⟨text, span, claimed⟩ := b₀
    obtain rfl : claimed = false := h _ (mem_of_lastBefore? hlast)
    simp only [Option.map_some, Option.filter_filter, Option.filter_eq_some_iff, Option.some.injEq]
    rw [Bool.and_eq_true, Bool.not_eq_true']
    have hmark : (taken.any fun t => t.span = span) = false ↔ ∀ t ∈ taken, t.span ≠ span := by simp
    constructor
    · rintro ⟨rfl, hgap, huntaken⟩
      exact ⟨⟨congrArg (CommentBlock.mk text span) huntaken.symm, hgap⟩, hmark.mp huntaken⟩
    · rintro ⟨⟨rfl, hgap⟩, huntaken⟩
      exact ⟨congrArg (CommentBlock.mk text span) (hmark.mpr huntaken), hgap, rfl⟩

def takes (s : Source) (index : CommentIndex) (c : Call) : List CommentBlock :=
  if c.isTake then (available? s index c.node).toList else []

theorem answer_snd (c : Call) :
    (c.answer s (marked index taken)).2 = marked index (takes s (marked index taken) c ++ taken) := by
  cases c with
  | peek n => rfl
  | take n =>
    change (take s _ n).2 = marked index ((available? s _ n).toList ++ taken)
    unfold take available?
    split
    · next b hb =>
      rw [hb]
      exact claim_marked b
    · next hnone =>
      rw [hnone]
      rfl

theorem takenAt_zero_iff {c : Call} {calls : List Call} :
    TakenAt s index (c :: calls) 0 b ↔ b ∈ takes s index c := by
  cases c <;> simp [TakenAt, takes, given, Call.isTake]

theorem takenAt_succ_iff {c : Call} {calls : List Call} {j : Nat} :
    TakenAt s index (c :: calls) (j + 1) b ↔ TakenAt s (c.answer s index).2 calls j b := Iff.rfl

theorem given_marked_iff (h : ∀ b ∈ index, b.claimed = false) {calls : List Call} {k : Nat} :
    (given s (marked index taken) calls)[k]? = some (some b) ↔
      ∃ c, calls[k]? = some c ∧ preceding? s index c.node.span.start = some b ∧
        (∀ t ∈ taken, t.span ≠ b.span) ∧
        ∀ j < k, ∀ t, TakenAt s (marked index taken) calls j t → t.span ≠ b.span := by
  induction calls generalizing taken k with
  | nil => simp [given]
  | cons c calls ih =>
    cases k with
    | zero => simp [given, available?_marked h]
    | succ k =>
      rw [given, List.getElem?_cons_succ, answer_snd, ih]
      refine exists_congr fun c' => and_congr_right fun _ => and_congr_right fun _ => ?_
      rw [List.forall_mem_append, Nat.forall_lt_succ_left]
      simp only [takenAt_zero_iff, takenAt_succ_iff, answer_snd, and_left_comm, and_assoc]

theorem claimed_of_mem_blocksFrom {ns : List Node} {b' : CommentBlock} (h : b' ∈ blocksFrom s b ns) :
    b'.claimed = b.claimed ∨ b'.claimed = false := by
  induction ns generalizing b with
  | nil =>
    rw [List.mem_singleton.mp h]
    exact .inl rfl
  | cons n ns ih =>
    rw [blocksFrom] at h
    split at h
    · exact ih (b := extend s b n) h
    · rcases List.mem_cons.mp h with rfl | h
      · exact .inl rfl
      · exact .inr (or_self_iff.mp (ih h))

theorem claimed_of_mem_ofSource (h : CommentsAscend s) (hb : b ∈ ofSource s) : b.claimed = false := by
  rw [ofSource, inOrder_eq_self (blocks_ascending h)] at hb
  cases hc : comments s.root with
  | nil => simp [hc, blocks] at hb
  | cons n ns =>
    rw [hc] at hb
    exact or_self_iff.mp (claimed_of_mem_blocksFrom hb)

/-- `b` is the block right before the node `n`. -/
def Documents (s : Source) (b : CommentBlock) (n : Node) : Prop :=
  IsLastBefore (ofSource s) n.span.start b ∧ (s.slice b.span.stop n.span.start).all Text.isAsciiBlank

theorem preceding?_eq_some_iff (h : CommentsAscend s) {n : Node} :
    preceding? s (ofSource s) n.span.start = some b ↔ Documents s b n := by
  unfold preceding? Documents
  rw [Option.filter_eq_some_iff, lastBefore?_eq_some_iff (ofSource_ascending h)]

theorem Documents.eq_of_span_eq (h : CommentsAscend s) {b' : CommentBlock} {n n' : Node} (hb : Documents s b n)
    (hb' : Documents s b' n') (hspan : b.span = b'.span) : b = b' := by
  have hlast := (lastBefore?_eq_some_iff (ofSource_ascending h)).mpr hb.1.at_stop
  have hlast' := (lastBefore?_eq_some_iff (ofSource_ascending h)).mpr hb'.1.at_stop
  rw [hspan, hlast'] at hlast
  exact (Option.some.inj hlast).symm

/-- The comments of a script document one taker each: a call gives the block right before its node, if no
call before took that block. -/
theorem given_once (h : CommentsAscend s) (calls : List Call) :
    answers s (ofSource s) calls = (given s (ofSource s) calls).map (Option.map (read s)) ∧
      (∀ k b, (given s (ofSource s) calls)[k]? = some (some b) ↔
        ∃ c, calls[k]? = some c ∧ Documents s b c.node ∧ ∀ j < k, ¬TakenAt s (ofSource s) calls j b) ∧
      (∀ j k b, TakenAt s (ofSource s) calls j b → j < k →
        (given s (ofSource s) calls)[k]? ≠ some (some b)) ∧
      answers s (ofSource s) (calls.filter Call.isTake) =
        ((calls.zip (answers s (ofSource s) calls)).filter fun p => p.1.isTake).map Prod.snd := by
  have hclean : ∀ b ∈ ofSource s, b.claimed = false := fun b hb => claimed_of_mem_ofSource h hb
  have hrun (k : Nat) (b : CommentBlock) : (given s (ofSource s) calls)[k]? = some (some b) ↔
      ∃ c, calls[k]? = some c ∧ Documents s b c.node ∧
        ∀ j < k, ∀ t, TakenAt s (ofSource s) calls j t → t.span ≠ b.span := by
    conv => lhs; rw [← marked_nil hclean]
    rw [given_marked_iff hclean, marked_nil hclean]
    simp only [preceding?_eq_some_iff h, List.not_mem_nil, false_implies, implies_true, true_and]
  have hgiven (k : Nat) (b : CommentBlock) : (given s (ofSource s) calls)[k]? = some (some b) ↔
      ∃ c, calls[k]? = some c ∧ Documents s b c.node ∧ ∀ j < k, ¬TakenAt s (ofSource s) calls j b := by
    rw [hrun]
    refine exists_congr fun c => and_congr_right fun _ => and_congr_right fun hb => ?_
    refine forall_congr' fun j => imp_congr_right fun _ => ⟨fun huntaken htaken => huntaken b htaken rfl, ?_⟩
    intro huntaken t htaken hspan
    obtain ⟨c', -, ht, -⟩ := (hrun j t).mp htaken.2
    exact huntaken (ht.eq_of_span_eq h hb hspan ▸ htaken)
  refine ⟨answers_eq_given calls, hgiven, fun j k b htaken hlt hlater => ?_, answers_filter_isTake calls⟩
  obtain ⟨-, -, -, huntaken⟩ := (hgiven k b).mp hlater
  exact huntaken j hlt htaken

/-- Looking at a comment leaves it to the first taker; two line comments are one block. -/
theorem given_once_block_then_lines :
    let text := "/** First. */\nlet a;\n// Second,\n// in two lines.\nlet b;"
    let calls (s : Source) := (s.root.named.filter fun n => n.kind = .lexicalDeclaration).flatMap
      fun n => [Call.peek n, .take n, .take n]
    ∃ s, parse text.toList 0 none = .ok s ∧ CommentsAscend s ∧
      (given s (ofSource s) (calls s)).map (Option.map fun b => String.ofList b.text) =
        [some "/** First. */", some "/** First. */", none,
          some "// Second,\n// in two lines.", some "// Second,\n// in two lines.", none] ∧
      (∀ j k b, TakenAt s (ofSource s) (calls s) j b → j < k →
        (given s (ofSource s) (calls s))[k]? ≠ some (some b)) ∧
      answers s (ofSource s) ((calls s).filter Call.isTake) =
        (((calls s).zip (answers s (ofSource s) (calls s))).filter fun p => p.1.isTake).map Prod.snd := by
  intro text calls
  have hread : (parse text.toList 0 none).toOption.any fun s => CommentsAscend s ∧
      (given s (ofSource s) (calls s)).map (Option.map fun b => String.ofList b.text) =
        [some "/** First. */", some "/** First. */", none,
          some "// Second,\n// in two lines.", some "// Second,\n// in two lines.", none] := by
    decide +kernel
  cases hparse : parse text.toList 0 none with
  | error e => simp [hparse, Except.toOption] at hread
  | ok s =>
    rw [hparse] at hread
    obtain ⟨hascend, hblocks⟩ := of_decide_eq_true hread
    obtain ⟨-, -, honce, htakes⟩ := given_once hascend (calls s)
    exact ⟨s, rfl, hascend, hblocks, honce, htakes⟩

end ComponentDoc.CommentIndex
