import ComponentDoc.Comment.Reading
import ComponentDoc.Script.Source

/-!
The comments of a script, and which of them document what follows. Line comments below each other
make up one block. A block documents the node right after it, and it documents one taker at most.
-/

namespace ComponentDoc

open Script

/-- A block of comments: the texts joined by line feeds, and the bytes from first to last. -/
structure CommentBlock where
  text : List Char
  span : Span
  claimed : Bool
  deriving DecidableEq, Repr

abbrev CommentIndex := List CommentBlock

namespace CommentIndex

def isLineComment (text : List Char) : Bool := ['/', '/'].isPrefixOf text

def isShortGap (gap : List Char) : Bool :=
  gap.all Text.isAsciiBlank && gap.count '\n' ≤ 1

def blockOf (s : Source) (n : Node) : CommentBlock := ⟨s.chars n, n.span, false⟩

def continues (s : Source) (b : CommentBlock) (n : Node) : Bool :=
  isLineComment (s.chars n) && isLineComment b.text &&
    isShortGap (s.slice b.span.stop n.span.start)

def extend (s : Source) (b : CommentBlock) (n : Node) : CommentBlock :=
  { b with text := b.text ++ '\n' :: s.chars n, span := ⟨b.span.start, n.span.stop⟩ }

def blocksFrom (s : Source) (b : CommentBlock) : List Node → CommentIndex
  | [] => [b]
  | n :: rest =>
    if continues s b n then blocksFrom s (extend s b n) rest
    else b :: blocksFrom s (blockOf s n) rest

def blocks (s : Source) : List Node → CommentIndex
  | [] => []
  | n :: rest => blocksFrom s (blockOf s n) rest

def comments (root : Node) : List Node := (walk root).filter fun n => n.kind = .comment

def place (block : CommentBlock) : CommentIndex → CommentIndex
  | [] => [block]
  | b :: rest =>
    if block.span.start ≤ b.span.start then block :: b :: rest else b :: place block rest

def inOrder (index : CommentIndex) : CommentIndex := index.foldr place []

def ofSource (s : Source) : CommentIndex := inOrder (blocks s (comments s.root))

/-- How many of the ascending numbers `ends` are at most `x`, if that is at least `low` and at most
`high`; the range is halved at each step. -/
def upperBound (ends : List Nat) (x low high : Nat) : Nat :=
  if low < high then
    let mid := (low + high) / 2
    if x < ends.getD mid 0 then upperBound ends x low mid else upperBound ends x (mid + 1) high
  else low
termination_by high - low

def lastBefore? (index : CommentIndex) (start : Nat) : Option CommentBlock :=
  match upperBound (index.map fun b => b.span.stop) start 0 index.length with
  | 0 => none
  | i + 1 => index[i]?

theorem mem_of_lastBefore? {index : CommentIndex} {start : Nat} {b : CommentBlock}
    (h : index.lastBefore? start = some b) : b ∈ index := by
  unfold lastBefore? at h
  split at h
  · simp at h
  · exact List.mem_of_getElem? h

def preceding? (s : Source) (index : CommentIndex) (start : Nat) : Option CommentBlock :=
  (index.lastBefore? start).filter fun b => (s.slice b.span.stop start).all Text.isAsciiBlank

def read (s : Source) (b : CommentBlock) : Comment :=
  Comment.ofText b.text (some (s.locOfBytes b.span))

def peek (s : Source) (index : CommentIndex) (n : Node) : Option Comment :=
  ((preceding? s index n.span.start).filter fun b => !b.claimed).map (read s)

def claim (index : CommentIndex) (block : CommentBlock) : CommentIndex :=
  index.map fun b => if b.span = block.span then { b with claimed := true } else b

def take (s : Source) (index : CommentIndex) (n : Node) : Option Comment × CommentIndex :=
  match (preceding? s index n.span.start).filter fun b => !b.claimed with
  | some b => (some (read s b), index.claim b)
  | none => (none, index)

theorem take_fst (s : Source) (index : CommentIndex) (n : Node) :
    (take s index n).1 = peek s index n := by
  unfold take peek
  cases (preceding? s index n.span.start).filter fun b => !b.claimed <;> rfl

end CommentIndex

end ComponentDoc
