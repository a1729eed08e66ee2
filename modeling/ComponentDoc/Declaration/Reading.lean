import ComponentDoc.Comment.Index
import ComponentDoc.Declaration.Basic
import ComponentDoc.Failure
import ComponentDoc.Notice

/-!
Reading declarations from a script. On the way comments are taken, items without a known type are
recorded, and notices are given; all that stays if reading fails.
-/

namespace ComponentDoc

open Script

structure Progress where
  comments : CommentIndex
  unresolved : List Unresolved
  notices : List Notice

abbrev Reading := ExceptT Failure (StateM Progress)

namespace Reading

def note (n : Notice) : Reading Unit :=
  modify fun p => { p with notices := p.notices ++ [n] }

def ofLiteral {α : Type} : Except LiteralError α → Reading α
  | .ok a => pure a
  | .error e => throw (.literal e)

def takeComment (s : Source) (n : Node) : Reading (Option Comment) :=
  modifyGet fun p =>
    let (comment, comments) := CommentIndex.take s p.comments n
    (comment, { p with comments := comments })

def peekComment (s : Source) (n : Node) : Reading (Option Comment) := do
  return CommentIndex.peek s (← get).comments n

def gather {α β : Type} (f : α → Reading (List β)) : List α → Reading (List β)
  | [] => return []
  | a :: rest => return (← f a) ++ (← gather f rest)

def noteAll : List Notice → Reading Unit
  | [] => return
  | n :: rest => do note n; noteAll rest

/-- The type of an item. One of which nothing is known is recorded. -/
def typeOf (s : Source) (subject : CodeText) (annotated : Option String) (initial : Option Node) :
    Reading ItemType := do
  let skipped := annotated.elim [] fun text =>
    TypeExpression.unread (TypeExpression.levelsAt 0) text.toList
  noteAll (skipped.map fun text => .typeTooDeep (String.ofList text))
  match ← ofLiteral (ItemType.resolve? s annotated initial) with
  | some t => return t
  | none =>
    modify fun p =>
      { p with unresolved := p.unresolved ++ [⟨subject, (initial.map s.textOf).or annotated⟩] }
    note (.typeUnknown subject)
    return .any

end Reading

def Reading.start {α : Type} (r : Reading α) (s : Source) :
    Except Failure α × Progress :=
  (ExceptT.run r).run ⟨CommentIndex.ofSource s, [], []⟩

end ComponentDoc
