import ComponentDoc.Script.Grammar.Statements

/-!
Reading a script into its syntax tree. The rules of the grammar are tied together by a depth, which
no script exceeds: between two recursions that step over no token there are only a few rules.
Comments are put into the finished tree.
-/

namespace ComponentDoc.Script

open Script.Parser

def Grammar.rule (g : Grammar) : Goal → Parser Node
  | .statement => g.statementRule
  | .block => g.blockRule
  | .sequence allowIn => g.sequenceRule allowIn
  | .assignment allowIn => g.assignmentRule allowIn
  | .operation level allowIn => g.operationRule level allowIn
  | .unary => g.unaryRule
  | .binding => g.binding
  | .type => g.typeRule
  | .element => g.elementRule

def parseGoal (typed : Bool) (limit : Nat) : Nat → Goal → Parser Node
  | 0, _ => fail
  | depth + 1, goal => Grammar.rule ⟨typed, limit, parseGoal typed limit depth⟩ goal

mutual

def Node.withComments : Node → List Node → Node
  | ⟨kind, field, span, children⟩, comments => ⟨kind, field, span, placeComments children comments⟩

def placeComments : List Node → List Node → List Node
  | [], comments => comments
  | n :: rest, comments =>
    let before := comments.takeWhile fun c => c.span.stop ≤ n.span.start
    let after := comments.drop before.length
    let inside := after.takeWhile fun c => c.span.stop ≤ n.span.stop
    before ++ n.withComments inside :: placeComments rest (after.drop inside.length)

end

def interpreterLine (script : List Char) : List Char :=
  match script with
  | '#' :: '!' :: rest => '#' :: '!' :: rest.takeWhile fun c => !isLineBreak c
  | _ => []

def programStatements (typed : Bool) (limit : Nat) : Parser (List Node) := do
  let items ← collect (do
    if (← get).token.kind = .stop then return none
    return some (← parseGoal typed limit (32 * limit) .statement)) limit
  unless (← get).token.kind = .stop do fail
  return items

def parseProgram (typed : Bool) (script : List Char) : Option Node := do
  let line := interpreterLine script
  let head := byteLength line
  let begun := if line.isEmpty then Cursor.start script
    else Cursor.after false [] (script.drop line.length) head
  let (items, c) ← programStatements typed (script.length + 8) begun
  let first : List Node := if line.isEmpty then [] else [⟨.hashBangLine, none, ⟨0, head⟩, []⟩]
  let root : Node := ⟨.program, none, ⟨0, byteLength script⟩,
    first ++ placeComments items c.comments.reverse⟩
  if (walk root).any Node.hasStrayDefault then none else some root

instance : Reader where
  read typed script :=
    match parseProgram typed script with
    | some root => ⟨root, false⟩
    | none => ⟨⟨.error, none, ⟨0, byteLength script⟩, []⟩, true⟩

end ComponentDoc.Script
