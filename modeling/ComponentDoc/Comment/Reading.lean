import ComponentDoc.Comment.Basic
import ComponentDoc.Text.Blank
import ComponentDoc.Text.Search
import ComponentDoc.Text.Word

/-!
Reading a comment. Its delimiters and the decoration of its lines are dropped. The lines before the
first keyword are the description; a keyword starts with `@` and its description goes on up to the
next one.
-/

namespace ComponentDoc

namespace Comment

open Text

def openers : List (List Char) :=
  [['<', '!', '-', '-'], ['/', '*', '*'], ['/', '*'], ['/', '/']]

def closers : List (List Char) := [['-', '-', '>'], ['*', '/']]

def plainLine (line : List Char) : List Char :=
  match trim line with
  | '/' :: '/' :: rest => trim rest
  | '*' :: rest =>
    if rest.head? = some '/' then '*' :: rest else trim (rest.dropWhile (· == '*'))
  | line => line

def afterOpener (text : List Char) : List Char :=
  (openers.findSome? fun o => dropStart? o text).getD text

def beforeCloser (text : List Char) : List Char :=
  (closers.findSome? fun c => dropStop? c text).getD text

def plainLines (text : List Char) : List (List Char) :=
  (lines (beforeCloser (afterOpener (trim text)))).map plainLine

inductive LineContent
  | text (line : List Char)
  | keyword (name rest : List Char)
  /-- Nothing: a line that starts with `@` but with no keyword. -/
  | ignored
  deriving DecidableEq, Repr

def isKeywordChar (c : Char) : Bool := isWord c || c == '-'

def keywordRest? : List Char → Option (List Char)
  | [] => some []
  | c :: rest =>
    if isBlank c then some (trimStart rest) else if c = '{' then some (c :: rest) else none

def lineContent (line : List Char) : LineContent :=
  match line with
  | '@' :: c :: rest =>
    if isAsciiLetter c || c == '_' then
      match keywordRest? (rest.dropWhile isKeywordChar) with
      | some after => .keyword (c :: rest.takeWhile isKeywordChar) after
      | none => .ignored
    else .ignored
  | ['@'] => .ignored
  | _ => .text line

def sections : List (List Char) → List (List Char) × List (List Char × List (List Char))
  | [] => ([], [])
  | line :: rest =>
    let (texts, keywords) := sections rest
    match lineContent line with
    | .text line => (line :: texts, keywords)
    | .keyword name after => ([], (name, after :: texts) :: keywords)
    | .ignored => (texts, keywords)

def describe (texts : List (List Char)) : String := String.ofList (trim (joinLines texts))

def nonempty? (s : String) : Option String := if s.isEmpty then none else some s

def ofText (text : List Char) (loc : Option Span) : Comment :=
  let (texts, keywords) := sections (plainLines text)
  { description := nonempty? (describe texts)
    keywords := keywords.map fun (name, texts) => ⟨String.ofList name, describe texts⟩
    loc := loc }

end Comment

end ComponentDoc
