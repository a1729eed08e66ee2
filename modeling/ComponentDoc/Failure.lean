import ComponentDoc.Literal.Error
import ComponentDoc.ParseError
import ComponentDoc.Text.CodeText

namespace ComponentDoc

structure DuplicateName where
  category : String
  name : CodeText
  /-- Where the two items stand, as far as it is known. -/
  locs : List Span
  deriving DecidableEq, Repr

inductive Failure
  | malformed (error : ParseError)
  | duplicate (error : DuplicateName)
  | literal (error : LiteralError)
  /-- A script that was to be an expression has none. -/
  | noExpression
  | importWithoutSource
  | unusableFileName
  deriving DecidableEq, Repr

def DuplicateName.message (d : DuplicateName) : CodeText :=
  ("Duplicate " ++ d.category ++ " name '" : CodeText) ++ d.name ++ "'"

end ComponentDoc
