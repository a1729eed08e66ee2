import ComponentDoc.Span

namespace ComponentDoc

inductive ParseCause
  | openExpression
  | openString
  | openTemplate
  | openComment
  | openClosingTag
  | openTag (name : String)
  | openValue
  | elementLeftOpen (name : String)
  | elementNotOpen (name : String)
  | strayCharacter (c : Char)
  | missingValue (name : String)
  | invalidValue (name : String)
  | regionLeftOpen (tag : String)
  | secondStyle
  | secondModuleScript
  | secondScript
  /-- With what stands at the fault, if anything stands there. -/
  | malformedScript (near : Option String)
  deriving DecidableEq, Repr

def ParseCause.message : ParseCause → String
  | openExpression => "Unterminated expression in markup"
  | openString => "Unterminated string in markup expression"
  | openTemplate => "Unterminated template literal in markup expression"
  | openComment => "Unterminated comment"
  | openClosingTag => "Unterminated closing tag"
  | openTag name => "Unterminated <" ++ name ++ "> tag"
  | openValue => "Unterminated attribute value"
  | elementLeftOpen name => "<" ++ name ++ "> was left open"
  | elementNotOpen name => "</" ++ name ++ "> attempted to close an element that was not open"
  | strayCharacter c => "Unexpected character '" ++ c.toString ++ "' in tag"
  | missingValue name => "Missing value for attribute '" ++ name ++ "'"
  | invalidValue name => "Invalid value for attribute '" ++ name ++ "'"
  | regionLeftOpen tag => "Unclosed <" ++ tag ++ "> element"
  | secondStyle => "A component can only have one top-level <style> element"
  | secondModuleScript => "A component can only have one module-level <script> element"
  | secondScript => "A component can only have one instance-level <script> element"
  | malformedScript near =>
    "Malformed script syntax" ++ near.elim "" fun text => " near '" ++ text ++ "'"

structure ParseError where
  cause : ParseCause
  span : Span
  deriving DecidableEq, Repr

def ParseError.at (cause : ParseCause) (start stop : Nat) : ParseError :=
  ⟨cause, ⟨start, max start stop⟩⟩

end ComponentDoc
