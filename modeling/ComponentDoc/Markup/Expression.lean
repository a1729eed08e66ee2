import ComponentDoc.ParseError

/-!
Expressions in braces. A scan finds the brace that closes the first one; braces in strings, template
literals and comments do not count, save those of the substitutions of a template literal.
-/

namespace ComponentDoc.Markup

inductive Frame
  | braces (start : Nat) (depth : Int)
  | template (start : Nat)
  | quoted (quote : Char) (start : Nat)
  | lineComment
  | blockComment
  deriving DecidableEq, Repr

/-- The error of a text that ends at offset `stop` with these frames open, innermost first. -/
def unfinished (stop : Nat) : List Frame → ParseError
  | .quoted _ start :: _ => .at .openString start stop
  | .template start :: _ => .at .openTemplate start stop
  | .braces start _ :: _ => .at .openExpression start stop
  | _ :: rest => unfinished stop rest
  | [] => .at .openExpression stop stop

/-- Reads from offset `pos` until the outermost frame closes, and gives the offset after it. -/
def scan (frames : List Frame) (pos : Nat) : List Char → Except ParseError Nat
  | [] => .error (unfinished pos frames)
  | c :: rest =>
    match frames with
    | [] => .ok pos
    | .quoted quote start :: below =>
      if c = '\\' then
        match rest with
        | [] => .error (.at .openString start (pos + 2))
        | _ :: rest => scan frames (pos + 2) rest
      else if c = quote then scan below (pos + 1) rest
      else if c = '\n' then .error (.at .openString start pos)
      else scan frames (pos + 1) rest
    | .template _ :: below =>
      if c = '\\' then
        match rest with
        | [] => .error (unfinished (pos + 1) frames)
        | _ :: rest => scan frames (pos + 2) rest
      else if c = '`' then scan below (pos + 1) rest
      else if c = '$' then
        match rest with
        | '{' :: rest => scan (.braces (pos + 1) 1 :: frames) (pos + 2) rest
        | rest => scan frames (pos + 1) rest
      else scan frames (pos + 1) rest
    | .lineComment :: below =>
      if c = '\n' then scan below (pos + 1) rest else scan frames (pos + 1) rest
    | .blockComment :: below =>
      if c = '*' then
        match rest with
        | '/' :: rest => scan below (pos + 2) rest
        | rest => scan frames (pos + 1) rest
      else scan frames (pos + 1) rest
    | .braces start depth :: below =>
      if c = '"' ∨ c = '\'' then scan (.quoted c pos :: frames) (pos + 1) rest
      else if c = '`' then scan (.template pos :: frames) (pos + 1) rest
      else if c = '{' then scan (.braces start (depth + 1) :: below) (pos + 1) rest
      else if c = '}' then
        if depth = 1 then
          if below.isEmpty then .ok (pos + 1) else scan below (pos + 1) rest
        else scan (.braces start (depth - 1) :: below) (pos + 1) rest
      else if c = '/' then
        match rest with
        | '/' :: rest => scan (.lineComment :: frames) (pos + 2) rest
        | '*' :: rest => scan (.blockComment :: frames) (pos + 2) rest
        | rest => scan frames (pos + 1) rest
      else scan frames (pos + 1) rest

/-- The offset after the brace that matches the one at offset `pos`, where `text` starts. -/
def skipExpression (pos : Nat) (text : List Char) : Except ParseError Nat :=
  scan [.braces pos 0] pos text

end ComponentDoc.Markup
