
namespace ComponentDoc.Text

def isBlank (c : Char) : Bool :=
  let n := c.toNat
  if n < 0x80 then (9 ≤ n && n ≤ 13) || (28 ≤ n && n ≤ 32)
  else n == 0x85 || n == 0xA0 || n == 0x1680 || (0x2000 ≤ n && n ≤ 0x200A) || n == 0x2028 ||
    n == 0x2029 || n == 0x202F || n == 0x205F || n == 0x3000

def isAsciiBlank (c : Char) : Bool :=
  c == ' ' || (9 ≤ c.toNat && c.toNat ≤ 13)

def dropEndWhile (p : Char → Bool) (s : List Char) : List Char :=
  (s.reverse.dropWhile p).reverse

def trimStart (s : List Char) : List Char := s.dropWhile isBlank

def trimEnd (s : List Char) : List Char := dropEndWhile isBlank s

def trim (s : List Char) : List Char := trimEnd (trimStart s)

def allBlank (s : List Char) : Bool := s.all isBlank

/-- The marks that end a line; a carriage return and the line feed after it are one mark. -/
def isLineEnd (c : Char) : Bool :=
  let n := c.toNat
  (10 ≤ n && n ≤ 13) || (28 ≤ n && n ≤ 30) || n == 0x85 || n == 0x2028 || n == 0x2029

/-- Collects lines; `line` is the current one, last character first. -/
def linesFrom (line : List Char) : List Char → List (List Char)
  | [] => if line.isEmpty then [] else [line.reverse]
  | '\r' :: '\n' :: rest => line.reverse :: linesFrom [] rest
  | c :: rest =>
    if isLineEnd c then line.reverse :: linesFrom [] rest else linesFrom (c :: line) rest

/-- The lines without their ends; a mark at the very end opens no further line. -/
def lines (s : List Char) : List (List Char) := linesFrom [] s

def joinLines : List (List Char) → List Char
  | [] => []
  | [s] => s
  | s :: rest => s ++ '\n' :: joinLines rest

def firstWord (s : List Char) : List Char :=
  (trimStart s).takeWhile fun c => !isBlank c

theorem trim_nil : trim [] = [] := rfl

theorem trimStart_cons {c : Char} {s : List Char} (h : isBlank c = false) :
    trimStart (c :: s) = c :: s := by
  simp [trimStart, h]

end ComponentDoc.Text
