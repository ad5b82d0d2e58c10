/-! # Lines

Cutting text into lines, and blanks at their ends. -/

namespace ExprCode.Text

/-- The characters with the property White_Space. -/
def isBlank (c : Char) : Bool :=
  let n := c.toNat
  (9 ≤ n && n ≤ 13) || n == 0x20 || n == 0x85 || n == 0xA0 || n == 0x1680 ||
    (0x2000 ≤ n && n ≤ 0x200A) || n == 0x2028 || n == 0x2029 || n == 0x202F || n == 0x205F ||
    n == 0x3000

/-- Text without the blanks at its end. -/
def trimEnd (text : List Char) : List Char := (text.reverse.dropWhile isBlank).reverse

/-- Put a character in front of the first line. -/
def consFirst (c : Char) : List (List Char) → List (List Char)
  | [] => [[c]]
  | line :: lines => (c :: line) :: lines

/-- The lines of a text, without the line feeds that end them. -/
def lines : List Char → List (List Char)
  | [] => []
  | c :: rest => if c = '\n' then [] :: lines rest else consFirst c (lines rest)

/-- The characters that end a line of source text: line feed, vertical tab, form feed, carriage
return, next line, line separator and paragraph separator. -/
def lineEnds : List Nat := [0x0A, 0x0B, 0x0C, 0x0D, 0x85, 0x2028, 0x2029]

/-- Whether a character ends a line of source text. A carriage return does not if a line feed
follows. -/
def endsLine (c : Char) (rest : List Char) : Bool :=
  lineEnds.contains c.toNat && !(c == '\r' && rest.head? == some '\n')

/-- The lines of a source text, each with the characters that end it. -/
def sourceLines : List Char → List (List Char)
  | [] => []
  | c :: rest =>
      if endsLine c rest then [c] :: sourceLines rest else consFirst c (sourceLines rest)

/-- The number of characters that lie within a number of bytes. -/
def charsWithin : List Char → Nat → Nat
  | [], _ => 0
  | c :: rest, bytes =>
      if bytes < c.utf8Size then 0 else 1 + charsWithin rest (bytes - c.utf8Size)

/-- Length of a text in bytes. -/
def byteLength (text : List Char) : Nat := text.foldl (fun length char => length + char.utf8Size) 0

end ExprCode.Text
