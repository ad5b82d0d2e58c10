import ExprCode.Evaluation
import ExprCode.Text.Lines

/-! # Reports

Failures as text for users. A rejection with a place is drawn under the line of source text in which
it lies, with the place underlined and an arrow to the message; all else is a line of text. -/

namespace ExprCode

/-- The characters that a drawing is made of. -/
structure Strokes where
  /-- Upper corner of the frame. -/
  corner : Char
  /-- Upright line. -/
  bar : Char
  /-- Under the place. -/
  underline : Char
  /-- Under the middle of the place, where the arrow starts. -/
  tee : Char
  /-- Where the arrow turns. -/
  elbow : Char
  /-- Level line. -/
  dash : Char
  /-- Lower corner of the frame. -/
  foot : Char

/-- Box-drawing characters. -/
def Strokes.box : Strokes := ⟨'╭', '│', '─', '┬', '╰', '─', '╯'⟩

/-- Characters that every terminal has. -/
def Strokes.ascii : Strokes := ⟨',', '|', '^', '|', '\x60', '-', '\x27'⟩

/-- What a piece of a drawing is, which decides on its colour. -/
inductive Ink where
  /-- Code and kind of the failure. -/
  | heading
  /-- Frame of the drawing. -/
  | frame
  /-- Frame beside the rows under the source line. -/
  | margin
  /-- Source text outside the place. -/
  | unmarked
  /-- Source text at the place, and what is drawn under it. -/
  | marked
  deriving DecidableEq

/-- The terminal's number of a colour. -/
def Ink.colour : Ink → String
  | heading => "31"
  | frame => "38;5;246"
  | margin => "38;5;240"
  | unmarked => "38;5;249"
  | marked => "38;5;155"

/-- How reports look. -/
structure ReportStyle where
  /-- The characters of the drawing. -/
  strokes : Strokes := .box
  /-- Whether colours are used. -/
  coloured : Bool := true
  /-- Name of the source text. -/
  filename : Option String := none

namespace ReportStyle

/-- Put text into its colour. -/
def paint (style : ReportStyle) (ink : Ink) (text : String) : String :=
  if style.coloured then "\x1b[" ++ ink.colour ++ "m" ++ text ++ "\x1b[0m" else text

/-- Put every single character into a colour. -/
def paintEach (style : ReportStyle) (ink : Ink) (text : List Char) : String :=
  String.join (text.map fun c => style.paint ink c.toString)

end ReportStyle

/-- The line of source text that a report shows. -/
structure Excerpt where
  /-- Number of the line, from zero. -/
  line : Nat
  /-- The characters of the line, with those that end it. -/
  text : List Char
  /-- Column of the first character of the place, from zero. -/
  column : Nat
  /-- Number of characters of the place. -/
  width : Nat

namespace Excerpt

/-- The line in which a byte offset lies, with its number and the offset within the line. What lies
right behind the text belongs to its last line. -/
def locate (number : Nat) : List (List Char) → Nat → Option (Nat × List Char × Nat)
  | [], offset => if offset = 0 then some (number, [], 0) else none
  | line :: rest, offset =>
      let length := Text.byteLength line
      if offset < length || (rest.isEmpty && offset == length) then some (number, line, offset)
      else if rest.isEmpty then none
      else locate (number + 1) rest (offset - length)

/-- The excerpt of a source text for a place, unless the place starts behind the text. -/
def ofSpan? (source : String) (span : Span) : Option Excerpt :=
  (locate 0 (Text.sourceLines source.toList) span.start).map fun (line, text, offset) =>
    let column := Text.charsWithin text offset
    let stop := Text.charsWithin text (offset + (span.stop - span.start))
    ⟨line, text, column, stop - column⟩

/-- Column of the middle of the place. -/
def middle (excerpt : Excerpt) : Nat := excerpt.column + excerpt.width / 2

/-- The number of the line as shown. -/
def lineText (excerpt : Excerpt) : String := toString (excerpt.line + 1)

/-- Width of the margin to the left of the frame. -/
def marginWidth (excerpt : Excerpt) : Nat := excerpt.lineText.length + 2

end Excerpt

namespace Report

/-- A number of blanks. -/
def blanks (count : Nat) : String := String.ofList (List.replicate count ' ')

variable (style : ReportStyle) (excerpt : Excerpt)

/-- The row that names the place. -/
def locationRow : String :=
  let strokes := style.strokes
  let place := (style.filename.getD "<unknown>") ++ ":" ++ excerpt.lineText ++ ":" ++
    toString (excerpt.column + 1)
  blanks excerpt.marginWidth ++ style.paintEach .frame [strokes.corner, strokes.dash, '['] ++ " " ++
    place ++ " " ++ style.paint .frame "]"

/-- The empty row over the source line. -/
def emptyRow : String :=
  blanks excerpt.marginWidth ++ style.paint .frame style.strokes.bar.toString

/-- The row with the source line, without the blanks at its end. -/
def sourceRow : String :=
  let text := Text.trimEnd excerpt.text
  let before := text.take excerpt.column
  let place := (text.drop excerpt.column).take excerpt.width
  let after := text.drop (excerpt.column + excerpt.width)
  " " ++ style.paint .frame (excerpt.lineText ++ " " ++ style.strokes.bar.toString) ++ " " ++
    style.paintEach .unmarked before ++ style.paintEach .marked place ++
    style.paintEach .unmarked after

/-- A row under the source line: strokes from a column on. -/
def markRow (column : Nat) (strokes : List Char) : String :=
  " " ++ style.paint .margin (blanks (excerpt.marginWidth - 1) ++ style.strokes.bar.toString) ++
    " " ++
    blanks column ++ style.paintEach .marked strokes

/-- The row with the underline; a place without characters has an upright line. -/
def underlineRow : String :=
  let strokes := style.strokes
  let line :=
    if excerpt.width = 0 then [strokes.bar]
    else
      List.replicate (excerpt.width / 2) strokes.underline ++ strokes.tee ::
        List.replicate (excerpt.width - excerpt.width / 2 - 1) strokes.underline
  markRow style excerpt excerpt.column line

/-- The row with the arrow to the message, which reaches two columns behind the place. -/
def arrowRow (message : String) : String :=
  let strokes := style.strokes
  let reach := excerpt.width - excerpt.width / 2 + 1
  markRow style excerpt excerpt.middle (strokes.elbow :: List.replicate reach strokes.dash) ++
    " " ++
    message

/-- The row that ends the frame. -/
def lastRow : String :=
  let strokes := style.strokes
  style.paint .frame
    (String.ofList (List.replicate excerpt.marginWidth strokes.dash ++ [strokes.foot]))

/-- The rows of a drawing under its heading. -/
def drawing (message : String) : List String :=
  [locationRow style excerpt, emptyRow style excerpt, sourceRow style excerpt,
    underlineRow style excerpt, arrowRow style excerpt message, lastRow style excerpt]

/-- The beginning of the report of a rejection. -/
def heading (key : MessageKey) : String := "[" ++ key.code ++ "] Error:"

/-- The rows of the report of a rejection. -/
def rejectionRows (source : String) (rejection : Rejection) : List String :=
  let message := rejection.message
  match rejection.span with
  | none => [heading rejection.key ++ " " ++ message]
  | some span =>
      (style.paint .heading (heading rejection.key) ++ " " ++ message) ::
        match Excerpt.ofSpan? source span with
        | some excerpt => drawing style excerpt message
        | none => []

/-- The rows of the report of a failure. -/
def rows (source : String) : Failure → List String
  | .compilation (.rejected rejection) => rejectionRows style source rejection
  | .compilation error => [error.message]
  | .execution error => ["Runtime error: " ++ error.message]

/-- The lines of the report of a failure, without blanks at their ends. A row is several lines if
its message is. -/
def lines (source : String) (failure : Failure) : List String :=
  (rows style source failure).flatMap fun row =>
    (Text.lines (row.toList ++ ['\n'])).map fun line => String.ofList (Text.trimEnd line)

end Report

end ExprCode
