import RouteScript.Text.Line
/-!
# Positions in an editor

An editor counts lines that end at any of eight breaks, and columns in UTF-16 code units. A position
past the end of its line stands for the end of that line, where only a line feed, with a carriage
return before it or not, is kept off; one past the last line stands for the end of the text.
-/
namespace RouteScript

structure Position where
  line : Nat
  /-- Column in UTF-16 code units. -/
  character : Nat
  deriving DecidableEq, Repr, Inhabited

namespace Text

/-- Characters that end a line by themselves. -/
def isBreak (c : Char) : Bool :=
  c = '\n' || c = '\x0b' || c = '\x0c' || c = '\r' || c = '\u0085' || c = '\u2028' || c = '\u2029'

/-- The lines of a text, each with its break; there is one more line than there are breaks. -/
def editorLines : List Char → List (List Char)
  | [] => [[]]
  | '\r' :: '\n' :: rest => ['\r', '\n'] :: editorLines rest
  | c :: rest =>
    if isBreak c then [c] :: editorLines rest
    else
      match editorLines rest with
      | [] => [[c]]
      | line :: others => (c :: line) :: others

/-- UTF-16 code units of a character. -/
def unitsOf (c : Char) : Nat := if c.toNat < 0x10000 then 1 else 2

def units : List Char → Nat
  | [] => 0
  | c :: rest => unitsOf c + units rest

/-- The number of characters that end within `n` of a measure. -/
def countWithin (measure : Char → Nat) : Nat → List Char → Nat
  | _, [] => 0
  | n, c :: rest =>
    if measure c ≤ n then 1 + countWithin measure (n - measure c) rest else 0

/-- Code units of a line that a position can stand behind. -/
def lineWidth (line : List Char) : Nat :=
  match line.reverse with
  | '\n' :: '\r' :: _ => units line - 2
  | '\n' :: _ => units line - 1
  | _ => units line

/-- The row of a character index, and the index in that row. -/
def rowOfIndex : List (List Char) → Nat → Nat × Nat
  | [], n => (0, n)
  | [_], n => (0, n)
  | line :: next :: rest, n =>
    if n < line.length then (0, n)
    else
      let (row, column) := rowOfIndex (next :: rest) (n - line.length)
      (row + 1, column)

/-- Characters before a line. -/
def charsBefore (lines : List (List Char)) (row : Nat) : Nat :=
  (lines.take row).flatten.length

end Text

namespace Position

open Text

/-- The character index at which a position stands. -/
def toIndex (text : List Char) (p : Position) : Nat :=
  let lines := editorLines text
  match lines[p.line]? with
  | none => text.length
  | some line =>
    charsBefore lines p.line + countWithin unitsOf (min p.character (lineWidth line)) line

/-- The row and byte column of a position, with the rows of the editor. -/
def toPoint (text : List Char) (p : Position) : Point :=
  let lines := editorLines text
  let (row, column) := rowOfIndex lines (p.toIndex text)
  ⟨row, size ((lines[row]?.getD []).take column)⟩

/-- The position at the end of a text. -/
def last (text : List Char) : Position :=
  let lines := editorLines text
  ⟨lines.length - 1, units (lines.getLast?.getD [])⟩

/-- The position of a row and byte column, where the rows are those of the editor. -/
def ofPoint (text : List Char) (p : Point) : Position :=
  let lines := editorLines text
  if lines.length ≤ p.row then last text
  else
    let rest := text.drop (charsBefore lines p.row)
    ⟨p.row, units (rest.take (countWithin Char.utf8Size p.column rest))⟩

end Position

/-- A stretch of text between two positions. -/
structure Position.Span where
  start : Position
  stop : Position
  deriving DecidableEq, Repr, Inhabited

/-- The positions of a range. -/
def Range.toSpan (text : List Char) (r : Range) : Position.Span :=
  ⟨.ofPoint text r.startPoint, .ofPoint text r.stopPoint⟩

/-- From the start to the end of a text. -/
def Text.wholeSpan (text : List Char) : Position.Span := ⟨⟨0, 0⟩, .last text⟩

end RouteScript
