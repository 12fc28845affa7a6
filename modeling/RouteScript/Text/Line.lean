import RouteScript.Text.Bytes
/-!
# Rows and columns

Rows end at line feeds only. A point is a row and the byte column in that row, both from zero.
-/
namespace RouteScript

structure Point where
  row : Nat
  column : Nat
  deriving DecidableEq, Repr, Inhabited

namespace Point

/-- Points in reading order. -/
def le (p q : Point) : Bool := p.row < q.row || (p.row = q.row && p.column ≤ q.column)

def lt (p q : Point) : Bool := p.row < q.row || (p.row = q.row && p.column < q.column)

protected def toString (p : Point) : String :=
  "(" ++ toString p.row ++ ", " ++ toString p.column ++ ")"

end Point

namespace Text

/-- Offsets at which a row starts, behind every line feed of a text that starts at `offset`. -/
def rowStartsFrom (offset : Nat) : List Char → List Nat
  | [] => []
  | c :: rest =>
    if c = '\n' then (offset + 1) :: rowStartsFrom (offset + 1) rest
    else rowStartsFrom (offset + c.utf8Size) rest

/-- Offsets of all rows of a text. -/
def rowStarts (text : List Char) : List Nat := 0 :: rowStartsFrom 0 text

end Text

/-- The point of a byte offset, given where the rows start; past the end it is in the last row. -/
def Point.ofOffset (starts : List Nat) (offset : Nat) : Point :=
  let before := starts.takeWhile (· ≤ offset)
  ⟨before.length - 1, offset - before.getLast?.getD 0⟩

/-- A stretch of text, in bytes and in points. -/
structure Range where
  start : Nat
  stop : Nat
  startPoint : Point
  stopPoint : Point
  deriving DecidableEq, Repr, Inhabited

/-- From the start of one range to the end of another. -/
def Range.through (first last : Range) : Range :=
  ⟨first.start, last.stop, first.startPoint, last.stopPoint⟩

def Range.covers (outer inner : Range) : Bool :=
  outer.start ≤ inner.start && inner.stop ≤ outer.stop

end RouteScript
