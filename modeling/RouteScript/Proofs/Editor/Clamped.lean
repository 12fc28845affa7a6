import RouteScript.Proofs.Editor.Edits
/-!
# Positions past the end of a row

A position past the last row stands in the last row, and one past the end of its row stays in that
row, as long as a line feed closes the row. Behind the width of a row that another break closes lies
that break, so such a position stands at the start of the next row.
-/
namespace RouteScript

namespace Text

theorem countWithin_units_of_le {n : Nat} {row : List Char} (wide : units row ≤ n) :
    countWithin unitsOf n row = row.length := by
  induction row generalizing n with
  | nil => rfl
  | cons c row ih =>
    rw [units] at wide
    rw [countWithin, if_pos (by omega), ih (by omega), List.length_cons, Nat.add_comm]

theorem countWithin_units_lt {n : Nat} {row : List Char} (narrow : n < units row) :
    countWithin unitsOf n row < row.length := by
  induction row generalizing n with
  | nil => simp [units] at narrow
  | cons c row ih =>
    rw [countWithin, List.length_cons]
    split
    · rename_i fits
      rw [units] at narrow
      have := ih (n := n - unitsOf c) (by omega)
      omega
    · exact Nat.succ_pos _

/-- A line feed at the end of a row is no part of its width. -/
theorem lineWidth_lt {row : List Char} (feed : row.getLast? = some '\n') :
    lineWidth row < units row := by
  obtain ⟨front, rfl⟩ := List.getLast?_eq_some_iff.1 feed
  have pos : 0 < units (front ++ ['\n']) := by
    have last := unitsOf_pos '\n'
    rw [units_append, units]
    omega
  rw [lineWidth]
  split
  · omega
  · omega
  · rename_i other
    exact (other front.reverse (by simp)).elim

/-- Any other break is. -/
theorem lineWidth_eq {row : List Char} (other : row.getLast? ≠ some '\n') :
    lineWidth row = units row := by
  rw [← List.head?_reverse] at other
  unfold lineWidth
  split <;> simp_all

/-- Every row but the last ends with its break. -/
theorem isBreak_getLast? (text : List Char) :
    ∀ row ∈ (editorLines text).dropLast, row.getLast?.any isBreak := by
  induction text using rows_induction with
  | nil => simp [editorLines_nil]
  | pair rest ih =>
    rw [editorLines_pair, List.dropLast_cons_of_ne_nil (editorLines_ne_nil rest),
      List.forall_mem_cons]
    exact ⟨by decide, ih⟩
  | closing c rest closes whole ih =>
    rw [editorLines_break closes whole, List.dropLast_cons_of_ne_nil (editorLines_ne_nil rest),
      List.forall_mem_cons]
    exact ⟨by simpa using closes, ih⟩
  | plain c rest plain ih =>
    obtain ⟨row, rows, lines⟩ := List.exists_cons_of_ne_nil (editorLines_ne_nil rest)
    rw [editorLines_plain plain lines]
    rw [lines] at ih
    cases rows with
    | nil => simp
    | cons next rows =>
      have here := List.forall_mem_cons.1 ih
      obtain ⟨d, row, rfl⟩ := List.exists_cons_of_ne_nil (ne_nil_of_editorLines lines (by simp))
      exact List.forall_mem_cons.2 ⟨by simpa using here.1, here.2⟩

section Split

variable {text row next : List Char} {front back : List (List Char)}

theorem mem_dropLast_editorLines (lines : editorLines text = front ++ row :: next :: back) :
    row ∈ (editorLines text).dropLast := by
  rw [lines, List.dropLast_append_of_ne_nil (by simp)]
  simp

theorem ne_nil_of_mem_dropLast (h : row ∈ (editorLines text).dropLast) : row ≠ [] := by
  rintro rfl
  exact absurd (isBreak_getLast? text [] h) (by simp)

/-- An index inside a row, or behind the last one, is in that row. -/
theorem row_rowOfIndex {k : Nat} (inside : k ≤ row.length) (stays : back ≠ [] → k < row.length) :
    (rowOfIndex (front ++ row :: back) (front.flatten.length + k)).1 = front.length := by
  have rest : back ≠ [] → row.drop k ≠ [] := fun more => by
    have := stays more
    rw [Ne, List.drop_eq_nil_iff]
    omega
  have here : rowOfIndex (front ++ (row.take k ++ row.drop k) :: back)
      (front.flatten.length + (row.take k).length) = (front.length, (row.take k).length) :=
    rowOfIndex_closed rest
  rw [List.take_append_drop, List.length_take, Nat.min_eq_left inside] at here
  rw [here]

/-- The index behind a row is in the next one. -/
theorem row_rowOfIndex_behind (lines : editorLines text = front ++ row :: next :: back) :
    (rowOfIndex (front ++ row :: next :: back) (front.flatten.length + row.length)).1
      = front.length + 1 := by
  have later : editorLines text = (front ++ [row]) ++ next :: back := by simpa using lines
  have rest : back ≠ [] → next ≠ [] := by
    intro more
    obtain ⟨third, back, rfl⟩ := List.exists_cons_of_ne_nil more
    exact ne_nil_of_mem_dropLast (mem_dropLast_editorLines later)
  have here : rowOfIndex ((front ++ [row]) ++ ([] ++ next) :: back)
      ((front ++ [row]).flatten.length + ([] : List Char).length) = ((front ++ [row]).length, 0) :=
    rowOfIndex_closed rest
  simp only [List.flatten_append, List.flatten_singleton, List.length_append, List.length_singleton,
    List.length_nil, List.nil_append, List.append_assoc, List.singleton_append, Nat.add_zero] at here
  rw [here]

end Split

end Text

namespace Position

open Text

/-- The position is past the whole of a row that a break other than a line feed closes. -/
def overruns (text : List Char) (p : Position) : Bool :=
  (editorLines text)[p.line]?.any fun row =>
    (row.getLast?.any fun c => isBreak c && c ≠ '\n') && units row ≤ p.character

theorem toPoint_row_eq (text : List Char) (p : Position) :
    (p.toPoint text).row = (rowOfIndex (editorLines text) (p.toIndex text)).1 := rfl

theorem toPoint_row_past {text : List Char} {p : Position}
    (past : (editorLines text).length ≤ p.line) :
    (p.toPoint text).row = (editorLines text).length - 1 := by
  obtain ⟨closed, last, rows⟩ := exists_rows text
  have index : p.toIndex text = closed.flatten.length + last.length := by
    simp only [toIndex, List.getElem?_eq_none past]
    rw [rows.text, List.length_append]
  rw [toPoint_row_eq, index, rows.lines, row_rowOfIndex (Nat.le_refl _) (by simp)]
  simp

section Rows

variable {text row next : List Char} {front back : List (List Char)} {p : Position}
  (line : front.length = p.line)
include line

theorem toIndex_of_row (lines : editorLines text = front ++ row :: back) :
    p.toIndex text = front.flatten.length
      + countWithin unitsOf (min p.character (lineWidth row)) row := by
  have there : (editorLines text)[p.line]? = some row := by simp [lines, ← line]
  simp only [toIndex, there]
  rw [charsBefore, lines, ← line, List.take_left]

theorem overruns_iff (lines : editorLines text = front ++ row :: back) : p.overruns text ↔
    (∃ c, row.getLast? = some c ∧ isBreak c ∧ c ≠ '\n') ∧ units row ≤ p.character := by
  simp [overruns, lines, ← line, Option.any_eq_true]

theorem toPoint_row_last (lines : editorLines text = front ++ [row]) :
    (p.toPoint text).row = p.line ∧ p.overruns text = false := by
  constructor
  · rw [toPoint_row_eq, toIndex_of_row line lines, lines, ← line]
    exact row_rowOfIndex (countWithin_le _ _ _) (by simp)
  · obtain ⟨closed, last, rows⟩ := exists_rows text
    obtain ⟨-, rfl⟩ : front = closed ∧ row = last := by simpa using lines.symm.trans rows.lines
    rw [← Bool.not_eq_true, overruns_iff line lines]
    rintro ⟨⟨c, ends, closes, -⟩, -⟩
    exact rows.unbroken c (List.mem_of_getLast? ends) closes

theorem toPoint_row_closed (lines : editorLines text = front ++ row :: next :: back) :
    (p.toPoint text).row = if p.overruns text then p.line + 1 else p.line := by
  rw [toPoint_row_eq, toIndex_of_row line lines, lines]
  by_cases behind : units row ≤ min p.character (lineWidth row)
  · -- the whole row fits, so that no line feed closes it
    have other : row.getLast? ≠ some '\n' := fun feed => by
      have := lineWidth_lt feed
      omega
    have ends := isBreak_getLast? text row (mem_dropLast_editorLines lines)
    obtain ⟨c, last, closes⟩ := (Option.any_eq_true _ _).1 ends
    have beyond : p.overruns text :=
      (overruns_iff line lines).2 ⟨⟨c, last, closes, fun feed => other (feed ▸ last)⟩, by omega⟩
    rw [if_pos beyond, countWithin_units_of_le behind, row_rowOfIndex_behind lines, line]
  · have stays : p.overruns text = false := by
      rw [← Bool.not_eq_true, overruns_iff line lines]
      rintro ⟨⟨c, ends, -, noFeed⟩, wide⟩
      have other : row.getLast? ≠ some '\n' := by simpa [ends] using noFeed
      have width := lineWidth_eq other
      omega
    have inside := countWithin_units_lt (Nat.lt_of_not_le behind)
    rw [stays, row_rowOfIndex (Nat.le_of_lt inside) fun _ => inside, line]
    rfl

end Rows

/-- A position stays in its row, or in the last one, unless it is past a break that is no line feed:
then it stands in the next row. -/
theorem toPoint_row (text : List Char) (p : Position) : (p.toPoint text).row
    = if p.overruns text then p.line + 1 else min p.line ((editorLines text).length - 1) := by
  by_cases past : (editorLines text).length ≤ p.line
  · have stays : p.overruns text = false := by simp [overruns, List.getElem?_eq_none past]
    rw [stays, toPoint_row_past past, Nat.min_eq_right (by omega)]
    rfl
  · have inside := Nat.lt_of_not_le past
    have line : ((editorLines text).take p.line).length = p.line := by
      rw [List.length_take, Nat.min_eq_left (Nat.le_of_lt inside)]
    have lines := (List.take_append_drop p.line (editorLines text)).symm
    rw [List.drop_eq_getElem_cons inside] at lines
    rw [Nat.min_eq_left (by omega)]
    cases behind : (editorLines text).drop (p.line + 1) with
    | nil =>
      rw [behind] at lines
      obtain ⟨row, stays⟩ := toPoint_row_last line lines
      rw [row, stays]
      rfl
    | cons next back =>
      rw [behind] at lines
      exact toPoint_row_closed line lines

/-- A vertical tab closes the first row, and a position past that row stands in the second. -/
theorem toPoint_row_verticalTab :
    0 < (editorLines "drop;\x0bexit;".toList).length ∧
      (toPoint "drop;\x0bexit;".toList ⟨0, 99⟩).row ≠ 0 := by
  decide

end Position

end RouteScript
