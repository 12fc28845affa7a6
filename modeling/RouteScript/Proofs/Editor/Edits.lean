import RouteScript.Proofs.Editor.Rows
/-!
# Edits by positions

A position taken from an index leads back to that index, whatever breaks and surrogate pairs the
text holds, unless the index stands within a break. So an edit between two positions replaces what
stands between their indexes and nothing else.
-/
namespace RouteScript

open Text

/-- The row and byte column of a character index, with the rows of the editor. -/
def Point.ofIndex (text : List Char) (i : Nat) : Point :=
  let lines := editorLines text
  let (row, column) := rowOfIndex lines i
  ⟨row, size ((lines[row]?.getD []).take column)⟩

/-- The position of a character index. -/
def Position.ofIndex (text : List Char) (i : Nat) : Position := .ofPoint text (.ofIndex text i)

theorem Text.units_le_lineWidth {s : List Char} (unbroken : ∀ c ∈ s, ¬ isBreak c)
    (t : List Char) : units s ≤ lineWidth (s ++ t) := by
  -- the characters of the break belong to `t`
  have within (front brk : List Char) (breaks : ∀ c ∈ brk, isBreak c)
      (eq : s ++ t = front ++ brk) : units s ≤ units (s ++ t) - units brk := by
    rw [eq, units_append, Nat.add_sub_cancel_right]
    rcases List.append_eq_append_iff.1 eq with ⟨inner, rfl, -⟩ | ⟨inner, rfl, rfl⟩
    · simp
    · cases inner with
      | nil => simp
      | cons c inner => exact absurd (breaks c (by simp)) (unbroken c (by simp))
  unfold lineWidth
  split
  · rename_i front eq
    exact within front.reverse ['\r', '\n'] (by simp [isBreak])
      (by simpa using congrArg List.reverse eq)
  · rename_i front _ eq
    exact within front.reverse ['\n'] (by simp [isBreak])
      (by simpa using congrArg List.reverse eq)
  · simp

section Split

variable {before behind last first : List Char} {closed more : List (List Char)}

theorem Text.charsBefore_closed (rows : List (List Char)) :
    charsBefore (closed ++ rows) closed.length = closed.flatten.length := by
  rw [charsBefore, List.take_left]

theorem Text.rowOfIndex_closed (h : more ≠ [] → first ≠ []) :
    rowOfIndex (closed ++ (last ++ first) :: more) (closed.flatten.length + last.length)
      = (closed.length, last.length) := by
  induction closed with
  | nil =>
    cases more with
    | nil => simp [rowOfIndex]
    | cons row more =>
      have := List.length_pos_iff.2 (h (by simp))
      simp [rowOfIndex, this]
  | cons row closed ih =>
    have step (n : Nat) : rowOfIndex (row :: (closed ++ (last ++ first) :: more)) (row.length + n)
        = ((rowOfIndex (closed ++ (last ++ first) :: more) n).1 + 1,
          (rowOfIndex (closed ++ (last ++ first) :: more) n).2) := by
      cases rest : closed ++ (last ++ first) :: more with
      | nil => simp at rest
      | cons next rest => simp [rowOfIndex]
    rw [List.flatten_cons, List.length_append, Nat.add_assoc, List.cons_append, step, ih,
      List.length_cons]

/-- Two parts of a text whose rows are known: the closed rows of the first part, a row of which each
part has a piece, and the rows behind it. -/
structure Text.Halves (before behind : List Char) (closed : List (List Char))
    (last first : List Char) (more : List (List Char)) : Prop where
  rows : Rows before closed last
  lines : editorLines (before ++ behind) = closed ++ (last ++ first) :: more
  behind : behind = first ++ more.flatten
  nonempty : more ≠ [] → first ≠ []

theorem Text.Rows.halves (rows : Rows before closed last) (lines : editorLines behind = first :: more)
    (whole : before.getLast? = some '\r' → behind.head? ≠ some '\n') :
    Halves before behind closed last first more := by
  refine ⟨rows, editorLines_append rows.lines lines whole, ?_, ne_nil_of_editorLines lines⟩
  rw [← List.flatten_cons, ← lines, flatten_editorLines]

theorem Text.exists_halves (whole : before.getLast? = some '\r' → behind.head? ≠ some '\n') :
    ∃ closed last first more, Halves before behind closed last first more := by
  obtain ⟨closed, last, rows⟩ := exists_rows before
  obtain ⟨first, more, lines⟩ := List.exists_cons_of_ne_nil (editorLines_ne_nil behind)
  exact ⟨closed, last, first, more, rows.halves lines whole⟩

namespace Text.Halves

variable (h : Halves before behind closed last first more)
include h

theorem index_eq : before.length = closed.flatten.length + last.length := by
  rw [h.rows.text, List.length_append]

theorem point_eq : Point.ofIndex (before ++ behind) before.length = ⟨closed.length, size last⟩ := by
  have row : (closed ++ (last ++ first) :: more)[closed.length]? = some (last ++ first) := by simp
  simp only [Point.ofIndex, h.lines, h.index_eq, rowOfIndex_closed h.nonempty, row,
    Option.getD_some, List.take_left]

/-- The position of a point in the last row of the first part, or further on. -/
theorem position_eq {s t : List Char} (eq : last ++ behind = s ++ t) :
    Position.ofPoint (before ++ behind) ⟨closed.length, size s⟩ = ⟨closed.length, units s⟩ := by
  have rest : (before ++ behind).drop closed.flatten.length = s ++ t := by
    rw [h.rows.text, List.append_assoc, List.drop_left, eq]
  have inside : ¬ (closed ++ (last ++ first) :: more).length ≤ closed.length := by simp
  simp only [Position.ofPoint, h.lines, if_neg inside, charsBefore_closed, rest,
    countWithin_size, List.take_left]

/-- The index of a position in the last row of the first part, or further on in that row. -/
theorem toIndex_eq {s t : List Char} (eq : last ++ first = s ++ t)
    (fits : units s ≤ lineWidth (last ++ first)) :
    Position.toIndex (before ++ behind) ⟨closed.length, units s⟩
      = closed.flatten.length + s.length := by
  have row : (closed ++ (last ++ first) :: more)[closed.length]? = some (last ++ first) := by simp
  simp only [Position.toIndex, h.lines, row, charsBefore_closed, Nat.min_eq_left fits]
  rw [eq, countWithin_units]

theorem toIndex_ofPoint :
    Position.toIndex (before ++ behind)
      (.ofPoint (before ++ behind) ⟨closed.length, size last⟩) = before.length := by
  rw [h.position_eq rfl, h.toIndex_eq rfl (units_le_lineWidth h.rows.unbroken first), h.index_eq]

end Text.Halves

end Split

/-- The index of the position of an index is that index, unless it parts a break. -/
theorem Position.toIndex_ofIndex {text : List Char} {i : Nat} (inside : i ≤ text.length)
    (whole : partsBreak text i = false) : (ofIndex text i).toIndex text = i := by
  have apart : (text.take i).getLast? = some '\r' → (text.drop i).head? ≠ some '\n' := by
    simpa [partsBreak] using whole
  obtain ⟨closed, last, first, more, halves⟩ := exists_halves apart
  have point := halves.point_eq
  have back := halves.toIndex_ofPoint
  rw [List.take_append_drop, List.length_take, Nat.min_eq_left inside] at point back
  rw [ofIndex, point, back]

theorem Position.toIndex_last (text : List Char) : (last text).toIndex text = text.length := by
  obtain ⟨closed, row, rows⟩ := exists_rows text
  have halves : Halves text [] closed row [] [] := ⟨rows, by simpa using rows.lines, rfl, by simp⟩
  have position : last text = ⟨closed.length, units row⟩ := by simp [last, rows.lines]
  have index := halves.toIndex_eq rfl (units_le_lineWidth rows.unbroken [])
  rw [List.append_nil] at index
  rw [position, index, halves.index_eq]

theorem Position.toIndex_zero (text : List Char) : toIndex text ⟨0, 0⟩ = 0 := by
  obtain ⟨row, rows, lines⟩ := List.exists_cons_of_ne_nil (editorLines_ne_nil text)
  simp [toIndex, lines, charsBefore, countWithin_zero unitsOf_pos]

namespace Edit

/-- An edit between the positions of two indexes replaces the characters between them. -/
theorem applyAll_between {text : List Char} {i j : Nat} (order : i ≤ j) (inside : j ≤ text.length)
    (whole : partsBreak text i = false) (whole' : partsBreak text j = false) (new : List Char) :
    applyAll text [⟨some ⟨.ofIndex text i, .ofIndex text j⟩, new⟩]
        = text.take i ++ new ++ text.drop j
      ∧ (Position.ofIndex text i).toIndex text = i ∧ (Position.ofIndex text j).toIndex text = j
      ∧ applyAll text [⟨some (wholeSpan text), new⟩] = new := by
  have start := Position.toIndex_ofIndex (Nat.le_trans order inside) whole
  have stop := Position.toIndex_ofIndex inside whole'
  refine ⟨?_, start, stop, ?_⟩
  · simp only [applyAll, List.foldl_cons, List.foldl_nil, apply, start, stop,
      Nat.max_eq_right order]
  · simp [applyAll, apply, wholeSpan, Position.toIndex_zero, Position.toIndex_last]

/-- From behind a surrogate pair to the start of a row behind two kinds of breaks. -/
theorem applyAll_between_rows :
    (2 ≤ 6 ∧ 6 ≤ "a😀\r\né\u2028b".toList.length)
      ∧ (partsBreak "a😀\r\né\u2028b".toList 2 = false ∧ partsBreak "a😀\r\né\u2028b".toList 6 = false)
      ∧ applyAll "a😀\r\né\u2028b".toList
          [⟨some ⟨.ofIndex "a😀\r\né\u2028b".toList 2, .ofIndex "a😀\r\né\u2028b".toList 6⟩,
            "xy".toList⟩] = "a😀xyb".toList := by
  have order : 2 ≤ 6 ∧ 6 ≤ "a😀\r\né\u2028b".toList.length := by decide
  have whole : partsBreak "a😀\r\né\u2028b".toList 2 = false
      ∧ partsBreak "a😀\r\né\u2028b".toList 6 = false := by decide
  exact ⟨order, whole, (applyAll_between order.1 order.2 whole.1 whole.2 _).1⟩

end Edit

end RouteScript
