import RouteScript.Proofs.Editor.Edits
import RouteScript.Proofs.Nesting.Spans
/-!
# Nodes in an editor

The rows of a tree end at line feeds, the rows of an editor at eight breaks. The position that an
editor is given for an end of a node leads back to that end as long as all breaks before it close
rows of the tree too; a break that does not may stand right before the end, where it still lies in
the row that it closes.
-/
namespace RouteScript

namespace Text

/-- Whether a break stands at an index that closes no row of a tree: one that is neither a line feed
nor the carriage return before one. -/
def isOddBreak (text : List Char) (k : Nat) : Bool :=
  match text.drop k with
  | [] => false
  | c :: rest => isBreak c && c ≠ '\n' && !(c = '\r' && rest.head? = some '\n')

theorem isOddBreak_append (s t : List Char) (k : Nat) :
    isOddBreak (s ++ t) (s.length + k) = isOddBreak t k := by
  rw [isOddBreak, isOddBreak, List.drop_length_add_append]

theorem isOddBreak_lt {text : List Char} {k : Nat} (odd : isOddBreak text k) : k < text.length := by
  by_contra past
  rw [isOddBreak, List.drop_of_length_le (Nat.le_of_not_lt past)] at odd
  exact Bool.false_ne_true odd

/-- What stands behind a part of a text that parts no break does not matter for its odd breaks. -/
theorem isOddBreak_append_left {s t : List Char} {k : Nat} (inside : k < s.length)
    (whole : s.getLast? = some '\r' → t.head? ≠ some '\n') :
    isOddBreak (s ++ t) k = isOddBreak s k := by
  obtain ⟨c, rest, split⟩ := List.exists_cons_of_ne_nil (mt List.drop_eq_nil_iff.1 (Nat.not_le.2 inside))
  have last : s.getLast? = (c :: rest).getLast? := by
    rw [← split, List.getLast?_drop, if_neg (Nat.not_le.2 inside)]
  rw [isOddBreak, isOddBreak, List.drop_append_of_le_length (Nat.le_of_lt inside), split]
  cases rest with
  | nil =>
    have feed : c = '\r' → t.head? ≠ some '\n' := fun carriage => whole (by rw [last, carriage]; rfl)
    by_cases carriage : c = '\r'
    · simp [carriage, feed carriage]
    · simp [carriage]
  | cons d rest => rfl

theorem forall_isOddBreak_cons {c : Char} {rest : List Char} :
    (∀ k, isOddBreak (c :: rest) k = false) ↔
      isOddBreak (c :: rest) 0 = false ∧ ∀ k, isOddBreak rest k = false := by
  constructor
  · exact fun h => ⟨h 0, fun k => h (k + 1)⟩
  · rintro ⟨here, later⟩ k
    cases k with
    | zero => exact here
    | succ k => exact later k

/-- An editor has a row for every line feed, and more where there are odd breaks. -/
theorem length_editorLines (text : List Char) : ∃ n,
    (editorLines text).length = text.count '\n' + n + 1 ∧
      (n = 0 ↔ ∀ k, isOddBreak text k = false) := by
  induction text using rows_induction with
  | nil => exact ⟨0, rfl, by simp [isOddBreak]⟩
  | pair rest ih =>
    obtain ⟨n, length, none⟩ := ih
    refine ⟨n, ?_, ?_⟩
    · rw [editorLines_pair, List.length_cons, length]
      simp
      omega
    · rw [none, forall_isOddBreak_cons, forall_isOddBreak_cons]
      simp [isOddBreak]
  | closing c rest closes whole ih =>
    obtain ⟨n, length, none⟩ := ih
    have lines := editorLines_break closes whole
    by_cases feed : c = '\n'
    · subst feed
      refine ⟨n, by simp [lines, length]; omega, ?_⟩
      rw [none, forall_isOddBreak_cons]
      simp [isOddBreak]
    · refine ⟨n + 1, by simp [lines, length, feed]; omega, ?_⟩
      have odd : isOddBreak (c :: rest) 0 = true := by
        simpa [isOddBreak, closes, feed, imp_iff_not_or] using whole
      rw [forall_isOddBreak_cons]
      simp [odd]
  | plain c rest plain ih =>
    obtain ⟨n, length, none⟩ := ih
    obtain ⟨row, rows, eq⟩ := List.exists_cons_of_ne_nil (editorLines_ne_nil rest)
    have feed : c ≠ '\n' := by
      rintro rfl
      exact plain (by decide)
    have lines := editorLines_plain plain eq
    rw [eq] at length
    refine ⟨n, by simpa [lines, feed] using length, ?_⟩
    rw [none, forall_isOddBreak_cons]
    simp [isOddBreak, plain]

theorem rowStartsFrom_append (offset : Nat) (s t : List Char) : rowStartsFrom offset (s ++ t)
    = rowStartsFrom offset s ++ rowStartsFrom (offset + size s) t := by
  induction s generalizing offset with
  | nil => rfl
  | cons c s ih =>
    have onward : offset + c.utf8Size + size s = offset + size (c :: s) := by
      rw [size_cons, Nat.add_assoc]
    rw [List.cons_append, rowStartsFrom, rowStartsFrom]
    split
    · rename_i feed
      subst feed
      rw [ih, ← onward]
      rfl
    · rw [ih, onward]

theorem length_rowStartsFrom (offset : Nat) (text : List Char) :
    (rowStartsFrom offset text).length = text.count '\n' := by
  induction text generalizing offset with
  | nil => rfl
  | cons c text ih =>
    rw [rowStartsFrom]
    split
    · rename_i feed
      rw [List.length_cons, ih, feed, List.count_cons_self]
    · rename_i other
      rw [ih, List.count_cons_of_ne other]

/-- A row starts behind the offset of the text, and not past its end. -/
theorem rowStartsFrom_bounds (offset : Nat) (text : List Char) :
    ∀ row ∈ rowStartsFrom offset text, offset < row ∧ row ≤ offset + size text := by
  induction text generalizing offset with
  | nil => simp [rowStartsFrom]
  | cons c text ih =>
    have pos := c.utf8Size_pos
    intro row hrow
    rw [rowStartsFrom] at hrow
    rw [size_cons]
    split at hrow
    · rcases List.mem_cons.1 hrow with rfl | hrow
      · omega
      · have := ih (offset + 1) row hrow
        omega
    · have := ih (offset + c.utf8Size) row hrow
      omega

/-- Every text has a part behind its last line feed. -/
theorem exists_lastRow {α : Type} [DecidableEq α] (feed : α) (text : List α) :
    ∃ front row, text = front ++ row ∧ feed ∉ row ∧
      (front = [] ∨ front.getLast? = some feed) := by
  induction text with
  | nil => exact ⟨[], [], rfl, by simp, .inl rfl⟩
  | cons c text ih =>
    obtain ⟨front, row, rfl, unbroken, rfl | ended⟩ := ih
    · by_cases closes : c = feed
      · exact ⟨[c], row, rfl, unbroken, .inr (by simp [closes])⟩
      · exact ⟨[], c :: row, rfl, by simp [unbroken, Ne.symm closes], .inl rfl⟩
    · exact ⟨c :: front, row, rfl, unbroken, .inr (by rw [List.getLast?_cons, ended]; rfl)⟩

end Text

open Text

/-- The point of an offset in a row, by the text before that row. -/
theorem Point.ofOffset_row {front row : List Char} (unbroken : '\n' ∉ row)
    (ended : front = [] ∨ front.getLast? = some '\n') (behind : List Char) :
    Point.ofOffset (rowStarts (front ++ row ++ behind)) (size (front ++ row))
      = ⟨front.count '\n', size row⟩ := by
  have noRow : rowStartsFrom (size front) row = [] := by
    rw [← List.length_eq_zero_iff, length_rowStartsFrom]
    exact List.count_eq_zero.2 unbroken
  have starts : rowStarts (front ++ row ++ behind)
      = (0 :: rowStartsFrom 0 front) ++ rowStartsFrom (size (front ++ row)) behind := by
    rw [rowStarts, rowStartsFrom_append, rowStartsFrom_append, Nat.zero_add, Nat.zero_add, noRow,
      List.append_nil, List.cons_append]
  have reached : (rowStarts (front ++ row ++ behind)).takeWhile (· ≤ size (front ++ row))
      = 0 :: rowStartsFrom 0 front := by
    rw [starts, List.takeWhile_append_of_pos]
    · have later : (rowStartsFrom (size (front ++ row)) behind).takeWhile (· ≤ size (front ++ row))
          = [] := by
        refine List.takeWhile_eq_nil_iff.2 fun pos reached => ?_
        have := rowStartsFrom_bounds _ _ _ (List.get_mem _ ⟨0, pos⟩)
        simp only [decide_eq_true_eq] at reached
        omega
      rw [later, List.append_nil]
    · intro start hstart
      rcases List.mem_cons.1 hstart with rfl | hstart
      · simp
      · have := rowStartsFrom_bounds 0 front start hstart
        simp only [size_append, decide_eq_true_eq]
        omega
  have last : (0 :: rowStartsFrom 0 front).getLast?.getD 0 = size front := by
    rcases ended with rfl | feed
    · rfl
    · obtain ⟨rows, rfl⟩ := List.getLast?_eq_some_iff.1 feed
      rw [rowStartsFrom_append, ← List.cons_append, rowStartsFrom, if_pos rfl, rowStartsFrom,
        List.getLast?_concat, Nat.zero_add, size_append]
      rfl
  simp only [ofOffset]
  rw [reached, last, List.length_cons, length_rowStartsFrom, size_append, Nat.add_sub_cancel,
    Nat.add_sub_cancel_left]

namespace Text

/-- Without line feeds and odd breaks nothing is left that closes a row but the last character. -/
theorem unbroken_dropLast {row behind : List Char} (noFeed : '\n' ∉ row)
    (only : ∀ k, isOddBreak (row ++ behind) k → row.length ≤ k + 1) :
    ∀ c ∈ row.dropLast, ¬ isBreak c := by
  intro c hc closes
  have nonempty : row ≠ [] := by
    rintro rfl
    simp at hc
  obtain ⟨front, inner, eq⟩ := List.append_of_mem hc
  obtain ⟨d, more, split⟩ : ∃ d more, row = front ++ c :: d :: more := by
    have whole := List.dropLast_append_getLast nonempty
    rw [eq, List.append_assoc, List.cons_append] at whole
    obtain ⟨d, more, rest⟩ := List.exists_cons_of_ne_nil
      (show inner ++ [row.getLast nonempty] ≠ [] by simp)
    exact ⟨d, more, by rw [← whole, rest]⟩
  subst split
  have feedless : c ≠ '\n' ∧ d ≠ '\n' := by
    constructor <;> rintro rfl <;> simp at noFeed
  have odd : isOddBreak (front ++ c :: d :: more ++ behind) (front.length + 0) := by
    rw [List.append_assoc, isOddBreak_append]
    simp [isOddBreak, closes, feedless]
  have late := only _ odd
  simp only [List.length_append, List.length_cons] at late
  omega

/-- The rows of a text that starts with a part of one, which only its last character may close. -/
theorem editorLines_row {row behind : List Char} (unbroken : ∀ c ∈ row.dropLast, ¬ isBreak c)
    (noFeed : '\n' ∉ row) (whole : row.getLast? = some '\r' → behind.head? ≠ some '\n') :
    ∃ rest more, editorLines (row ++ behind) = (row ++ rest) :: more ∧
      units row ≤ lineWidth (row ++ rest) := by
  obtain ⟨first, more, lines⟩ := List.exists_cons_of_ne_nil (editorLines_ne_nil behind)
  rcases List.eq_nil_or_concat row with rfl | ⟨front, c, rfl⟩
  · exact ⟨first, more, lines, Nat.zero_le _⟩
  simp only [List.concat_eq_append, List.dropLast_concat, List.getLast?_concat, Option.some_inj,
    List.mem_append, List.mem_singleton, not_or] at unbroken noFeed whole ⊢
  by_cases closes : isBreak c
  · refine ⟨[], editorLines behind, ?_, ?_⟩
    · have one : editorLines front = [] ++ [front] := editorLines_unbroken unbroken
      rw [List.append_assoc, List.append_nil]
      exact editorLines_append one (editorLines_break closes whole) fun _ feed =>
        noFeed.2 (Option.some.inj feed).symm
    · simp [lineWidth, Ne.symm noFeed.2]
  · have all : ∀ d ∈ front ++ [c], ¬ isBreak d := by
      simpa [or_imp, forall_and, closes] using unbroken
    have one : editorLines (front ++ [c]) = [] ++ [front ++ [c]] := editorLines_unbroken all
    refine ⟨first, more, editorLines_append one lines fun carriage => whole ?_,
      units_le_lineWidth all first⟩
    simpa using carriage

section Halves

variable {before behind last first : List Char} {closed more : List (List Char)}

/-- A position in a closed row of the first part stands in that part, and before its end if it is
the start of its row. -/
theorem Halves.toIndex_closed (h : Halves before behind closed last first more) {row : Nat}
    (inside : row < closed.length) (column : Nat) :
    Position.toIndex (before ++ behind) ⟨row, column⟩ ≤ before.length ∧
      (column = 0 → Position.toIndex (before ++ behind) ⟨row, column⟩ < before.length) := by
  have there : (closed ++ (last ++ first) :: more)[row]? = some closed[row] := by
    rw [List.getElem?_append_left inside, List.getElem?_eq_getElem inside]
  have some_char := List.length_pos_iff.2 (h.rows.nonempty _ (List.getElem_mem inside))
  have chars : charsBefore (closed ++ (last ++ first) :: more) row + closed[row].length
      ≤ before.length := by
    have split : closed.flatten
        = (closed.take row).flatten ++ (closed[row] ++ (closed.drop (row + 1)).flatten) := by
      rw [← List.flatten_cons, ← List.drop_eq_getElem_cons inside, ← List.flatten_append,
        List.take_append_drop]
    rw [charsBefore, List.take_append_of_le_length (Nat.le_of_lt inside), h.rows.text, split]
    simp only [List.length_append]
    omega
  simp only [Position.toIndex, h.lines, there]
  constructor
  · have := countWithin_le unitsOf (min column (lineWidth closed[row])) closed[row]
    omega
  · rintro rfl
    rw [Nat.zero_min, countWithin_zero unitsOf_pos]
    omega

end Halves

end Text

namespace Position

/-- A point in a row of the editor has its position in that row. -/
theorem ofPoint_row {text : List Char} {row : Nat} (inside : row < (editorLines text).length)
    (column : Nat) :
    ∃ units, ofPoint text ⟨row, column⟩ = ⟨row, units⟩ ∧ (column = 0 → units = 0) := by
  refine ⟨_, if_neg (Nat.not_le.2 inside), ?_⟩
  rintro rfl
  rw [countWithin_zero Char.utf8Size_pos]
  rfl

/-- An odd break puts a row of the tree too early in the editor. -/
theorem toIndex_odd {before behind : List Char}
    (whole : before.getLast? = some '\r' → behind.head? ≠ some '\n') {k : Nat}
    (odd : isOddBreak (before ++ behind) k) (inside : k < before.length) (column : Nat) :
    (ofPoint (before ++ behind) ⟨before.count '\n', column⟩).toIndex (before ++ behind)
        ≤ before.length ∧
      (column = 0 → (ofPoint (before ++ behind) ⟨before.count '\n', column⟩).toIndex
        (before ++ behind) < before.length) := by
  obtain ⟨closed, last, first, more, halves⟩ := exists_halves whole
  obtain ⟨n, length, none⟩ := length_editorLines before
  have some_odd : n ≠ 0 := fun zero => by
    rw [isOddBreak_append_left inside whole, none.1 zero k] at odd
    exact Bool.false_ne_true odd
  have within : before.count '\n' < closed.length := by
    rw [halves.rows.lines, List.length_append, List.length_singleton] at length
    omega
  have row : before.count '\n' < (editorLines (before ++ behind)).length := by
    rw [halves.lines, List.length_append]
    omega
  obtain ⟨units, position, zero⟩ := ofPoint_row row column
  have bound := halves.toIndex_closed within units
  rw [position]
  exact ⟨bound.1, fun start => bound.2 (zero start)⟩

section Rows

variable {front row behind : List Char} (noFeed : '\n' ∉ row)
  (ended : front = [] ∨ front.getLast? = some '\n')
include noFeed ended

omit noFeed in
theorem whole_front : front.getLast? = some '\r' → (row ++ behind).head? ≠ some '\n' := by
  rcases ended with rfl | feed
  · simp
  · simp [feed]

theorem toIndex_row_lt {k : Nat} (odd : isOddBreak (front ++ row ++ behind) k)
    (early : k + 1 < (front ++ row).length) :
    (ofPoint (front ++ row ++ behind) ⟨front.count '\n', size row⟩).toIndex (front ++ row ++ behind)
      < (front ++ row).length := by
  rw [List.length_append] at early ⊢
  by_cases inFront : k < front.length
  · rw [List.append_assoc] at odd ⊢
    obtain ⟨bound, start⟩ := toIndex_odd (whole_front ended) odd inFront (size row)
    cases row with
    | nil => exact start rfl
    | cons c row =>
      rw [List.length_cons]
      omega
  · -- the text is cut in the row, behind the odd break, which is not its last character
    obtain ⟨j, rfl⟩ := Nat.exists_eq_add_of_le (Nat.le_of_not_lt inFront)
    have split : front ++ row ++ behind
        = (front ++ row.take (j + 1)) ++ (row.drop (j + 1) ++ behind) := by
      rw [List.append_assoc, List.append_assoc, ← List.append_assoc (row.take (j + 1)),
        List.take_append_drop]
    have apart : (row.drop (j + 1) ++ behind).head? ≠ some '\n' := by
      intro feed
      have some_rest : row.drop (j + 1) ≠ [] := mt List.drop_eq_nil_iff.1 (by omega)
      rw [List.head?_append_of_ne_nil _ some_rest] at feed
      exact noFeed (List.mem_of_mem_drop (List.mem_of_head? feed))
    have length : (front ++ row.take (j + 1)).length = front.length + (j + 1) := by
      rw [List.length_append, List.length_take, Nat.min_eq_left (by omega)]
    have count : (front ++ row.take (j + 1)).count '\n' = front.count '\n' := by
      rw [List.count_append, List.count_eq_zero.2 fun feed => noFeed (List.mem_of_mem_take feed)]
      rfl
    rw [split] at odd ⊢
    have bound := (toIndex_odd (fun _ => apart) odd (by omega) (size row)).1
    rw [count, length] at bound
    omega

omit noFeed in
/-- The part of a text that ends in a line feed, behind which there is no odd break, has none. -/
theorem not_isOddBreak_front (only : ∀ k, isOddBreak (front ++ row ++ behind) k →
    (front ++ row).length ≤ k + 1) (k : Nat) : isOddBreak front k = false := by
  by_contra odd
  rw [Bool.not_eq_false] at odd
  have inside := isOddBreak_lt odd
  have late := only k (by
    rw [List.append_assoc, isOddBreak_append_left inside (whole_front ended), odd])
  rw [List.length_append] at late
  rcases ended with rfl | feed
  · simp at inside
  · obtain ⟨more, rfl⟩ := List.getLast?_eq_some_iff.1 feed
    rw [List.length_append, List.length_singleton] at inside late
    obtain rfl : k = more.length + 0 := by omega
    rw [isOddBreak_append] at odd
    exact absurd odd (by decide)

omit noFeed in
/-- All rows of a text that ends in a line feed are closed. -/
theorem last_eq_nil {closed : List (List Char)} {last : List Char} (rows : Rows front closed last) :
    last = [] := by
  rcases List.eq_nil_or_concat last with rfl | ⟨inner, c, rfl⟩
  · rfl
  have text := rows.text
  rcases ended with rfl | feed
  · simp at text
  · rw [text, List.concat_eq_append, ← List.append_assoc, List.getLast?_concat] at feed
    exact absurd (by rw [Option.some.inj feed]; decide) (rows.unbroken c (by simp))

theorem toIndex_row (whole : row.getLast? = some '\r' → behind.head? ≠ some '\n')
    (only : ∀ k, isOddBreak (front ++ row ++ behind) k → (front ++ row).length ≤ k + 1) :
    (ofPoint (front ++ row ++ behind) ⟨front.count '\n', size row⟩).toIndex (front ++ row ++ behind)
      = (front ++ row).length := by
  have only_row : ∀ k, isOddBreak (row ++ behind) k → row.length ≤ k + 1 := by
    intro k odd
    have late := only (front.length + k) (by rw [List.append_assoc, isOddBreak_append, odd])
    rw [List.length_append] at late
    omega
  obtain ⟨closed, last, rows⟩ := exists_rows front
  obtain rfl := last_eq_nil ended rows
  have closes : closed.length = front.count '\n' := by
    obtain ⟨n, length, none⟩ := length_editorLines front
    rw [none.2 (not_isOddBreak_front ended only), rows.lines, List.length_append,
      List.length_singleton] at length
    omega
  obtain ⟨rest, more, lines, fits⟩ :=
    editorLines_row (unbroken_dropLast noFeed only_row) noFeed whole
  have halves := rows.halves lines (whole_front ended)
  have position := halves.position_eq (s := row) (t := behind) rfl
  have index := halves.toIndex_eq (s := row) (t := rest) rfl fits
  rw [List.append_assoc, ← closes, position, index, List.length_append, halves.index_eq]
  rfl

end Rows

/-- The position of a point of the tree leads back to its offset just when no odd break stands
before the last character in front of it. -/
theorem toIndex_ofOffset {before behind : List Char}
    (whole : before.getLast? = some '\r' → behind.head? ≠ some '\n') :
    (ofPoint (before ++ behind) (.ofOffset (rowStarts (before ++ behind)) (size before))).toIndex
        (before ++ behind) = before.length ↔
      ∀ k, isOddBreak (before ++ behind) k → before.length ≤ k + 1 := by
  obtain ⟨front, row, rfl, noFeed, ended⟩ := exists_lastRow '\n' before
  rw [Point.ofOffset_row noFeed ended]
  constructor
  · intro index k odd
    by_contra early
    exact Nat.ne_of_lt (toIndex_row_lt noFeed ended odd (Nat.lt_of_not_le early)) index
  · refine toIndex_row noFeed ended fun carriage => whole ?_
    rw [List.getLast?_append, carriage]
    rfl

end Position

namespace Draft

/-- A node that starts where one of some leaves starts and ends where one ends. -/
structure Edged (leaves : List Tag) (n : Draft) : Prop where
  start : ∃ l ∈ leaves, l.start = n.start
  stop : ∃ l ∈ leaves, l.stop = n.stop

theorem Edged.mono {leaves more : List Tag} {n : Draft} (h : Edged leaves n)
    (sub : ∀ l ∈ leaves, l ∈ more) : Edged more n := by
  obtain ⟨⟨l, hl, start⟩, m, hm, stop⟩ := h
  exact ⟨⟨l, sub l hl, start⟩, m, sub m hm, stop⟩

theorem Tight.edged {d : Draft} (tight : d.Tight) : ∀ n ∈ d.nodes, Edged d.leaves n := by
  induction d using Rose.induction with
  | node t children ih =>
    obtain ⟨framed, below⟩ := tight_node.1 tight
    by_cases childless : children = []
    · subst childless
      have here : t ∈ Rose.leaves (.node t []) := by simp [Rose.leaves_node]
      exact Rose.forall_nodes_node.2 ⟨⟨⟨t, here, rfl⟩, t, here, rfl⟩, by simp⟩
    have inner (c : Draft) (hc : c ∈ children) : ∀ n ∈ c.nodes,
        Edged (Rose.leaves (.node t children)) n := by
      refine fun n hn => (ih c hc (below c hc) n hn).mono fun l hl => ?_
      rw [Rose.leaves_node, if_neg (by simpa using childless)]
      exact List.mem_flatMap.2 ⟨c, hc, hl⟩
    have head := List.head?_eq_some_head childless
    have tail := List.getLast?_eq_some_getLast childless
    obtain ⟨l, hl, start⟩ := (inner _ (List.mem_of_head? head) _ (Rose.mem_nodes_self _)).start
    obtain ⟨m, hm, stop⟩ := (inner _ (List.mem_of_getLast? tail) _ (Rose.mem_nodes_self _)).stop
    refine Rose.forall_nodes_node.2 ⟨⟨⟨l, hl, ?_⟩, m, hm, ?_⟩, inner⟩
    · exact start.trans (framed.first _ head).2
    · exact stop.trans (framed.last _ tail).1

end Draft

namespace Tree

/-- The number of characters before a byte offset. -/
def indexOf (t : Tree) (offset : Nat) : Nat := countWithin Char.utf8Size offset t.source

/-- An offset between two characters, whose position for an editor leads back to it, if it parts no
break, just when no odd break stands before the last character in front of it. -/
structure Located (t : Tree) (offset : Nat) (p : Position) : Prop where
  boundary : size (t.source.take (t.indexOf offset)) = offset
  index : partsBreak t.source (t.indexOf offset) = false →
    (p.toIndex t.source = t.indexOf offset ↔
      ∀ k, isOddBreak t.source k → t.indexOf offset ≤ k + 1)

/-- The position of any offset between two characters. -/
theorem located {t : Tree} {before behind : List Char} (source : t.source = before ++ behind) :
    Located t (size before) (.ofPoint t.source (t.pointAt (size before))) := by
  have index : t.indexOf (size before) = before.length := by
    rw [indexOf, source, countWithin_size]
  refine ⟨by rw [index, source, List.take_left], fun whole => ?_⟩
  rw [index, pointAt, source] at *
  exact Position.toIndex_ofOffset (by simpa [partsBreak] using whole)

/-- The ends of a node stand between two characters. -/
theorem edges_ofScript (text : List Char) : ∀ n ∈ (ofScript text).root.nodes,
    (∃ before behind, text = before ++ behind ∧ Node.start n = size before) ∧
      ∃ before behind, text = before ++ behind ∧ Node.stop n = size before := by
  obtain ⟨ts, cut, solids, extras, _⟩ := leaves_cut text
  have slices := cut.slice? (Spot.in_start text)
  have leaf (l : Tag) (hl : l ∈ (ofScript text).leaves) : ∃ before inner behind,
      text = before ++ inner ++ behind ∧ size before = l.start ∧ l.stop = l.start + size inner := by
    obtain ⟨t, ht, start, stop⟩ := leaves_spans solids extras l hl
    obtain ⟨before, behind, eq, here, there⟩ := slice?_split (slices t ht)
    exact ⟨before, t.text, behind, eq, by rw [here, start], by rw [← start, ← stop, there]⟩
  obtain ⟨tag, low, high, root⟩ := thaw_root text
  intro n hn
  have thawed : Node.thaw n ∈ (ofScript text).root.thaw.nodes := by
    have all := nodes_thaw (ofScript text)
    rw [nodes] at all
    rw [all]
    exact List.mem_map_of_mem hn
  have same : Draft.start (Node.thaw n) = Node.start n ∧ Draft.stop (Node.thaw n) = Node.stop n := by
    obtain ⟨e, children⟩ := n
    rw [Node.thaw, Rose.map_node]
    exact ⟨rfl, rfl⟩
  rw [← same.1, ← same.2]
  rw [root, Rose.nodes_node, List.mem_cons] at thawed
  rcases thawed with whole | below
  · rw [whole]
    exact ⟨⟨[], text, rfl, low⟩, text, [], by simp, high⟩
  · obtain ⟨d, hd, below⟩ := List.mem_flatMap.1 below
    obtain ⟨⟨l, hl, start⟩, m, hm, stop⟩ := (Script.items_tight text d hd).1.edged _ below
    have leaves {l : Tag} (hl : l ∈ d.leaves) : l ∈ (ofScript text).leaves := by
      rw [leaves_ofScript]
      exact List.mem_flatMap.2 ⟨d, hd, hl⟩
    obtain ⟨before, inner, behind, eq, here, -⟩ := leaf l (leaves hl)
    obtain ⟨before', inner', behind', eq', here', there'⟩ := leaf m (leaves hm)
    refine ⟨⟨before, inner ++ behind, by rw [eq, List.append_assoc], ?_⟩,
      before' ++ inner', behind', eq', ?_⟩
    · rw [← start, here]
    · rw [← stop, there', ← here', size_append]

/-- What an editor is told of the ends of a node of a script. -/
theorem ofScript_located (text : List Char) (n : Node) (hn : n ∈ (ofScript text).root.nodes) :
    Located (ofScript text) n.start (n.range.toSpan text).start ∧
      Located (ofScript text) n.stop (n.range.toSpan text).stop := by
  obtain ⟨⟨before, behind, eq, start⟩, before', behind', eq', stop⟩ := edges_ofScript text n hn
  obtain ⟨startPoint, stopPoint⟩ := placed_ofScript text n hn
  have first := located (t := ofScript text) eq
  have last := located (t := ofScript text) eq'
  rw [← start, ← startPoint] at first
  rw [← stop, ← stopPoint] at last
  exact ⟨first, last⟩

/-- An action behind wide characters, a carriage return with its line feed and a tab. -/
theorem ofScript_located_wide :
    ∃ n : Node, n ∈ (ofScript "# é😀\r\n\tdrop;\u2028".toList).root.nodes ∧
      n.kind = Kind.coreFunction ∧
        (n.range.toSpan "# é😀\r\n\tdrop;\u2028".toList).start.toIndex
          "# é😀\r\n\tdrop;\u2028".toList = 7 := by
  obtain ⟨n, hn, kind, index⟩ : ∃ n : Node, n ∈ (ofScript "# é😀\r\n\tdrop;\u2028".toList).root.nodes ∧
      n.kind = Kind.coreFunction ∧
        (ofScript "# é😀\r\n\tdrop;\u2028".toList).indexOf n.start = 7 := by
    decide +kernel
  have whole : partsBreak "# é😀\r\n\tdrop;\u2028".toList 7 = false := by decide
  have noOdd : ∀ k < 6, isOddBreak "# é😀\r\n\tdrop;\u2028".toList k = false := by decide
  have back := (ofScript_located _ n hn).1.index (by rw [index]; exact whole)
  rw [index] at back
  refine ⟨n, hn, kind, back.2 fun k odd => ?_⟩
  by_contra early
  have none := noOdd k (by omega)
  exact Bool.false_ne_true (none.symm.trans odd)

/-- A form feed at the start of a text is a row of the editor and none of the tree, so the action
behind it is shown on the row before its own. -/
theorem ofScript_located_formFeed :
    ∃ n : Node, n ∈ (ofScript "\x0c\ndrop;\n".toList).root.nodes ∧ n.kind = Kind.coreFunction ∧
      partsBreak "\x0c\ndrop;\n".toList ((ofScript "\x0c\ndrop;\n".toList).indexOf n.start) = false ∧
      (n.range.toSpan "\x0c\ndrop;\n".toList).start.toIndex "\x0c\ndrop;\n".toList
        ≠ (ofScript "\x0c\ndrop;\n".toList).indexOf n.start := by
  decide +kernel

end Tree

end RouteScript
