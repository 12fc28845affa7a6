import RouteScript.Document.Store
import RouteScript.Proofs.Cut
/-!
# Rows of an editor

A text splits into its closed rows and the open one behind them. The rows of a text that is cut
between two characters, and not within a break, are those of the two parts, where the open row of
the first part and the first row of the second are one.
-/
namespace RouteScript.Text

/-- Whether an index stands between a carriage return and the line feed that belongs to it. -/
def partsBreak (text : List Char) (i : Nat) : Bool :=
  (text.take i).getLast? = some '\r' && (text.drop i).head? = some '\n'

theorem unitsOf_pos (c : Char) : 0 < unitsOf c := by
  unfold unitsOf
  split <;> omega

@[simp] theorem units_append (s t : List Char) : units (s ++ t) = units s + units t := by
  induction s with
  | nil => simp [units]
  | cons c s ih => simp [units, ih, Nat.add_assoc]

/-- Counting up to the measure of a beginning counts its characters. -/
theorem countWithin_append {measure : Char → Nat} {total : List Char → Nat}
    (nil : total [] = 0) (cons : ∀ c s, total (c :: s) = measure c + total s)
    (pos : ∀ c, 0 < measure c) (s t : List Char) :
    countWithin measure (total s) (s ++ t) = s.length := by
  induction s with
  | nil =>
    cases t with
    | nil => rfl
    | cons c t =>
      have := pos c
      rw [nil, List.nil_append, countWithin, if_neg (by omega), List.length_nil]
  | cons c s ih =>
    rw [cons, List.cons_append, countWithin, if_pos (by omega), Nat.add_sub_cancel_left, ih,
      List.length_cons, Nat.add_comm]

theorem countWithin_units (s t : List Char) : countWithin unitsOf (units s) (s ++ t) = s.length :=
  countWithin_append rfl (fun _ _ => rfl) unitsOf_pos s t

theorem countWithin_size (s t : List Char) :
    countWithin Char.utf8Size (size s) (s ++ t) = s.length :=
  countWithin_append rfl (fun _ _ => rfl) Char.utf8Size_pos s t

theorem countWithin_le (measure : Char → Nat) (n : Nat) (text : List Char) :
    countWithin measure n text ≤ text.length := by
  induction text generalizing n with
  | nil => simp [countWithin]
  | cons c text ih =>
    have := ih (n - measure c)
    unfold countWithin
    split <;> simp only [List.length_cons] <;> omega

theorem countWithin_zero {measure : Char → Nat} (pos : ∀ c, 0 < measure c) (text : List Char) :
    countWithin measure 0 text = 0 := by
  cases text with
  | nil => rfl
  | cons c text =>
    have := pos c
    rw [countWithin, if_neg (by omega)]

/-- The closed rows of a text and the open one at its end. -/
structure Rows (text : List Char) (closed : List (List Char)) (last : List Char) : Prop where
  lines : editorLines text = closed ++ [last]
  text : text = closed.flatten ++ last
  unbroken : ∀ c ∈ last, ¬ isBreak c
  nonempty : ∀ row ∈ closed, row ≠ []

theorem editorLines_nil : editorLines [] = [[]] := rfl

theorem editorLines_pair (rest : List Char) :
    editorLines ('\r' :: '\n' :: rest) = ['\r', '\n'] :: editorLines rest := rfl

theorem editorLines_break {c : Char} {rest : List Char} (closes : isBreak c)
    (whole : c = '\r' → rest.head? ≠ some '\n') :
    editorLines (c :: rest) = [c] :: editorLines rest := by
  rw [editorLines]
  · rw [if_pos closes]
  · rintro more rfl rfl
    exact whole rfl rfl

theorem editorLines_plain {c : Char} {rest row : List Char} {rows : List (List Char)}
    (plain : ¬ isBreak c) (h : editorLines rest = row :: rows) :
    editorLines (c :: rest) = (c :: row) :: rows := by
  rw [editorLines, if_neg plain, h]
  rintro more rfl
  exact absurd rfl plain

/-- Induction along the rows of an editor. -/
theorem rows_induction {motive : List Char → Prop} (nil : motive [])
    (pair : ∀ rest, motive rest → motive ('\r' :: '\n' :: rest))
    (closing : ∀ c rest, isBreak c → (c = '\r' → rest.head? ≠ some '\n') → motive rest →
      motive (c :: rest))
    (plain : ∀ c rest, ¬ isBreak c → motive rest → motive (c :: rest)) (text : List Char) :
    motive text := by
  have head {c : Char} {rest : List Char} (whole : ∀ more, c = '\r' → rest ≠ '\n' :: more)
      (carriage : c = '\r') : rest.head? ≠ some '\n' := by
    intro h
    obtain ⟨more, rfl⟩ := List.head?_eq_some_iff.1 h
    exact whole more carriage rfl
  fun_induction editorLines text with
  | case1 => exact nil
  | case2 rest ih => exact pair rest ih
  | case3 c rest whole closes ih => exact closing c rest closes (head whole) ih
  | case4 c rest whole open_ none ih => exact plain c rest open_ ih
  | case5 c rest whole open_ row rows eq ih => exact plain c rest open_ ih

theorem editorLines_ne_nil (text : List Char) : editorLines text ≠ [] := by
  induction text using rows_induction with
  | nil => exact List.cons_ne_nil _ _
  | pair rest ih => exact List.cons_ne_nil _ _
  | closing c rest closes whole ih =>
    rw [editorLines_break closes whole]
    exact List.cons_ne_nil _ _
  | plain c rest plain ih =>
    obtain ⟨row, rows, lines⟩ := List.exists_cons_of_ne_nil ih
    rw [editorLines_plain plain lines]
    exact List.cons_ne_nil _ _

theorem exists_rows (text : List Char) : ∃ closed last, Rows text closed last := by
  induction text using rows_induction with
  | nil => exact ⟨[], [], rfl, rfl, by simp, by simp⟩
  | pair rest ih =>
    obtain ⟨closed, last, rows⟩ := ih
    refine ⟨['\r', '\n'] :: closed, last, ?_, ?_, rows.unbroken, ?_⟩
    · rw [editorLines_pair, rows.lines, List.cons_append]
    · simpa using rows.text
    · simpa using rows.nonempty
  | closing c rest closes whole ih =>
    obtain ⟨closed, last, rows⟩ := ih
    refine ⟨[c] :: closed, last, ?_, ?_, rows.unbroken, ?_⟩
    · rw [editorLines_break closes whole, rows.lines, List.cons_append]
    · simpa using rows.text
    · simpa using rows.nonempty
  | plain c rest plain ih =>
    obtain ⟨closed, last, rows⟩ := ih
    cases closed with
    | nil =>
      refine ⟨[], c :: last, ?_, ?_, ?_, by simp⟩
      · exact editorLines_plain plain rows.lines
      · simpa using rows.text
      · simpa [plain] using rows.unbroken
    | cons row closed =>
      have nonempty := rows.nonempty
      refine ⟨(c :: row) :: closed, last, ?_, ?_, rows.unbroken, ?_⟩
      · exact editorLines_plain plain rows.lines
      · simpa using rows.text
      · simp only [List.forall_mem_cons] at nonempty ⊢
        exact ⟨by simp, nonempty.2⟩

theorem flatten_editorLines (text : List Char) : (editorLines text).flatten = text := by
  obtain ⟨closed, last, rows⟩ := exists_rows text
  simp [rows.lines, ← rows.text]

theorem editorLines_unbroken {row : List Char} (unbroken : ∀ c ∈ row, ¬ isBreak c) :
    editorLines row = [row] := by
  induction row with
  | nil => rfl
  | cons c row ih =>
    obtain ⟨plain, below⟩ := List.forall_mem_cons.1 unbroken
    exact editorLines_plain plain (ih below)

/-- Of at least two rows the first one is closed. -/
theorem closed_eq_cons {row last : List Char} {rows closed : List (List Char)} (more : rows ≠ [])
    (h : row :: rows = closed ++ [last]) :
    ∃ closed', closed = row :: closed' ∧ rows = closed' ++ [last] := by
  cases closed with
  | nil => simp_all
  | cons row' closed' =>
    obtain ⟨rfl, rfl⟩ := List.cons.inj h
    exact ⟨closed', rfl, rfl⟩

theorem ne_nil_of_editorLines {text row : List Char} {rows : List (List Char)}
    (h : editorLines text = row :: rows) (more : rows ≠ []) : row ≠ [] := by
  obtain ⟨closed, last, split⟩ := exists_rows text
  obtain ⟨_, rfl, -⟩ := closed_eq_cons more (h.symm.trans split.lines)
  exact split.nonempty row (by simp)

/-- The rows of two parts of a text, between which no break is parted. -/
theorem editorLines_append {before behind last first : List Char} {closed more : List (List Char)}
    (h : editorLines before = closed ++ [last]) (h' : editorLines behind = first :: more)
    (whole : before.getLast? = some '\r' → behind.head? ≠ some '\n') :
    editorLines (before ++ behind) = closed ++ (last ++ first) :: more := by
  have later {c : Char} {rest : List Char}
      (whole : (c :: rest).getLast? = some '\r' → behind.head? ≠ some '\n')
      (carriage : rest.getLast? = some '\r') : behind.head? ≠ some '\n' :=
    whole (by rw [List.getLast?_cons, carriage]; rfl)
  induction before using rows_induction generalizing closed last with
  | nil =>
    obtain ⟨rfl, rfl⟩ : closed = [] ∧ last = [] := by
      cases closed with
      | nil => simpa [editorLines_nil, eq_comm] using h
      | cons row closed => simp [editorLines_nil] at h
    exact h'
  | pair rest ih =>
    rw [editorLines_pair] at h
    obtain ⟨closed, rfl, rows⟩ := closed_eq_cons (editorLines_ne_nil rest) h
    rw [List.cons_append, List.cons_append, editorLines_pair, List.cons_append]
    exact congrArg _ (ih rows fun carriage => later (later whole) carriage)
  | closing c rest closes whole_c ih =>
    rw [editorLines_break closes whole_c] at h
    obtain ⟨closed, rfl, rows⟩ := closed_eq_cons (editorLines_ne_nil rest) h
    have whole' : c = '\r' → (rest ++ behind).head? ≠ some '\n' := by
      rintro rfl
      cases rest with
      | nil => exact whole rfl
      | cons d rest => exact whole_c rfl
    rw [List.cons_append, editorLines_break closes whole', List.cons_append]
    exact congrArg _ (ih rows (later whole))
  | plain c rest plain ih =>
    obtain ⟨row, rows, eq⟩ := List.exists_cons_of_ne_nil (editorLines_ne_nil rest)
    rw [editorLines_plain plain eq] at h
    cases closed with
    | nil =>
      obtain ⟨rfl, rfl⟩ : c :: row = last ∧ rows = [] := by simpa using h
      exact editorLines_plain plain (ih (show editorLines rest = [] ++ [row] from eq) (later whole))
    | cons row' closed =>
      obtain ⟨rfl, rfl⟩ := List.cons.inj h
      have below : editorLines rest = (row :: closed) ++ [last] := eq
      exact editorLines_plain plain (ih below (later whole))

end RouteScript.Text
