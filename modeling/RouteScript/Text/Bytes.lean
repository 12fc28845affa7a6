/-!
# Text measured in bytes

A text is a list of characters; offsets into it count the bytes of its UTF-8 form. Cutting at an
offset inside a character gives nothing.
-/
namespace RouteScript.Text

/-- Bytes that a text takes in UTF-8. -/
def size : List Char → Nat
  | [] => 0
  | c :: rest => c.utf8Size + size rest

/-- What follows the first `n` bytes, if they end between two characters. -/
def after? : List Char → Nat → Option (List Char)
  | text, 0 => some text
  | [], _ + 1 => none
  | c :: rest, n + 1 => if c.utf8Size ≤ n + 1 then after? rest (n + 1 - c.utf8Size) else none

/-- The first `n` bytes, if they end between two characters. -/
def upTo? : List Char → Nat → Option (List Char)
  | _, 0 => some []
  | [], _ + 1 => none
  | c :: rest, n + 1 =>
    if c.utf8Size ≤ n + 1 then (upTo? rest (n + 1 - c.utf8Size)).map (c :: ·) else none

/-- The characters from byte `start` to byte `stop`; none if either cuts a character. -/
def slice? (text : List Char) (start stop : Nat) : Option (List Char) :=
  if stop < start then none else (after? text start).bind (upTo? · (stop - start))

/-- The characters from byte `start` to byte `stop`, empty where there is no such piece. -/
def slice (text : List Char) (start stop : Nat) : List Char :=
  (slice? text start stop).getD []

@[simp] theorem size_nil : size [] = 0 := rfl

@[simp] theorem size_cons (c : Char) (rest : List Char) :
    size (c :: rest) = c.utf8Size + size rest := rfl

@[simp] theorem size_append (s t : List Char) : size (s ++ t) = size s + size t := by
  induction s with
  | nil => simp
  | cons c rest ih => simp [ih, Nat.add_assoc]

@[simp] theorem after?_zero (text : List Char) : after? text 0 = some text := by
  cases text <;> rfl

theorem after?_cons (c : Char) (rest : List Char) {n : Nat} (h : c.utf8Size ≤ n) :
    after? (c :: rest) n = after? rest (n - c.utf8Size) := by
  have pos := c.utf8Size_pos
  obtain ⟨m, rfl⟩ : ∃ m, n = m + 1 := ⟨n - 1, by omega⟩
  simp [after?, h]

/-- A text that starts with `s` has the rest behind the bytes of `s`. -/
theorem after?_size_append (s t : List Char) : after? (s ++ t) (size s) = some t := by
  induction s with
  | nil => simp
  | cons c rest ih =>
    rw [List.cons_append, size_cons, after?_cons c _ (Nat.le_add_right _ _)]
    simpa using ih

end RouteScript.Text
