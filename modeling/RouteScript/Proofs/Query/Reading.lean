import RouteScript.Proofs.Query.Written
import Mathlib.Data.List.Infix
/-!
# Reading pieces

The reader of queries stands in front of pieces, with the table of the names that it has seen. White
space and comments are skipped, and words, marks, strings and captures are taken one by one.
-/
namespace RouteScript.Query

/-- White space is no part of a name. -/
theorem not_isNameChar_of_isBlank {c : Char} (blank : Text.isBlank c) :
    Reader.isNameChar c = false := by
  have all : ∀ n ∈ List.range' 9 5 ++ [0x20, 0x85, 0xa0, 0x1680] ++ List.range' 0x2000 11
      ++ [0x2028, 0x2029, 0x202f, 0x205f, 0x3000], Reader.isNameChar (Char.ofNat n) = false := by
    decide +kernel
  have here := all c.toNat (by
    simp [Text.isBlank, Char.le_def, Char.ext_iff, UInt32.le_iff_toNat_le, ← UInt32.toNat_inj,
      List.mem_range'_1] at blank ⊢
    omega)
  rwa [Char.ofNat_toNat] at here

/-- The signs that are written around words are in no name either. -/
theorem not_isNameChar_of_sign (c : Char) (sign : c ∈ ['(', ')', '[', ']', ':', '"', '@', ';']) :
    Reader.isNameChar c = false := by
  have all : ['(', ')', '[', ']', ':', '"', '@', ';'].all (Reader.isNameChar · == false) := by
    decide
  simpa using List.all_eq_true.mp all c sign

/-- Neither white space nor the start of a comment. -/
def isSolid (c : Char) : Bool := !Text.isBlank c && c ≠ ';'

theorem isSolid_of_isNameChar {c : Char} (h : Reader.isNameChar c) : isSolid c := by
  have blank : Text.isBlank c = false := by
    by_contra blank
    rw [not_isNameChar_of_isBlank (by simpa using blank)] at h
    contradiction
  have comment : c ≠ ';' := by
    rintro rfl
    rw [not_isNameChar_of_sign ';' (by simp)] at h
    contradiction
  simp [isSolid, blank, comment]

theorem Piece.text_solid {p : Piece} (valid : p.isValid) :
    ∃ c more, p.text = c :: more ∧ isSolid c ∧
      (p.isWord = Reader.isNameChar c) := by
  cases p with
  | word text =>
    simp only [isValid, isName, Bool.and_eq_true] at valid
    cases h : text.toList with
    | nil => simp_all
    | cons c more =>
      have name : Reader.isNameChar c := by simp_all
      exact ⟨c, more, h, isSolid_of_isNameChar name, name.symm⟩
  | capture name =>
    exact ⟨'@', name.toList, rfl, by decide, (not_isNameChar_of_sign '@' (by simp)).symm⟩
  | mark c =>
    refine ⟨c, [], rfl, ?_⟩
    simp only [isValid, Bool.or_eq_true, decide_eq_true_eq] at valid
    rcases valid with (((rfl | rfl) | rfl) | rfl) | rfl <;>
      exact ⟨by decide, (not_isNameChar_of_sign _ (by simp)).symm⟩
  | quoted text =>
    exact ⟨'"', Piece.escape text.toList ++ ['"'], rfl, by decide,
      (not_isNameChar_of_sign '"' (by simp)).symm⟩

/-- Only captures start with their sign. -/
theorem Piece.head_ne_sign {p : Piece} (valid : p.isValid) (other : p.isCapture = false) :
    p.text.head? ≠ some '@' := by
  intro sign
  cases p with
  | word text =>
    obtain ⟨c, more, text_eq, _, isWord⟩ := Piece.text_solid valid
    obtain rfl : c = '@' := by simpa [text_eq] using sign
    rw [not_isNameChar_of_sign '@' (by simp)] at isWord
    contradiction
  | capture name => exact absurd other (by simp [isCapture])
  | mark c =>
    obtain rfl : c = '@' := by simpa [text] using sign
    exact absurd valid (by decide)
  | quoted text => simp [Piece.text] at sign

theorem blankLength_solid {c : Char} (h : isSolid c) (rest : List Char) :
    Reader.blankLength false (c :: rest) = 0 := by
  simp only [isSolid, Bool.and_eq_true, Bool.not_eq_true', decide_eq_true_eq] at h
  simp [Reader.blankLength, h.1, h.2]

theorem blankLength_comment {body : List Char} (inLine : '\n' ∉ body) (rest : List Char) :
    Reader.blankLength true (body ++ '\n' :: rest)
      = body.length + 1 + Reader.blankLength false rest := by
  induction body with
  | nil => simp [Reader.blankLength]
  | cons c body ih =>
    obtain ⟨first, others⟩ := List.ne_and_not_mem_of_not_mem_cons inLine
    rw [List.cons_append, Reader.blankLength, if_neg first.symm, ih others, List.length_cons]
    omega

theorem blankLength_lastComment {body : List Char} (inLine : '\n' ∉ body) :
    Reader.blankLength true body = body.length := by
  induction body with
  | nil => rfl
  | cons c body ih =>
    obtain ⟨first, others⟩ := List.ne_and_not_mem_of_not_mem_cons inLine
    rw [Reader.blankLength, if_neg first.symm, ih others, List.length_cons]
    omega

theorem Gap.blankLength {gap : List Char} (h : Gap gap) (rest : List Char) :
    Reader.blankLength false (gap ++ rest) = gap.length + Reader.blankLength false rest := by
  induction h with
  | nil => simp
  | blank blank more ih =>
    rw [List.cons_append, Reader.blankLength, if_pos blank, ih, List.length_cons]
    omega
  | @comment body gap inLine more ih =>
    have notBlank : ¬ Text.isBlank ';' := by decide
    rw [List.cons_append, Reader.blankLength, if_neg notBlank, if_pos rfl, List.append_assoc,
      List.cons_append, blankLength_comment inLine, ih]
    simp only [List.length_cons, List.length_append]
    omega

/-- What stands behind a word does not go on with it. -/
theorem Layout.not_isNameChar {pieces : List Piece} {text : List Char} {c : Char}
    (h : Layout true pieces (c :: text)) (valid : ∀ p ∈ pieces, p.isValid) :
    Reader.isNameChar c = false := by
  have gapHead {gap more : List Char} (empty : Gap gap) (nonempty : gap ≠ [])
      (same : gap ++ more = c :: text) : Reader.isNameChar c = false := by
    cases empty with
    | nil => contradiction
    | blank blank more =>
      obtain ⟨rfl, _⟩ := List.cons.inj same
      exact not_isNameChar_of_isBlank blank
    | comment inLine more =>
      obtain ⟨rfl, _⟩ := List.cons.inj same
      exact not_isNameChar_of_sign ';' (by simp)
  generalize same : c :: text = whole at h
  cases h with
  | nil empty =>
    subst same
    exact gapHead empty (by simp) (List.append_nil _)
  | @comment _ gap body empty inLine =>
    by_cases none : gap = []
    · subst none
      obtain ⟨rfl, _⟩ := List.cons.inj same
      exact not_isNameChar_of_sign ';' (by simp)
    · exact gapHead empty none same.symm
  | @cons _ gap p rest text' empty apart more =>
    by_cases none : gap = []
    · subst none
      obtain ⟨head, behind, p_text, _, isWord⟩ := Piece.text_solid (valid p (by simp))
      rw [p_text] at same
      obtain ⟨rfl, _⟩ := List.cons.inj same
      have notWord : ¬ p.isWord := fun word => apart rfl word rfl
      rw [← isWord]
      simpa using notWord
    · exact gapHead empty none same.symm

theorem Layout.weaken {behind : Bool} {pieces : List Piece} {text : List Char}
    (h : Layout behind pieces text) : Layout false pieces text := by
  cases h with
  | nil empty => exact .nil empty
  | comment empty inLine => exact .comment empty inLine
  | cons empty apart more => exact .cons empty (fun h => absurd h Bool.false_ne_true) more

/-- A text of pieces that starts with the first of them. -/
inductive Begins : List Piece → List Char → Prop
  | nil : Begins [] []
  | cons {p : Piece} {rest : List Piece} {text : List Char} (more : Layout p.endsInWord rest text) :
      Begins (p :: rest) (p.text ++ text)

theorem Begins.layout {pieces : List Piece} {text : List Char} (h : Begins pieces text) :
    Layout false pieces text := by
  cases h with
  | nil => exact .nil .nil
  | cons more => exact .cons .nil (fun h => absurd h Bool.false_ne_true) more

/-- What stands in front of the first piece is skipped. -/
theorem Layout.begins {behind : Bool} {pieces : List Piece} {text : List Char}
    (h : Layout behind pieces text) (valid : ∀ p ∈ pieces, p.isValid) :
    Begins pieces (text.drop (Reader.blankLength false text)) := by
  cases h with
  | nil empty =>
    have all := empty.blankLength []
    rw [List.append_nil] at all
    rw [all, Reader.blankLength, Nat.add_zero, List.drop_length]
    exact .nil
  | @comment _ gap body empty inLine =>
    have notBlank : ¬ Text.isBlank ';' := by decide
    have last : Reader.blankLength false (';' :: body) = 1 + body.length := by
      rw [Reader.blankLength, if_neg notBlank, if_pos rfl, blankLength_lastComment inLine]
    have short : (gap ++ ';' :: body).length ≤ gap.length + (1 + body.length) := by
      rw [List.length_append, List.length_cons, Nat.add_comm 1]
    rw [empty.blankLength, last, List.drop_eq_nil_of_le short]
    exact .nil
  | @cons _ gap p rest text empty apart more =>
    obtain ⟨c, behind, p_text, solid, _⟩ := Piece.text_solid (valid p (by simp))
    have stops : Reader.blankLength false (p.text ++ text) = 0 := by
      rw [p_text, List.cons_append, blankLength_solid solid]
    rw [empty.blankLength, stops, Nat.add_zero, List.drop_left]
    exact .cons more

/-- No piece is empty. -/
theorem Layout.length_le {behind : Bool} {pieces : List Piece} {text : List Char}
    (h : Layout behind pieces text) (valid : ∀ p ∈ pieces, p.isValid) :
    pieces.length ≤ text.length := by
  induction h with
  | nil => exact Nat.zero_le _
  | comment => exact Nat.zero_le _
  | @cons _ gap p rest text empty apart more ih =>
    obtain ⟨c, behind, p_text, _, _⟩ := Piece.text_solid (valid p (by simp))
    have others : rest.length ≤ text.length := ih fun q hq => valid q (by simp [hq])
    simp only [p_text, List.length_cons, List.length_append]
    omega

theorem Reader.bind_ok {α β : Type} {r : Reader α} {f : α → Reader β} {s s' : Source} {a : α}
    (h : r s = .ok (a, s')) : (r >>= f) s = f a s' := by
  simp [bind, StateT.bind, h, Except.bind]

/-- The reader has seen these names and has these pieces before it. -/
structure Stands (seen : List String) (pieces : List Piece) (s : Source) : Prop where
  names : s.names = seen.eraseDups
  layout : Layout false pieces s.rest
  valid : ∀ p ∈ pieces, p.isValid

/-- The reader stands right in front of the first piece. -/
structure Faces (seen : List String) (pieces : List Piece) (s : Source) : Prop where
  names : s.names = seen.eraseDups
  begins : Begins pieces s.rest
  valid : ∀ p ∈ pieces, p.isValid

section Steps

variable {seen : List String} {p : Piece} {pieces more : List Piece} {s : Source} {l : Language}

theorem Faces.stands (h : Faces seen pieces s) : Stands seen pieces s :=
  ⟨h.names, h.begins.layout, h.valid⟩

theorem Stands.skipBlanks (h : Stands seen pieces s) :
    ∃ s', Reader.skipBlanks s = .ok ((), s') ∧ Faces seen pieces s' :=
  ⟨_, rfl, h.names, h.layout.begins h.valid, h.valid⟩

/-- What is left of the text is the first piece and what stands behind it. -/
theorem Faces.split (h : Faces seen (p :: more) s) :
    ∃ text, s.rest = p.text ++ text ∧ Layout p.endsInWord more text ∧ ∀ q ∈ more, q.isValid := by
  obtain ⟨names, begins, valid⟩ := h
  generalize s.rest = rest at begins
  cases begins with
  | cons layout => exact ⟨_, rfl, layout, fun q hq => valid q (List.mem_cons_of_mem p hq)⟩

theorem Faces.head? (h : Faces seen (p :: more) s) : s.rest.head? = p.text.head? := by
  obtain ⟨text, rest, _, _⟩ := h.split
  obtain ⟨c, behind, p_text, _, _⟩ := Piece.text_solid (h.valid p (by simp))
  rw [rest, p_text]
  rfl

theorem Faces.peek (h : Faces seen (p :: more) s) : Reader.peek s = .ok (p.text.head?, s) := by
  rw [← h.head?]
  rfl

theorem Faces.peek_nil (h : Faces seen [] s) : Reader.peek s = .ok (none, s) := by
  have none : s.rest = [] := by
    obtain ⟨names, begins, valid⟩ := h
    generalize s.rest = rest at begins
    cases begins
    rfl
  show Except.ok (s.rest.head?, s) = _
  rw [none]
  rfl

theorem Faces.skip {c : Char} (h : Faces seen (.mark c :: more) s) :
    ∃ s', Reader.skip s = .ok ((), s') ∧ Stands seen more s' := by
  obtain ⟨text, rest, layout, valid⟩ := h.split
  have tail : s.rest.tail = text := by rw [rest]; rfl
  refine ⟨_, rfl, h.names, ?_, valid⟩
  show Layout false more s.rest.tail
  rw [tail]
  exact layout

theorem Reader.name_ok {word text : List Char} (rest : s.rest = word ++ text)
    (inside : ∀ c ∈ word, isNameChar c) (outside : ∀ c ∈ text.head?, isNameChar c = false) :
    name s = .ok (String.ofList word,
      { s with rest := text, offset := s.offset + Text.size word }) := by
  have stops : text.takeWhile isNameChar = [] ∧ text.dropWhile isNameChar = text := by
    cases text with
    | nil => exact ⟨rfl, rfl⟩
    | cons c text =>
      have stop : ¬ isNameChar c := by simpa using outside c rfl
      rw [List.takeWhile_cons_of_neg stop, List.dropWhile_cons_of_neg stop]
      exact ⟨rfl, rfl⟩
  have taken : s.rest.takeWhile isNameChar = word := by
    rw [rest, List.takeWhile_append_of_pos inside, stops.1, List.append_nil]
  have left : s.rest.dropWhile isNameChar = text := by
    rw [rest, List.dropWhile_append_of_pos inside, stops.2]
  have step : takeWhile isNameChar s
      = .ok (word, { s with rest := text, offset := s.offset + Text.size word }) := by
    rw [takeWhile, taken, left]
  rw [name, bind_ok step]
  rfl

/-- The reader takes just the word that it stands in front of. -/
theorem Reader.name_reads {word : String} {text : List Char} (rest : s.rest = word.toList ++ text)
    (names : s.names = seen.eraseDups) (isName : isName word)
    (layout : Layout true more text) (valid : ∀ p ∈ more, p.isValid) :
    ∃ s', name s = .ok (word, s') ∧ Stands seen more s' := by
  simp only [Query.isName, Bool.and_eq_true, List.all_eq_true] at isName
  have outside (c : Char) (hc : c ∈ text.head?) : isNameChar c = false := by
    cases text with
    | nil => contradiction
    | cons d text =>
      obtain rfl : d = c := by simpa using hc
      exact layout.not_isNameChar valid
  have read := name_ok rest isName.2 outside
  rw [String.ofList_toList] at read
  exact ⟨_, read, names, layout.weaken, valid⟩

theorem Faces.name {word : String} (h : Faces seen (.word word :: more) s) :
    ∃ s', Reader.name s = .ok (word, s') ∧ Stands seen more s' := by
  obtain ⟨text, rest, layout, valid⟩ := h.split
  exact Reader.name_reads rest h.names (h.valid (.word word) (by simp)) layout valid

/-- The sign of a capture, and its name. -/
theorem Faces.capture {word : String} (h : Faces seen (.capture word :: more) s) :
    ∃ s₁ s₂, Reader.skip s = .ok ((), s₁) ∧ Reader.name s₁ = .ok (word, s₂) ∧
      Stands seen more s₂ := by
  obtain ⟨text, rest, layout, valid⟩ := h.split
  have tail : s.rest.tail = word.toList ++ text := by rw [rest]; rfl
  obtain ⟨s₂, read, stands⟩ := Reader.name_reads (s := { s with
    rest := s.rest.tail, offset := s.offset + Text.size (s.rest.take 1) }) tail h.names
    (h.valid (.capture word) (by simp)) layout valid
  exact ⟨_, s₂, rfl, read, stands⟩

/-- The body of a string is what it was before quotes and backslashes were escaped. -/
theorem Reader.stringBody_escape (text rest : List Char) :
    stringBody (Piece.escape text ++ '"' :: rest)
      = some (text, (Piece.escape text).length + 1) := by
  induction text with
  | nil => rfl
  | cons c text ih =>
    have cons : Piece.escape (c :: text)
        = (if c = '"' ∨ c = '\\' then ['\\', c] else [c]) ++ Piece.escape text := rfl
    rw [cons]
    by_cases special : c = '"' ∨ c = '\\'
    · rw [if_pos special]
      rcases special with rfl | rfl <;> simp [stringBody, ih]
    · rw [if_neg special]
      obtain ⟨quote, slash⟩ := not_or.1 special
      rw [List.cons_append, List.nil_append, List.cons_append, stringBody, ih]
      · rfl
      · exact quote
      · exact fun _ _ same => absurd same slash

theorem find?_beq {words : List String} {word : String} (h : word ∈ words) :
    words.find? (· == word) = some word := by
  induction words with
  | nil => contradiction
  | cons first rest ih =>
    by_cases same : first = word
    · rw [List.find?_cons_of_pos (by simpa using same), same]
    · rw [List.find?_cons_of_neg (by simpa using same)]
      exact ih ((List.mem_cons.1 h).resolve_left (Ne.symm same))

theorem Faces.token {kind : String} (h : Faces seen (.quoted kind :: more) s)
    (known : kind ∈ l.anonymousKinds) :
    ∃ s', Reader.token l s = .ok (.node (.token kind) [] [], s') ∧ Stands seen more s' := by
  obtain ⟨text, rest, layout, valid⟩ := h.split
  have tail : s.rest.tail = Piece.escape kind.toList ++ '"' :: text := by
    rw [rest]
    simp [Piece.text]
  have found : l.anonymousKind? kind = some kind := find?_beq known
  have behind : s.rest.tail.drop ((Piece.escape kind.toList).length + 1) = text := by
    rw [tail]
    simp
  refine ⟨⟨text, s.offset + Text.size (s.rest.take 1)
    + Text.size (s.rest.tail.take ((Piece.escape kind.toList).length + 1)), s.names⟩, ?_,
    h.names, layout, valid⟩
  have stays {α : Type} (a : α) (s : Source) :
      (StateT.pure a : Reader α) s = Except.ok (a, s) := rfl
  simp only [Reader.token, Reader.offset, Reader.skip, bind, StateT.bind, Except.bind, get,
    getThe, MonadStateOf.get, StateT.get, pure, Except.pure, stays]
  rw [tail, Reader.stringBody_escape]
  rw [tail] at behind
  simp only [String.ofList_toList, found]
  show Except.ok (_, (⟨List.drop _ _, _, _⟩ : Source)) = _
  rw [behind]

/-- A name is put behind the others unless it is among them, and gets the number of its place. -/
theorem Reader.captureIndex_ok (name : String) (s : Source) :
    ∃ names, names = (if name ∈ s.names then s.names else s.names ++ [name]) ∧
      captureIndex name s = .ok (names.idxOf name, { s with names := names }) := by
  refine ⟨_, rfl, ?_⟩
  by_cases met : name ∈ s.names
  · have found : s.names.findIdx? (· == name) = some (s.names.idxOf name) :=
      List.findIdx?_eq_some_of_exists ⟨name, met, beq_self_eq_true name⟩
    rw [if_pos met]
    simp only [captureIndex, bind, StateT.bind, Except.bind, get, getThe, MonadStateOf.get,
      StateT.get, pure, Except.pure, found]
    rfl
  · have new : s.names.findIdx? (· == name) = none := by
      rw [List.findIdx?_eq_none_iff]
      exact fun other among => beq_false_of_ne fun same => met (same ▸ among)
    rw [if_neg met]
    simp only [captureIndex, bind, StateT.bind, Except.bind, get, getThe, MonadStateOf.get,
      StateT.get, pure, Except.pure, new]
    show Except.ok ((s.names ++ [name]).length - 1, _) = _
    rw [List.idxOf_append_of_notMem met, List.idxOf_cons_self, List.length_append,
      List.length_singleton, Nat.add_sub_cancel, Nat.add_zero]

theorem eraseDups_concat (seen : List String) (name : String) :
    (seen ++ [name]).eraseDups =
      if name ∈ seen.eraseDups then seen.eraseDups else seen.eraseDups ++ [name] := by
  rw [List.eraseDups_append]
  by_cases met : name ∈ seen
  · simp [List.removeAll, met]
  · have single : [name].eraseDups = [name] := by rw [List.eraseDups_cons]; rfl
    simp [List.removeAll, met, single]

/-- Names that are met later do not move those that have been met. -/
theorem idxOf_eraseDups_append {name : String} (met : name ∈ seen) (behind : List String) :
    (seen ++ behind).eraseDups.idxOf name = seen.eraseDups.idxOf name := by
  rw [List.eraseDups_append]
  exact List.idxOf_append_of_mem (List.mem_eraseDups.2 met)

/-- A name gets the number of its place among all names, by their first use. -/
theorem Stands.captureIndex (h : Stands seen pieces s) (name : String) :
    ∃ i s', Reader.captureIndex name s = .ok (i, s') ∧ Stands (seen ++ [name]) pieces s' ∧
      ∀ behind, (seen ++ [name] ++ behind).eraseDups.idxOf name = i := by
  obtain ⟨names, names_eq, read⟩ := Reader.captureIndex_ok name s
  rw [h.names, ← eraseDups_concat] at names_eq
  subst names_eq
  have among : name ∈ seen ++ [name] := List.mem_append_right seen (List.mem_singleton_self name)
  exact ⟨_, _, read, ⟨rfl, h.layout, h.valid⟩, idxOf_eraseDups_append among⟩

/-- The pattern with more captures. -/
def Pattern.withCaptures (indices : List Nat) : Pattern → Pattern
  | .node m children captures => .node m children (captures ++ indices)
  | .oneOf alternatives captures => .oneOf alternatives (captures ++ indices)

theorem Pattern.withCaptures_capture (i : Nat) (indices : List Nat) (p : Pattern) :
    (p.capture i).withCaptures indices = p.withCaptures (i :: indices) := by
  cases p <;> simp [capture, withCaptures]

theorem Pattern.withCaptures_nil (p : Pattern) : p.withCaptures [] = p := by
  cases p <;> simp [withCaptures]

/-- Nothing is captured where no capture is written. -/
theorem Stands.noCapture (p : Pattern) {rounds : Nat} (h : Stands seen more s)
    (last : ∀ q ∈ more.head?, q.isCapture = false) :
    ∃ s', Reader.captures (rounds + 1) p s = .ok (p, s') ∧ Stands seen more s' := by
  obtain ⟨s', skipped, faces⟩ := h.skipBlanks
  refine ⟨s', ?_, faces.stands⟩
  rw [Reader.captures, Reader.bind_ok skipped]
  cases more with
  | nil =>
    rw [Reader.bind_ok faces.peek_nil]
    rfl
  | cons q more =>
    have other := Piece.head_ne_sign (faces.valid q (by simp)) (last q rfl)
    rw [Reader.bind_ok faces.peek]
    rw [if_pos (by simpa using other)]
    rfl

/-- Captures are read up to the first piece that is none. -/
theorem Stands.captures (names : List String) (p : Pattern) {rounds : Nat}
    (enough : names.length < rounds) (h : Stands seen (names.map .capture ++ more) s)
    (last : ∀ q ∈ more.head?, q.isCapture = false) :
    ∃ p' s', Reader.captures rounds p s = .ok (p', s') ∧ Stands (seen ++ names) more s' ∧
      ∀ behind, p' = p.withCaptures (names.map ((seen ++ names ++ behind).eraseDups.idxOf ·)) := by
  induction names generalizing seen s p rounds with
  | nil =>
    obtain ⟨rounds, rfl⟩ : ∃ n, rounds = n + 1 := ⟨rounds - 1, by simp at enough; omega⟩
    obtain ⟨s', read, stands⟩ := h.noCapture p last
    refine ⟨p, s', read, by rwa [List.append_nil], fun behind => ?_⟩
    exact p.withCaptures_nil.symm
  | cons name names ih =>
    obtain ⟨rounds, rfl⟩ : ∃ n, rounds = n + 1 := ⟨rounds - 1, by simp at enough; omega⟩
    obtain ⟨s₀, skipped, faces⟩ := h.skipBlanks
    obtain ⟨s₁, s₂, sign, word, stands⟩ := faces.capture
    obtain ⟨i, s₃, index, stands, number⟩ := stands.captureIndex name
    obtain ⟨p', s', read, stands, numbers⟩ :=
      ih (p.capture i) (by simpa using enough) stands
    have all : seen ++ [name] ++ names = seen ++ name :: names := by simp
    rw [all] at stands numbers
    refine ⟨p', s', ?_, stands, fun behind => ?_⟩
    · have named : name.isEmpty = false := by
        have valid : isName name := faces.valid (.capture name) (by simp)
        simp only [isName, Bool.and_eq_true, Bool.not_eq_true'] at valid
        exact valid.1
      rw [Reader.captures, Reader.bind_ok skipped, Reader.bind_ok faces.peek,
        if_neg (by simp [Piece.text]), Reader.bind_ok sign]
      have start : Reader.offset s₁ = .ok (s₁.offset, s₁) := rfl
      rw [Reader.bind_ok start, Reader.bind_ok word, named]
      rw [if_neg Bool.false_ne_true]
      show (Reader.captureIndex name >>= fun i => Reader.captures rounds (p.capture i)) s₂ = _
      rw [Reader.bind_ok index, read]
    · rw [numbers behind, Pattern.withCaptures_capture, List.map_cons]
      have first := number (names ++ behind)
      rw [← List.append_assoc, all] at first
      rw [first]

end Steps

end RouteScript.Query
