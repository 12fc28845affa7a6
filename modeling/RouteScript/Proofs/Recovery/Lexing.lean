import RouteScript.Proofs.Lexing
/-!
# Scanning line by line

A line without comments is scanned as if it were the whole text, and the scan starts afresh behind
it. Where a text stands shows in the offsets of its tokens only.
-/
namespace RouteScript.Token

/-- The same token `distance` bytes further on. -/
def shift (distance : Nat) (t : Token) : Token := { t with start := t.start + distance }

@[simp] theorem shift_kind (d : Nat) (t : Token) : (t.shift d).kind = t.kind := rfl

@[simp] theorem shift_text (d : Nat) (t : Token) : (t.shift d).text = t.text := rfl

@[simp] theorem shift_word (d : Nat) (t : Token) : (t.shift d).word = t.word := rfl

@[simp] theorem shift_isTrivia (d : Nat) (t : Token) : (t.shift d).isTrivia = t.isTrivia := rfl

@[simp] theorem shift_isSignificant (d : Nat) (t : Token) :
    (t.shift d).isSignificant = t.isSignificant := rfl

@[simp] theorem shift_stop (d : Nat) (t : Token) : (t.shift d).stop = t.stop + d := by
  simp only [stop, shift]
  omega

namespace Lexeme

/-- No word, number or mark goes on into this text: it starts with a blank or a brace. -/
def Severs (text : List Char) : Prop := ∀ c, text.head? = some c → Text.isBlank c ∨ c = '{'

theorem severs_newline (rest : List Char) : Severs ('\n' :: rest) := by
  intro c head
  obtain rfl := Option.some.inj head
  exact .inl (by decide)

theorem isBlank_wordChar {c : Char} (h : isWordChar c) : Text.isBlank c = false := by
  by_contra blank
  simp [Text.isBlank, Char.le_def, Char.ext_iff, UInt32.le_iff_toNat_le,
    ← UInt32.toNat_inj] at blank
  simp only [isWordChar, Char.isAlphanum] at h
  delta Char.isAlpha Char.isUpper Char.isLower at h
  simp [Char.isDigit, Char.ext_iff, UInt32.le_iff_toNat_le, ← UInt32.toNat_inj] at h
  omega

theorem isWordChar_of_isHexDigit {c : Char} (h : isHexDigit c) : isWordChar c := by
  simp only [isHexDigit, Bool.or_eq_true] at h
  rcases h with (digit | lower) | upper
  · exact isWordChar_of_isDigit digit
  · simp only [isWordChar, Char.isAlphanum]
    delta Char.isAlpha Char.isLower
    simp [Char.le_def, UInt32.le_iff_toNat_le] at lower ⊢
    omega
  · simp only [isWordChar, Char.isAlphanum]
    delta Char.isAlpha Char.isUpper
    simp [Char.le_def, UInt32.le_iff_toNat_le] at upper ⊢
    omega

theorem Severs.head {rest : List Char} (severs : Severs rest) :
    ∀ c, rest.head? = some c → isWordChar c = false := by
  intro c head
  rcases severs c head with blank | rfl
  · by_contra word
    rw [Bool.not_eq_false] at word
    exact Bool.false_ne_true ((isBlank_wordChar word).symm.trans blank)
  · decide

theorem numberLength_decimal {c d : Char} (decimal : ¬ (c = '0' ∧ (d = 'x' ∨ d = 'X')))
    (more : List Char) :
    numberLength (c :: d :: more) = runLength Char.isDigit (c :: d :: more) := by
  unfold numberLength
  split
  · rename_i eq
    simp_all
  · rename_i eq
    simp_all
  · rfl

section Severed

variable {rest : List Char} (severs : Severs rest)
include severs

theorem runLength_severed {p : Char → Bool} (wordChars : ∀ c, p c → isWordChar c)
    (line : List Char) : runLength p (line ++ rest) = runLength p line := by
  have stops : ∀ c, rest.head? = some c → p c = false := by
    intro c head
    by_contra inside
    exact Bool.false_ne_true ((severs.head c head).symm.trans (wordChars c (by simpa using inside)))
  induction line with
  | nil =>
    cases rest with
    | nil => rfl
    | cons c rest => simp [runLength, stops c rfl]
  | cons c line ih =>
    by_cases inside : p c
    · simpa [runLength, inside] using ih
    · simp [runLength, inside]

theorem numberLength_severed {c : Char} (digit : c.isDigit) (line : List Char) :
    numberLength (c :: line ++ rest) = numberLength (c :: line) := by
  have digits := runLength_severed severs (fun c => isWordChar_of_isDigit) (c :: line)
  cases line with
  | nil =>
    cases rest with
    | nil => rfl
    | cons d rest =>
      have word := severs.head d rfl
      have decimal : ¬ (c = '0' ∧ (d = 'x' ∨ d = 'X')) := by
        rintro ⟨-, rfl | rfl⟩ <;> exact absurd word (by decide)
      have single : numberLength [c] = runLength Char.isDigit [c] := by
        unfold numberLength
        split <;> simp_all
      rw [List.cons_append, List.nil_append, numberLength_decimal decimal, single]
      exact digits
  | cons d line =>
    by_cases hexadecimal : c = '0' ∧ (d = 'x' ∨ d = 'X')
    · have hexDigits := runLength_severed severs (fun c => isWordChar_of_isHexDigit) line
      obtain ⟨rfl, rfl | rfl⟩ := hexadecimal <;> simpa [numberLength] using hexDigits
    · rw [List.cons_append, List.cons_append, numberLength_decimal hexadecimal,
        numberLength_decimal hexadecimal]
      exact digits

theorem punctuation_severed (c : Char) (line : List Char) :
    punctuation c (line ++ rest) = punctuation c line := by
  cases line with
  | cons d line => rfl
  | nil =>
    have single : rest.head?.bind (pair? c) = none := by
      rw [Option.bind_eq_none_iff]
      intro d head
      have stops := severs d head
      unfold pair?
      split
      all_goals first | rfl | exact absurd stops (by decide)
    simp only [punctuation, List.nil_append, single]
    rfl

end Severed

section Line

variable {line : List Char} (noBreak : '\n' ∉ line) (rest : List Char)

include noBreak

theorem stringLength_line {quote : Char} (isQuote : quote = '"' ∨ quote = '\'') :
    stringLength quote (line ++ '\n' :: rest) = stringLength quote line := by
  fun_induction stringLength quote line with
  | case1 =>
    rcases isQuote with rfl | rfl <;> simp [stringLength]
  | case2 => simp at noBreak
  | case3 c line other ih =>
    have later : '\n' ∉ line := fun there => noBreak (by simp [there])
    simp [stringLength, other, ih later]
  | case4 => simp at noBreak
  | case5 => rcases isQuote with rfl | rfl <;> simp [stringLength]
  | case6 c line noEscape other noQuote ih =>
    have later : '\n' ∉ line := fun there => noBreak (by simp [there])
    by_cases backslash : c = '\\'
    · have nothing : line = [] := by
        cases line with
        | nil => rfl
        | cons d line => exact (noEscape d line backslash rfl).elim
      simp [stringLength, backslash, nothing]
    · simp [stringLength, backslash, other, noQuote, ih later]

omit noBreak in
theorem scan_plain {lineStart : Bool} {c : Char} {text : List Char} (noHash : c ≠ '#')
    (noComment : c = '/' → text.head? ≠ some '*' ∧ text.head? ≠ some '/') :
    scan lineStart c text =
      if lineStart && c = '!' && text.head? = some '!' then
        (.directive, directiveLength false (c :: text))
      else if c = '"' || c = '\'' then
        (if (stringLength c text).1 then .string else .unterminatedString,
          1 + (stringLength c text).2)
      else if c.isDigit then (.number, numberLength (c :: text))
      else if isWordChar c then (.identifier, runLength isWordChar (c :: text))
      else punctuation c text := by
  unfold scan
  split
  · simp at noComment
  · simp at noComment
  · contradiction
  · contradiction
  · rfl

omit noBreak in
theorem plain_of_significant {lineStart : Bool} {c : Char} {text : List Char}
    (significant : (scan lineStart c text).1.isTrivia = false) :
    c ≠ '#' ∧ (c = '/' → text.head? ≠ some '*' ∧ text.head? ≠ some '/') := by
  constructor
  · rintro rfl
    unfold scan at significant
    split at significant <;> contradiction
  · rintro rfl
    constructor
    · intro head
      obtain ⟨more, rfl⟩ := List.head?_eq_some_iff.1 head
      simp [scan, Kind.isTrivia] at significant
    · intro head
      obtain ⟨more, rfl⟩ := List.head?_eq_some_iff.1 head
      simp [scan, Kind.isTrivia] at significant

/-- No token of a line but a comment or directive goes on behind it. -/
theorem scan_line {lineStart : Bool} {c : Char}
    (significant : (scan lineStart c line).1.isTrivia = false) :
    scan lineStart c (line ++ '\n' :: rest) = scan lineStart c line := by
  obtain ⟨noHash, noComment⟩ := plain_of_significant significant
  have head (d : Char) (other : d ≠ '\n') :
      (line ++ '\n' :: rest).head? = some d ↔ line.head? = some d := by
    cases line with
    | nil => simpa using other.symm
    | cons => simp
  have noComment' : c = '/' →
      (line ++ '\n' :: rest).head? ≠ some '*' ∧ (line ++ '\n' :: rest).head? ≠ some '/' := by
    intro slash
    rw [Ne, Ne, head '*' (by decide), head '/' (by decide)]
    exact noComment slash
  rw [scan_plain noHash noComment] at significant ⊢
  rw [scan_plain noHash noComment']
  simp only [head '!' (by decide)]
  split
  · rename_i directive
    simp [directive, Kind.isTrivia] at significant
  · split
    · rename_i quote
      rw [stringLength_line noBreak rest (by simpa using quote)]
    · have severs := severs_newline rest
      have word := runLength_severed severs (fun c word => word) (c :: line)
      rw [← List.cons_append, word, punctuation_severed severs]
      split
      · rename_i digit
        rw [numberLength_severed severs digit]
      · rfl

end Line

theorem runLength_le (p : Char → Bool) (text : List Char) : runLength p text ≤ text.length :=
  (List.takeWhile_prefix p).length_le

theorem numberLength_le (text : List Char) : numberLength text ≤ text.length := by
  unfold numberLength
  split
  · have := runLength_le isHexDigit
    simp only [List.length_cons]
    grind
  · have := runLength_le isHexDigit
    simp only [List.length_cons]
    grind
  · exact runLength_le _ _

theorem stringLength_le (quote : Char) (text : List Char) :
    (stringLength quote text).2 ≤ text.length := by
  fun_induction stringLength quote text <;> simp only [List.length_nil, List.length_cons] <;> omega

theorem punctuation_le (c : Char) (rest : List Char) : (punctuation c rest).2 ≤ rest.length + 1 := by
  unfold punctuation
  cases rest with
  | nil => simp
  | cons d rest =>
    split <;> simp

theorem scan_le {lineStart : Bool} {c : Char} {rest : List Char}
    (significant : (scan lineStart c rest).1.isTrivia = false) :
    (scan lineStart c rest).2 ≤ rest.length + 1 := by
  obtain ⟨noHash, noComment⟩ := plain_of_significant significant
  rw [scan_plain noHash noComment] at significant ⊢
  split
  · rename_i directive
    simp [directive, Kind.isTrivia] at significant
  · have string := stringLength_le c rest
    have number := numberLength_le (c :: rest)
    have word := runLength_le isWordChar (c :: rest)
    have others := punctuation_le c rest
    rw [List.length_cons] at number word
    repeat' split
    all_goals omega

end Lexeme

namespace Scan

theorem token_length_pos (s : Scan) (c : Char) (rest : List Char) :
    0 < (s.token c rest).text.length :=
  List.length_pos_iff.2 (s.token_text c rest).1

/-- More rounds than characters change nothing. -/
theorem tokens_enough {n : Nat} {s : Scan} (enough : s.rest.length ≤ n) :
    tokens n s = tokens s.rest.length s := by
  induction n using Nat.strongRecOn generalizing s with
  | ind n ih =>
    obtain ⟨text, offset, lineStart, newline⟩ := s
    cases text with
    | nil => cases n <;> rfl
    | cons c rest =>
      obtain ⟨n, rfl⟩ : ∃ k, n = k + 1 := ⟨n - 1, by simp at enough; omega⟩
      have fewer : rest.length ≤ n := by simpa using enough
      simp only [List.length_cons, tokens]
      split
      · exact ih n (by omega) fewer
      · have pos := token_length_pos ⟨c :: rest, offset, lineStart, newline⟩ c rest
        have shorter : (beyond ⟨c :: rest, offset, lineStart, newline⟩
            (token ⟨c :: rest, offset, lineStart, newline⟩ c rest)).rest.length ≤ rest.length := by
          simp only [beyond, List.length_drop, List.length_cons]
          omega
        rw [ih n (by omega) (Nat.le_trans shorter fewer)]
        by_cases same : rest.length < n + 1
        · rw [ih rest.length (by omega) shorter]
        · omega

theorem tokens_shift (d n : Nat) (s : Scan) :
    tokens n { s with offset := s.offset + d } = (tokens n s).map (shift d) := by
  induction n generalizing s with
  | zero => rfl
  | succ n ih =>
    obtain ⟨text, offset, lineStart, newline⟩ := s
    cases text with
    | nil => rfl
    | cons c rest =>
      simp only [tokens]
      split
      · rw [← ih]
        simp only [pass]
        rw [Nat.add_right_comm]
      · rw [List.map_cons, ← ih]
        simp only [token, beyond, stop, shift, Nat.add_right_comm offset d]
        rfl

/-- One round of a scan with as many rounds as there are characters. -/
theorem tokens_cons (c : Char) (rest : List Char) (offset : Nat) (lineStart newline : Bool) :
    let s : Scan := ⟨c :: rest, offset, lineStart, newline⟩
    tokens (c :: rest).length s
      = if isGap c then tokens rest.length (s.pass c rest)
        else s.token c rest
          :: tokens (s.beyond (s.token c rest)).rest.length (s.beyond (s.token c rest)) := by
  intro s
  have pos := s.token_length_pos c rest
  have shorter : (s.beyond (s.token c rest)).rest.length ≤ rest.length := by
    simp only [s, beyond, List.length_drop, List.length_cons] at pos ⊢
    omega
  rw [List.length_cons, tokens]
  dsimp only [s]
  rw [← tokens_enough shorter]

/-- The first token of a line is that of every text which starts with the line. -/
theorem token_line {c : Char} {line : List Char} (noBreak : '\n' ∉ line) (rest : List Char)
    (s : Scan) (significant : (s.token c line).isSignificant) :
    token { s with rest := c :: (line ++ '\n' :: rest) } c (line ++ '\n' :: rest) = s.token c line
      ∧ ∃ behind, (s.token c line).text ++ behind = c :: line := by
  have plain : (Lexeme.scan s.lineStart c line).1.isTrivia = false := by
    simpa [Token.isSignificant, Token.isTrivia, token] using significant
  have inside : (Lexeme.scan s.lineStart c line).2 ≤ (c :: line).length := Lexeme.scan_le plain
  refine ⟨?_, _, List.take_append_drop _ _⟩
  simp only [token, Lexeme.scan_line noBreak rest plain]
  rw [← List.cons_append, List.take_append_of_le_length inside]

/-- A line is scanned as if it were the whole text, and the scan starts afresh behind it. -/
theorem tokens_line {line : List Char} (noBreak : '\n' ∉ line) (rest : List Char) {offset : Nat}
    {lineStart newline : Bool}
    (plain : ∀ t ∈ tokens line.length ⟨line, offset, lineStart, newline⟩, t.isSignificant) :
    tokens (line ++ '\n' :: rest).length ⟨line ++ '\n' :: rest, offset, lineStart, newline⟩
      = tokens line.length ⟨line, offset, lineStart, newline⟩
        ++ tokens rest.length ⟨rest, offset + Text.size line + 1, true, true⟩ := by
  generalize left : line.length = n
  induction n using Nat.strongRecOn generalizing line offset lineStart newline with
  | ind n ih =>
    subst left
    cases line with
    | nil =>
      rw [List.nil_append, tokens_cons, if_pos (by decide)]
      simp [tokens, pass, show Char.utf8Size '\n' = 1 from rfl]
    | cons c line =>
      have inside : '\n' ∉ line := fun there => noBreak (by simp [there])
      have other : c ≠ '\n' := by
        rintro rfl
        simp at noBreak
      rw [tokens_cons] at plain ⊢
      rw [List.cons_append, tokens_cons]
      split
      · rename_i gap
        rw [if_pos gap] at plain
        simp only [pass] at plain
        have later := ih line.length (by simp) inside plain rfl
        simpa [pass, Nat.add_assoc] using later
      · rename_i noGap
        rw [if_neg noGap, List.forall_mem_cons] at plain
        obtain ⟨significant, plain⟩ := plain
        obtain ⟨same, behind, text⟩ := token_line inside rest _ significant
        have pos := token_length_pos ⟨c :: line, offset, lineStart, newline⟩ c line
        have start : (token ⟨c :: line, offset, lineStart, newline⟩ c line).start = offset := rfl
        dsimp only at same
        rw [same]
        generalize token ⟨c :: line, offset, lineStart, newline⟩ c line = t at *
        have stop : t.stop + Text.size behind = offset + Text.size (c :: line) := by
          rw [← text, Text.size_append, Token.stop, start, Nat.add_assoc]
        have shorter : behind.length < (c :: line).length := by
          rw [← text, List.length_append]
          omega
        have here : (c :: line).drop t.text.length = behind := by rw [← text, List.drop_left]
        have there : (c :: (line ++ '\n' :: rest)).drop t.text.length = behind ++ '\n' :: rest := by
          rw [← List.cons_append, ← text, List.append_assoc, List.drop_left]
        have later : '\n' ∉ behind := fun more => noBreak (by rw [← text]; simp [more])
        simp only [beyond, here] at plain
        simp only [beyond, here, there, List.cons_append]
        rw [ih behind.length shorter later plain rfl, stop]

/-- The first token behind a line break starts a line. -/
theorem tokens_startsLine {n : Nat} {s : Scan} (newline : s.newline = true) {t : Token}
    (first : (tokens n s).head? = some t) : t.newlineBefore = true := by
  induction n generalizing s with
  | zero => simp [tokens] at first
  | succ n ih =>
    obtain ⟨text, offset, lineStart, _⟩ := s
    dsimp only at newline
    subst newline
    cases text with
    | nil => simp [tokens] at first
    | cons c rest =>
      simp only [tokens] at first
      split at first
      · exact ih rfl first
      · obtain rfl := Option.some.inj first
        rfl

/-- No token on the rest of a line starts a line. -/
theorem tokens_sameLine {n : Nat} {s : Scan} (noBreak : '\n' ∉ s.rest)
    (newline : s.newline = false) : ∀ t ∈ tokens n s, t.newlineBefore = false := by
  induction n generalizing s with
  | zero => simp [tokens]
  | succ n ih =>
    obtain ⟨text, offset, lineStart, _⟩ := s
    dsimp only at noBreak newline
    subst newline
    cases text with
    | nil => simp [tokens]
    | cons c rest =>
      have inside : '\n' ∉ rest := fun there => noBreak (by simp [there])
      simp only [tokens]
      split
      · have other : c ≠ '\n' := by
          rintro rfl
          simp at noBreak
        exact ih inside (by simp [pass, other])
      · have text : '\n' ∉ (token ⟨c :: rest, offset, lineStart, false⟩ c rest).text :=
          fun there => noBreak (List.mem_of_mem_take there)
        have rest_eq : '\n' ∉ (beyond ⟨c :: rest, offset, lineStart, false⟩
            (token ⟨c :: rest, offset, lineStart, false⟩ c rest)).rest :=
          fun there => noBreak (List.mem_of_mem_drop there)
        refine List.forall_mem_cons.2 ⟨rfl, ih rest_eq ?_⟩
        simp [beyond, text]

theorem tokens_behind {n : Nat} {s : Scan} (noBreak : '\n' ∉ s.rest) {t : Token} {ts : List Token}
    (scanned : tokens n s = t :: ts) (significant : t.isSignificant) :
    ∀ u ∈ ts, u.newlineBefore = false := by
  induction n generalizing s with
  | zero => simp [tokens] at scanned
  | succ n ih =>
    obtain ⟨text, offset, lineStart, newline⟩ := s
    dsimp only at noBreak
    cases text with
    | nil => simp [tokens] at scanned
    | cons c rest =>
      simp only [tokens] at scanned
      split at scanned
      · exact ih (fun there => noBreak (List.mem_cons_of_mem c there)) scanned
      · obtain ⟨rfl, rfl⟩ := List.cons.inj scanned
        have trivia : (token ⟨c :: rest, offset, lineStart, newline⟩ c rest).isTrivia = false := by
          simpa [Token.isSignificant] using significant
        refine tokens_sameLine (fun there => noBreak (List.mem_of_mem_drop there)) ?_
        simp [beyond, trivia]

end Scan

/-- Of the tokens of a line the first one starts a line, and no other one does. -/
theorem all_newlines {line : List Char} (noBreak : '\n' ∉ line) {t : Token} {ts : List Token}
    (tokens : all line = t :: ts) (significant : t.isSignificant) :
    t.newlineBefore = true ∧ ∀ u ∈ ts, u.newlineBefore = false := by
  have first : (all line).head? = some t := by
    rw [tokens]
    rfl
  exact ⟨Scan.tokens_startsLine rfl first, Scan.tokens_behind noBreak tokens significant⟩

theorem allFrom_shift (d offset : Nat) (newline : Bool) (text : List Char) :
    allFrom (offset + d) newline text = (allFrom offset newline text).map (shift d) :=
  Scan.tokens_shift d text.length ⟨text, offset, true, newline⟩

/-- The tokens of a line at some place, and of the text behind it. -/
theorem allFrom_line {line : List Char} (noBreak : '\n' ∉ line)
    (plain : ∀ t ∈ all line, t.isSignificant) (offset : Nat) (rest : List Char) :
    allFrom offset true (line ++ '\n' :: rest) = (all line).map (shift offset)
      ++ allFrom (offset + Text.size line + 1) true rest := by
  have moved := allFrom_shift offset 0 true line
  rw [Nat.zero_add] at moved
  rw [all, ← moved]
  refine Scan.tokens_line noBreak rest fun t ht => ?_
  change t ∈ allFrom offset true line at ht
  rw [moved] at ht
  obtain ⟨u, hu, rfl⟩ := List.mem_map.1 ht
  exact plain u hu

end RouteScript.Token
