import RouteScript.Proofs.Recovery.Lexing
/-!
# Lexemes at the end of a line

A lexeme on a line either ends there, and then blanks or a brace behind it do not matter, or it
takes all of the line. In the second case it goes on through the blanks at the end of the line, and
a block comment or a directive may go on through the lines behind.
-/
namespace RouteScript.Token

/-- How a token goes on behind what was read of it. -/
inductive Carry where
  /-- To the end of the line. -/
  | line
  /-- To the mark that closes a block comment. -/
  | block
  /-- To the end of a line that is not continued. -/
  | directive (escaped : Bool)
  deriving DecidableEq

namespace Lexeme

/-- Nothing but blanks stands before the end of the line. -/
def Margin (text : List Char) : Prop := ∀ c ∈ text.takeWhile (· ≠ '\n'), Text.isBlank c

/-- A character inside a line that neither ends a comment or string nor escapes another one. -/
def BlankOrBrace (c : Char) : Prop := Text.isBlank c ∧ c ≠ '\n' ∨ c = '{'

theorem ne_of_isBlank {c d : Char} (blank : Text.isBlank c) (h : Text.isBlank d = false) :
    c ≠ d := by
  rintro rfl
  exact Bool.false_ne_true (h.symm.trans blank)

theorem BlankOrBrace.ne {c d : Char} (blankOrBrace : BlankOrBrace c) (h : Text.isBlank d = false)
    (brace : d ≠ '{') :
    c ≠ d := by
  rcases blankOrBrace with ⟨blank, -⟩ | rfl
  · exact ne_of_isBlank blank h
  · exact brace.symm

theorem BlankOrBrace.ne_newline {c : Char} (blankOrBrace : BlankOrBrace c) : c ≠ '\n' := by
  rcases blankOrBrace with ⟨-, other⟩ | rfl
  · exact other
  · decide

theorem severs_of_blankOrBrace {c : Char} (blankOrBrace : BlankOrBrace c)
    (rest : List Char) : Severs (c :: rest) := by
  intro d head
  obtain rfl := Option.some.inj head
  exact blankOrBrace.imp And.left id

theorem newline_notMem_of_blankOrBrace {inner : List Char}
    (blankOrBrace : ∀ c ∈ inner, BlankOrBrace c) :
    '\n' ∉ inner :=
  fun there => (blankOrBrace _ there).ne_newline rfl

theorem margin_nil : Margin [] := by simp [Margin]

theorem margin_newline (rest : List Char) : Margin ('\n' :: rest) := by simp [Margin]

theorem margin_cons {c : Char} {rest : List Char} (other : c ≠ '\n') :
    Margin (c :: rest) ↔ Text.isBlank c ∧ Margin rest := by
  simp [Margin, other]

theorem Margin.severs {text : List Char} (margin : Margin text) : Severs text := by
  cases text with
  | nil => simp [Severs]
  | cons c rest =>
    by_cases newline : c = '\n'
    · subst newline
      exact severs_newline rest
    · exact severs_of_blankOrBrace (.inl ⟨((margin_cons newline).1 margin).1, newline⟩) rest

theorem Severs.head_append {text : List Char} (severs : Severs text) {d : Char}
    (visible : Text.isBlank d = false) (brace : d ≠ '{') (line : List Char) :
    (line ++ text).head? = some d ↔ line.head? = some d := by
  cases line with
  | cons c line => simp
  | nil =>
    simp only [List.nil_append, List.head?_nil, reduceCtorEq, iff_false]
    intro head
    rcases severs d head with blank | rfl
    · exact Bool.false_ne_true (visible.symm.trans blank)
    · exact brace rfl

theorem lineLength_append {line : List Char} (noBreak : '\n' ∉ line) (rest : List Char) :
    lineLength (line ++ rest) = line.length + lineLength rest := by
  have inside : ∀ c ∈ line, decide (c ≠ '\n') = true := by
    intro c hc
    simpa using fun eq : c = '\n' => noBreak (eq ▸ hc)
  rw [lineLength, List.takeWhile_append_of_pos inside, List.length_append, lineLength]

/-- Whether a line feed behind this is escaped; carriage returns may stand between. -/
def escapes (escaped : Bool) (line : List Char) : Bool :=
  line.foldl (fun escaped c => c = '\\' || (escaped && c = '\r')) escaped

theorem escapes_append (escaped : Bool) (line line' : List Char) :
    escapes escaped (line ++ line') = escapes (escapes escaped line) line' := List.foldl_append

theorem last_of_escapes {line : List Char} (escaped : escapes false line) :
    ∀ c, line.getLast? = some c → c = '\\' ∨ c = '\r' := by
  intro c last
  obtain ⟨front, rfl⟩ := List.getLast?_eq_some_iff.1 last
  simp only [escapes, List.foldl_append, List.foldl_cons, List.foldl_nil, Bool.or_eq_true,
    Bool.and_eq_true, decide_eq_true_eq] at escaped
  exact escaped.imp id And.right

theorem escapes_blank {blanks : List Char} (blank : ∀ c ∈ blanks, Text.isBlank c) :
    escapes false blanks = false := by
  induction blanks with
  | nil => rfl
  | cons c blanks ih =>
    obtain ⟨here, later⟩ := List.forall_mem_cons.1 blank
    have other : c ≠ '\\' := ne_of_isBlank here (by decide)
    simpa [escapes, other] using ih later

theorem directiveLength_append {line : List Char} (noBreak : '\n' ∉ line) (escaped : Bool)
    (rest : List Char) : directiveLength escaped (line ++ rest)
      = line.length + directiveLength (escapes escaped line) rest := by
  induction line generalizing escaped with
  | nil => simp [escapes]
  | cons c line ih =>
    simp only [List.mem_cons, not_or] at noBreak
    rw [List.cons_append, directiveLength, if_neg (Ne.symm noBreak.1), ih noBreak.2,
      List.length_cons, escapes, escapes, List.foldl_cons]
    omega

theorem blockLength_cons (c : Char) (rest : List Char) : blockLength (c :: rest)
    = if c = '*' ∧ rest.head? = some '/' then 2 else 1 + blockLength rest := by
  rw [blockLength.eq_def]
  split
  · contradiction
  · rename_i eq
    obtain ⟨rfl, rfl⟩ := List.cons.inj eq
    simp
  · rename_i noMark eq
    obtain ⟨rfl, rfl⟩ := List.cons.inj eq
    rw [if_neg]
    rintro ⟨rfl, head⟩
    obtain ⟨more, rfl⟩ := List.head?_eq_some_iff.1 head
    exact noMark more rfl rfl

theorem blockLength_blankOrBrace {inner : List Char} (blankOrBrace : ∀ c ∈ inner, BlankOrBrace c)
    (rest : List Char) :
    blockLength (inner ++ rest) = inner.length + blockLength rest := by
  induction inner with
  | nil => simp
  | cons c inner ih =>
    obtain ⟨here, later⟩ := List.forall_mem_cons.1 blankOrBrace
    have noStar : ¬ (c = '*' ∧ (inner ++ rest).head? = some '/') :=
      fun star => here.ne (d := '*') (by decide) (by decide) star.1
    rw [List.cons_append, blockLength_cons, if_neg noStar, ih later, List.length_cons]
    omega

/-- A block comment ends on the line, or it takes all of the line and goes on. -/
theorem blockLength_line (line : List Char) :
    (∃ n ≤ line.length, ∀ rest, Severs rest → blockLength (line ++ rest) = n)
      ∨ ∀ rest, Severs rest → blockLength (line ++ rest) = line.length + blockLength rest := by
  induction line with
  | nil => exact .inr (by simp)
  | cons c line ih =>
    have head {rest : List Char} (severs : Severs rest) :
        (line ++ rest).head? = some '/' ↔ line.head? = some '/' :=
      severs.head_append (by decide) (by decide) line
    by_cases mark : c = '*' ∧ line.head? = some '/'
    · refine .inl ⟨2, ?_, fun rest severs => ?_⟩
      · obtain ⟨more, rfl⟩ := List.head?_eq_some_iff.1 mark.2
        simp
      · rw [List.cons_append, blockLength_cons, if_pos ⟨mark.1, (head severs).2 mark.2⟩]
    · have step {rest : List Char} (severs : Severs rest) :
          blockLength (c :: line ++ rest) = 1 + blockLength (line ++ rest) := by
        rw [List.cons_append, blockLength_cons,
          if_neg fun star => mark ⟨star.1, (head severs).1 star.2⟩]
      rcases ih with ⟨n, inside, ends⟩ | open_
      · refine .inl ⟨1 + n, ?_, fun rest severs => ?_⟩
        · rw [List.length_cons]
          omega
        · rw [step severs, ends rest severs]
      · refine .inr fun rest severs => ?_
        rw [step severs, open_ rest severs, List.length_cons]
        omega

section String

variable {quote : Char}

theorem stringLength_plain {c : Char} (plain : c ≠ '\\') (rest : List Char) :
    stringLength quote (c :: rest) = if c = '\n' then (false, 0) else if c = quote then (true, 1)
      else ((stringLength quote rest).1, 1 + (stringLength quote rest).2) := by
  rw [stringLength.eq_def]
  split
  · contradiction
  · rename_i eq
    exact absurd (List.cons.inj eq).1 plain
  · rename_i eq
    obtain ⟨rfl, rfl⟩ := List.cons.inj eq
    rfl

theorem stringLength_escape {c : Char} (other : c ≠ '\n') (rest : List Char) :
    stringLength quote ('\\' :: c :: rest)
      = ((stringLength quote rest).1, 2 + (stringLength quote rest).2) := by
  rw [stringLength, if_neg other]

variable (isQuote : quote = '"' ∨ quote = '\'')
include isQuote

theorem stringLength_step {c : Char} (other : c ≠ '\n') (blank : Text.isBlank c ∨ c = '{')
    (rest : List Char) : stringLength quote (c :: rest)
      = ((stringLength quote rest).1, 1 + (stringLength quote rest).2) := by
  have blankOrBrace : BlankOrBrace c := blank.imp (⟨·, other⟩) id
  have noQuote : c ≠ quote := by
    rcases isQuote with rfl | rfl
    · exact blankOrBrace.ne (by decide) (by decide)
    · exact blankOrBrace.ne (by decide) (by decide)
  rw [stringLength_plain (blankOrBrace.ne (by decide) (by decide)), if_neg other, if_neg noQuote]

theorem stringLength_margin {text : List Char} (margin : Margin text) :
    stringLength quote text = (false, lineLength text) := by
  induction text with
  | nil => rfl
  | cons c rest ih =>
    by_cases newline : c = '\n'
    · subst newline
      rw [stringLength_plain (by decide), if_pos rfl]
      rfl
    · obtain ⟨blank, later⟩ := (margin_cons newline).1 margin
      rw [stringLength_step isQuote newline (.inl blank), ih later]
      simp [lineLength, newline, Nat.add_comm]

theorem le_stringLength {inner : List Char} (blankOrBrace : ∀ c ∈ inner, BlankOrBrace c)
    (rest : List Char) :
    inner.length ≤ (stringLength quote (inner ++ rest)).2 := by
  induction inner with
  | nil => simp
  | cons c inner ih =>
    obtain ⟨here, later⟩ := List.forall_mem_cons.1 blankOrBrace
    have step := stringLength_step isQuote here.ne_newline (here.imp And.left id) (inner ++ rest)
    have length := ih later
    rw [List.cons_append, step, List.length_cons]
    omega

theorem stringLength_backslash {text : List Char} (margin : Margin text) :
    stringLength quote ('\\' :: text) = (false, 1 + lineLength text) := by
  have noQuote : '\\' ≠ quote := by rcases isQuote with rfl | rfl <;> decide
  cases text with
  | nil => simp [stringLength, noQuote, lineLength]
  | cons c rest =>
    by_cases newline : c = '\n'
    · simp [newline, stringLength, lineLength]
    · rw [stringLength_escape newline,
        stringLength_margin isQuote ((margin_cons newline).1 margin).2]
      simp [lineLength, newline]
      omega

theorem le_stringLength_backslash {inner : List Char} (blankOrBrace : ∀ c ∈ inner, BlankOrBrace c)
    (rest : List Char) : 1 + inner.length ≤ (stringLength quote ('\\' :: (inner ++ rest))).2 := by
  have noQuote : '\\' ≠ quote := by rcases isQuote with rfl | rfl <;> decide
  cases inner with
  | nil =>
    cases rest with
    | nil => simp [stringLength, noQuote]
    | cons c rest =>
      simp only [List.nil_append, List.length_nil, stringLength]
      split
      · omega
      · dsimp only
        omega
  | cons c inner =>
    obtain ⟨here, later⟩ := List.forall_mem_cons.1 blankOrBrace
    have length := le_stringLength isQuote later rest
    rw [List.cons_append, stringLength_escape here.ne_newline, List.length_cons]
    dsimp only
    omega

/-- A string closes on the line, or it takes all of the line and ends there without its quote. -/
def StringEnds (quote : Char) (line : List Char) : Prop :=
  (∃ n ≤ line.length, ∀ rest, stringLength quote (line ++ rest) = (true, n))
    ∨ (∀ rest, Margin rest →
        stringLength quote (line ++ rest) = (false, line.length + lineLength rest))
      ∧ ∀ inner rest, (∀ c ∈ inner, BlankOrBrace c) →
        line.length + inner.length ≤ (stringLength quote (line ++ (inner ++ rest))).2

omit isQuote in
theorem StringEnds.step {line whole : List Char} {k : Nat} (length : whole.length = k + line.length)
    (step : ∀ rest, stringLength quote (whole ++ rest)
      = ((stringLength quote (line ++ rest)).1, k + (stringLength quote (line ++ rest)).2))
    (h : StringEnds quote line) : StringEnds quote whole := by
  simp only [StringEnds, step, length]
  rcases h with ⟨n, inside, closes⟩ | ⟨margins, covers⟩
  · refine .inl ⟨k + n, by omega, fun rest => ?_⟩
    rw [closes]
  · refine .inr ⟨fun rest margin => ?_, fun inner rest blankOrBrace => ?_⟩
    · rw [margins rest margin, Prod.mk.injEq]
      exact ⟨rfl, by omega⟩
    · have := covers inner rest blankOrBrace
      omega

theorem stringLength_ends {line : List Char} (noBreak : '\n' ∉ line) : StringEnds quote line := by
  fun_induction stringLength quote line with
  | case1 =>
    refine .inr ⟨fun rest margin => ?_, fun inner rest blankOrBrace => ?_⟩
    · simpa using stringLength_margin isQuote margin
    · simpa using le_stringLength isQuote blankOrBrace rest
  | case2 => simp at noBreak
  | case3 c line other ih =>
    have later : '\n' ∉ line := fun there => noBreak (by simp [there])
    refine .step (k := 2) ?_ (fun rest => stringLength_escape other (line ++ rest)) (ih later)
    simp only [List.length_cons]
    omega
  | case4 => simp at noBreak
  | case5 line noEscape other =>
    refine .inl ⟨1, by simp, fun rest => ?_⟩
    have plain : quote ≠ '\\' := by rcases isQuote with rfl | rfl <;> decide
    rw [List.cons_append, stringLength_plain plain, if_neg other, if_pos rfl]
  | case6 c line noEscape other noQuote ih =>
    have later : '\n' ∉ line := fun there => noBreak (by simp [there])
    by_cases backslash : c = '\\'
    · subst backslash
      obtain rfl : line = [] := by
        cases line with
        | nil => rfl
        | cons d line => exact (noEscape d line rfl rfl).elim
      refine .inr ⟨fun rest margin => ?_, fun inner rest blankOrBrace => ?_⟩
      · simpa using stringLength_backslash isQuote margin
      · simpa using le_stringLength_backslash isQuote blankOrBrace rest
    · refine .step (k := 1) ?_ (fun rest => ?_) (ih later)
      · rw [List.length_cons, Nat.add_comm]
      · rw [List.cons_append, stringLength_plain backslash, if_neg other, if_neg noQuote]

end String
end Lexeme

/-- The characters of what follows that belong to the token. -/
def Carry.length : Carry → List Char → Nat
  | line, text => Lexeme.lineLength text
  | block, text => Lexeme.blockLength text
  | directive escaped, text => Lexeme.directiveLength escaped text

/-- Strings without their closing quote end with their line; other tokens that go on are trivia. -/
def Carry.Fits (carry : Carry) (kind : Kind) : Prop :=
  kind.isTrivia ∨ carry = .line ∧ kind = .unterminatedString

namespace Lexeme

/-- What becomes of a lexeme that starts with `c` when `line` is the rest of its line. -/
inductive Outcome (lineStart : Bool) (c : Char) (line : List Char) : Prop
  /-- It ends on the line. -/
  | ends (kind : Kind) (n : Nat) (inside : n ≤ line.length + 1)
    (scans : ∀ rest, Severs rest → scan lineStart c (line ++ rest) = (kind, n))
  /-- It takes all of the line, the blanks behind it, and any brace that would stand there. -/
  | goesOn (kind : Kind) (carry : Carry) (fits : carry.Fits kind)
    (escaped : carry = .directive true → ∀ d, (c :: line).getLast? = some d → d = '\\' ∨ d = '\r')
    (scans : ∀ rest, Margin rest →
      scan lineStart c (line ++ rest) = (kind, line.length + 1 + carry.length rest))
    (covers : ∀ inner rest, (∀ d ∈ inner, BlankOrBrace d) → inner ≠ [] →
      line.length + 1 + inner.length ≤ (scan lineStart c (line ++ (inner ++ rest))).2)

theorem severs_of_ne_nil {inner : List Char} (blankOrBrace : ∀ c ∈ inner, BlankOrBrace c)
    (some : inner ≠ [])
    (rest : List Char) : Severs (inner ++ rest) := by
  cases inner with
  | nil => contradiction
  | cons c inner => exact severs_of_blankOrBrace (blankOrBrace c (by simp)) _

section Outcome

variable {lineStart : Bool} {c : Char} {line : List Char} (noBreak : '\n' ∉ c :: line)
include noBreak

theorem outcome_line {kind : Kind} (fits : Carry.line.Fits kind) (scans : ∀ rest, Severs rest →
    scan lineStart c (line ++ rest) = (kind, lineLength (c :: line ++ rest))) :
    Outcome lineStart c line := by
  refine .goesOn kind .line fits (by simp) (fun rest margin => ?_)
    (fun inner rest blankOrBrace some => ?_)
  · rw [scans rest margin.severs, lineLength_append noBreak]
    rfl
  · rw [scans _ (severs_of_ne_nil blankOrBrace some rest), lineLength_append noBreak,
      lineLength_append (newline_notMem_of_blankOrBrace blankOrBrace), List.length_cons]
    omega

theorem outcome_directive (scans : ∀ rest, Severs rest → scan lineStart c (line ++ rest)
    = (.directive, directiveLength false (c :: line ++ rest))) : Outcome lineStart c line := by
  refine .goesOn .directive (.directive (escapes false (c :: line))) (.inl rfl)
    (fun escaped => last_of_escapes (Carry.directive.inj escaped)) (fun rest margin => ?_)
      (fun inner rest blankOrBrace some => ?_)
  · rw [scans rest margin.severs, directiveLength_append noBreak]
    rfl
  · rw [scans _ (severs_of_ne_nil blankOrBrace some rest), directiveLength_append noBreak,
      directiveLength_append (newline_notMem_of_blankOrBrace blankOrBrace), List.length_cons]
    omega

omit noBreak in
theorem outcome_block (body : List Char) : Outcome lineStart '/' ('*' :: body) := by
  have scans (rest : List Char) : scan lineStart '/' ('*' :: body ++ rest)
      = (.comment, 2 + blockLength (body ++ rest)) := rfl
  rcases blockLength_line body with ⟨n, inside, ends⟩ | open_
  · refine .ends .comment (2 + n) (by rw [List.length_cons]; omega) fun rest severs => ?_
    rw [scans, ends rest severs]
  · refine .goesOn .comment .block (.inl rfl) (by simp) (fun rest margin => ?_)
      (fun inner rest blankOrBrace some => ?_)
    · rw [scans, open_ rest margin.severs, List.length_cons, Carry.length, Prod.mk.injEq]
      exact ⟨rfl, by omega⟩
    · rw [scans, open_ _ (severs_of_ne_nil blankOrBrace some rest),
        blockLength_blankOrBrace blankOrBrace, List.length_cons]
      dsimp only
      omega

theorem outcome_string (isQuote : c = '"' ∨ c = '\'') : Outcome lineStart c line := by
  have scans (rest : List Char) : scan lineStart c (line ++ rest)
      = (if (stringLength c (line ++ rest)).1 then .string else .unterminatedString,
        1 + (stringLength c (line ++ rest)).2) := by
    rcases isQuote with rfl | rfl <;> rw [scan_plain (by decide) (by simp)] <;> simp
  rcases stringLength_ends isQuote (fun there => noBreak (List.mem_cons_of_mem c there))
    with ⟨n, inside, closes⟩ | ⟨margins, covers⟩
  · refine .ends .string (1 + n) (by omega) fun rest _ => ?_
    rw [scans, closes]
    rfl
  · refine .goesOn .unterminatedString .line (.inr ⟨rfl, rfl⟩) (by simp) (fun rest margin => ?_)
      (fun inner rest blankOrBrace _ => ?_)
    · rw [scans, margins rest margin, if_neg (by simp), Carry.length, Prod.mk.injEq]
      exact ⟨rfl, by omega⟩
    · have length := covers inner rest blankOrBrace
      rw [scans]
      dsimp only
      omega

omit noBreak in
/-- Numbers, words and punctuation end on their line. -/
theorem outcome_plain (noHash : c ≠ '#')
    (noComment : c = '/' → line.head? ≠ some '*' ∧ line.head? ≠ some '/')
    (noDirective : ¬ (lineStart && c = '!' && line.head? = some '!'))
    (noQuote : ¬ (c = '"' ∨ c = '\'')) : Outcome lineStart c line := by
  have scans (rest : List Char) (severs : Severs rest) : scan lineStart c (line ++ rest)
      = if c.isDigit then (.number, numberLength (c :: line))
        else if isWordChar c then (.identifier, runLength isWordChar (c :: line))
        else punctuation c line := by
    have noComment' : c = '/' →
        (line ++ rest).head? ≠ some '*' ∧ (line ++ rest).head? ≠ some '/' := by
      rw [Ne, Ne, severs.head_append (by decide) (by decide),
        severs.head_append (by decide) (by decide)]
      exact noComment
    have word := runLength_severed severs (fun c word => word) (c :: line)
    rw [scan_plain noHash noComment']
    simp only [severs.head_append (show Text.isBlank '!' = false by decide) (by decide)]
    rw [if_neg noDirective, if_neg (by simpa using noQuote), ← List.cons_append, word,
      punctuation_severed severs]
    split
    · rename_i digit
      rw [numberLength_severed severs digit]
    · rfl
  have number := numberLength_le (c :: line)
  have word := runLength_le isWordChar (c :: line)
  have others := punctuation_le c line
  rw [List.length_cons] at number word
  have inside : (if c.isDigit then (Kind.number, numberLength (c :: line))
      else if isWordChar c then (.identifier, runLength isWordChar (c :: line))
      else punctuation c line).2 ≤ line.length + 1 := by
    repeat' split
    all_goals assumption
  exact .ends _ _ inside scans

theorem outcome (lineStart : Bool) : Outcome lineStart c line := by
  have head (d : Char) (visible : Text.isBlank d = false) (brace : d ≠ '{') :
      ∀ rest, Severs rest → ((line ++ rest).head? = some d ↔ line.head? = some d) :=
    fun rest severs => severs.head_append visible brace line
  by_cases hash : c = '#'
  · subst hash
    by_cases bang : line.head? = some '!'
    · obtain ⟨body, rfl⟩ := List.head?_eq_some_iff.1 bang
      exact outcome_directive noBreak fun rest _ => rfl
    · have fits : Carry.line.Fits .deprecatedComment := .inl rfl
      refine outcome_line noBreak fits fun rest severs => ?_
      have noBang := (head '!' (by decide) (by decide) rest severs).not.2 bang
      rw [List.cons_append]
      generalize line ++ rest = text at noBang
      unfold scan
      split <;> simp_all
  · by_cases comment : c = '/' ∧ (line.head? = some '*' ∨ line.head? = some '/')
    · obtain ⟨rfl, block | rest⟩ := comment
      · obtain ⟨body, rfl⟩ := List.head?_eq_some_iff.1 block
        exact outcome_block body
      · obtain ⟨body, rfl⟩ := List.head?_eq_some_iff.1 rest
        exact outcome_line noBreak (.inl rfl) fun rest _ => rfl
    · have noComment : c = '/' → line.head? ≠ some '*' ∧ line.head? ≠ some '/' :=
        fun slash => not_or.1 fun opens => comment ⟨slash, opens⟩
      by_cases directive : lineStart && c = '!' && line.head? = some '!'
      · refine outcome_directive noBreak fun rest severs => ?_
        have noComment' : c = '/' →
            (line ++ rest).head? ≠ some '*' ∧ (line ++ rest).head? ≠ some '/' := by
          rw [Ne, Ne, head '*' (by decide) (by decide) rest severs,
            head '/' (by decide) (by decide) rest severs]
          exact noComment
        rw [scan_plain hash noComment']
        simp only [head '!' (by decide) (by decide) rest severs]
        rw [if_pos directive]
        rfl
      · by_cases quote : c = '"' ∨ c = '\''
        · exact outcome_string noBreak quote
        · exact outcome_plain hash noComment directive quote

end Outcome
end Lexeme
end RouteScript.Token
