import RouteScript.Proofs.Format.Reading
/-!
# Tokens behind a line break

A scan that stands at the start of a line is given by the text there and by the token, if any, that
the line starts in. What is read of a whole line says where the scan stands behind it.
-/
namespace RouteScript.Token

open Lexeme

/-- A text is at the end of a line. -/
def EndsLine (text : List Char) : Prop := ∀ c, text.head? = some c → c = '\n'

theorem endsLine_nil : EndsLine [] := by simp [EndsLine]

theorem endsLine_newline (rest : List Char) : EndsLine ('\n' :: rest) := by simp [EndsLine]

theorem EndsLine.cases {text : List Char} (ends : EndsLine text) :
    text = [] ∨ ∃ rest, text = '\n' :: rest := by
  cases text with
  | nil => exact .inl rfl
  | cons c rest => exact .inr ⟨rest, by rw [ends c rfl]⟩

theorem EndsLine.margin {text : List Char} (ends : EndsLine text) : Margin text := by
  rcases ends.cases with rfl | ⟨rest, rfl⟩
  · exact margin_nil
  · exact margin_newline rest

/-- The tokens ahead at the start of a line, behind a token that may go on. -/
def ahead (pending : Option Pending) (offset : Nat) (text : List Char) : List Token :=
  resume pending ⟨text, offset, true, true⟩

theorem EndsLine.run {text : List Char} (ends : EndsLine text) (offset : Nat)
    (lineStart newline : Bool) : Scan.run ⟨text, offset, lineStart, newline⟩
      = Scan.run ⟨text, offset, true, true⟩ := by
  rcases ends.cases with rfl | ⟨rest, rfl⟩
  · rfl
  · rw [Scan.run_gap (by decide), Scan.run_gap (by decide)]
    simp

theorem EndsLine.resume {text : List Char} (ends : EndsLine text) (pending : Option Pending)
    (offset : Nat) (lineStart newline : Bool) :
    resume pending ⟨text, offset, lineStart, newline⟩ = ahead pending offset text := by
  cases pending with
  | none => exact ends.run offset lineStart newline
  | some p => rfl

/-- At a line feed a token ends, or it goes on behind it. -/
def turn : Option Pending → List Token × Option Pending
  | some ⟨t, .directive true⟩ => ([], some ⟨t.extend ['\n'], .directive false⟩)
  | some ⟨t, .block⟩ => ([], some ⟨t.extend ['\n'], .block⟩)
  | some ⟨t, _⟩ => ([t], none)
  | none => ([], none)

/-- How a token goes on behind more of its line. -/
def Carry.past : Carry → List Char → Carry
  | directive escaped, text => directive (escapes escaped text)
  | carry, _ => carry

theorem Carry.Fits.past {carry : Carry} {kind : Kind} (fits : carry.Fits kind) (line : List Char) :
    (carry.past line).Fits kind := by
  rcases fits with trivia | ⟨rfl, kind⟩
  · exact .inl trivia
  · exact .inr ⟨rfl, kind⟩

theorem Carry.length_past {blanks : List Char} (blank : ∀ c ∈ blanks, Text.isBlank c)
    (noBreak : '\n' ∉ blanks) (carry : Carry) (rest : List Char) :
    carry.length (blanks ++ rest) = blanks.length + (carry.past blanks).length rest := by
  cases carry with
  | line => exact lineLength_append noBreak rest
  | block =>
    exact blockLength_blankOrBrace (fun c hc => .inl ⟨blank c hc, fun eq => noBreak (eq ▸ hc)⟩) rest
  | directive escaped => exact directiveLength_append noBreak escaped rest

/-- A token that goes on ends on the line, or it takes all of the line. -/
theorem Carry.length_line {line : List Char} (noBreak : '\n' ∉ line) (carry : Carry) :
    (∃ n ≤ line.length, ∀ rest, Severs rest → carry.length (line ++ rest) = n)
      ∨ ∀ rest, Severs rest →
        carry.length (line ++ rest) = line.length + (carry.past line).length rest := by
  cases carry with
  | line => exact .inr fun rest _ => lineLength_append noBreak rest
  | block => exact blockLength_line line
  | directive escaped => exact .inr fun rest _ => directiveLength_append noBreak escaped rest

namespace Pending

/-- The token with more of its line. -/
def past (p : Pending) (line : List Char) : Pending := ⟨p.token.extend line, p.carry.past line⟩

theorem finish_past {p : Pending} {line rest : List Char} (length : p.carry.length (line ++ rest)
    = line.length + (p.carry.past line).length rest) :
    p.finish (line ++ rest) = (p.past line).finish rest := by
  simp only [finish, length, past, List.take_length_add_append, List.drop_length_add_append,
    extend_extend]

theorem finish_nil (p : Pending) : p.finish [] = [p.token] := by
  simp [finish, extend_nil, Scan.behind, Scan.run_nil]

end Pending

theorem ahead_nil (pending : Option Pending) (offset : Nat) :
    ahead pending offset [] = (pending.map Pending.token).toList := by
  cases pending with
  | none => rfl
  | some p => exact p.finish_nil

theorem ahead_newline {pending : Option Pending} {offset : Nat}
    (stops : ∀ p, pending = some p → p.token.stop = offset) (rest : List Char) :
    ahead pending offset ('\n' :: rest)
      = (turn pending).1 ++ ahead (turn pending).2 (offset + 1) rest := by
  have newline : Scan.isGap '\n' := by decide
  cases pending with
  | none => exact Scan.run_gap newline
  | some p =>
    obtain ⟨t, carry⟩ := p
    have stop : t.stop = offset := stops _ rfl
    have ended (carry : Carry) (length : carry.length ('\n' :: rest) = 0) :
        ahead (some ⟨t, carry⟩) offset ('\n' :: rest)
          = [t] ++ ahead none (offset + 1) rest := by
      simp only [ahead, resume, Pending.finish, length, List.take_zero, List.drop_zero, extend_nil]
      rw [Scan.behind, Scan.run_gap newline, stop]
      simp [show Char.utf8Size '\n' = 1 from rfl]
    have goesOn (carry carry' : Carry)
        (length : carry.length ('\n' :: rest) = 1 + carry'.length rest) :
        ahead (some ⟨t, carry⟩) offset ('\n' :: rest)
          = [] ++ ahead (some ⟨t.extend ['\n'], carry'⟩) (offset + 1) rest := by
      simp only [ahead, resume, Pending.finish, length, extend_extend, Nat.add_comm 1,
        List.take_succ_cons, List.drop_succ_cons, List.nil_append, List.cons_append]
    cases carry with
    | line => exact ended .line (by simp [Carry.length, lineLength])
    | block =>
      refine goesOn .block .block ?_
      rw [Carry.length, blockLength_cons, if_neg (by simp)]
      rfl
    | directive escaped =>
      cases escaped with
      | false => exact ended (.directive false) (by simp [Carry.length, directiveLength])
      | true =>
        exact goesOn (.directive true) (.directive false) (by simp [Carry.length, directiveLength])

/-- What is read of a line from its start to its end: whole tokens, and perhaps one that goes on
at its end. -/
structure Passage (pending : Option Pending) (offset : Nat) (line : List Char) (done : List Token)
    (pending' : Option Pending) : Prop where
  reads : ∀ rest, EndsLine rest → ahead pending offset (line ++ rest)
    = done ++ ahead pending' (offset + Text.size line) rest
  inside : ∀ t ∈ done,
    t.start < t.stop ∧ offset < t.stop ∧ t.stop ≤ offset + Text.size line
  open_ : ∀ p, pending' = some p → p.token.start < offset + Text.size line
    ∧ p.token.stop = offset + Text.size line ∧ p.carry.Fits p.token.kind

theorem EndsLine.margin_append {blanks rest : List Char} (ends : EndsLine rest)
    (blank : ∀ c ∈ blanks, Text.isBlank c) (noBreak : '\n' ∉ blanks) : Margin (blanks ++ rest) := by
  intro c hc
  rw [List.takeWhile_append_of_pos fun d hd => by
    simpa using fun eq : d = '\n' => noBreak (eq ▸ hd)] at hc
  exact (List.mem_append.1 hc).elim (blank c) (ends.margin c)

/-- What is read behind the indentation of a line. -/
theorem Reading.ahead {lead part rest : List Char} {done : List Token}
    {pending : Option Pending} {lineStart newline : Bool}
    (h : Reading true true part done pending lineStart newline)
    (indent : ∀ c ∈ lead, c = ' ' ∨ c = '\t') (margin : Margin rest) (offset : Nat) :
    ahead none offset (lead ++ (part ++ rest)) = done.map (shift (offset + Text.size lead))
      ++ Token.resume (pending.map (Pending.shift (offset + Text.size lead)))
        ⟨rest, offset + Text.size lead + Text.size part, lineStart, newline⟩ := by
  rw [Token.ahead, Token.resume, Scan.run_indent indent, h.reads _ _ (suits_margin pending margin)]

/-- The tokens of a line that starts behind a line break, not inside a token. -/
theorem Reading.passage {lead part blanks : List Char} {done : List Token}
    {pending : Option Pending} {lineStart newline : Bool}
    (h : Reading true true part done pending lineStart newline)
    (indent : ∀ c ∈ lead, c = ' ' ∨ c = '\t') (blank : ∀ c ∈ blanks, Text.isBlank c)
    (noBreak : '\n' ∉ blanks) (gaps : pending = none → ∀ c ∈ blanks, Scan.isGap c)
    (offset : Nat) : Passage none offset (lead ++ (part ++ blanks))
      (done.map (shift (offset + Text.size lead)))
      (pending.map fun p => (p.shift (offset + Text.size lead)).past blanks) := by
  have size : offset + Text.size (lead ++ (part ++ blanks))
      = offset + Text.size lead + Text.size part + Text.size blanks := by
    simp only [Text.size_append]
    omega
  refine ⟨fun rest ends => ?_, fun t ht => ?_, fun p hp => ?_⟩
  · rw [List.append_assoc, List.append_assoc,
      h.ahead indent (ends.margin_append blank noBreak), size]
    congr 1
    cases pending with
    | none =>
      let start := offset + Text.size lead + Text.size part
      obtain ⟨lineStart', skipped⟩ : ∃ lineStart', Scan.run ⟨blanks ++ rest, start, lineStart, newline⟩
          = Scan.run ⟨rest, start + Text.size blanks, lineStart', newline⟩ :=
        Scan.run_gaps (gaps rfl) noBreak rest
      exact skipped.trans (ends.run _ lineStart' newline)
    | some p => exact Pending.finish_past (Carry.length_past blank noBreak p.carry rest)
  · have := h.inside_shift _ t ht
    omega
  · obtain ⟨p, rfl, rfl⟩ := Option.map_eq_some_iff.1 hp
    obtain ⟨starts, stops, fits⟩ := h.open_ p rfl
    refine ⟨?_, ?_, fits.past blanks⟩
    · simp only [Pending.past, Pending.shift, extend_start, shift]
      omega
    · simp only [Pending.past, Pending.shift, extend_stop, shift_stop]
      omega

section Pending

variable {p : Pending} {offset : Nat} {line : List Char}

/-- A line inside a token that goes on behind it. -/
theorem Pending.passage_goesOn (starts : p.token.start < offset) (stops : p.token.stop = offset)
    (fits : p.carry.Fits p.token.kind) (length : ∀ rest, Severs rest →
      p.carry.length (line ++ rest) = line.length + (p.carry.past line).length rest) :
    Passage (some p) offset line [] (some (p.past line)) := by
  refine ⟨fun rest ends => finish_past (length rest ends.margin.severs), by simp, fun q hq => ?_⟩
  obtain rfl := Option.some.inj hq
  refine ⟨?_, ?_, fits.past line⟩
  · simp only [past, extend_start]
    omega
  · simp only [past, extend_stop]
    omega

/-- A line on which the token ends that it starts in. -/
theorem Pending.passage_ends {n : Nat} {done : List Token} {pending : Option Pending}
    {newline lineStart' newline' : Bool} (starts : p.token.start < offset)
    (stops : p.token.stop = offset) (pos : 0 < n) (inside : n ≤ line.length)
    (length : ∀ rest, Severs rest → p.carry.length (line ++ rest) = n)
    (behind : (Scan.behind (p.token.extend (line.take n)) []).newline = newline)
    (h : Reading false newline (line.drop n) done pending lineStart' newline') :
    Passage (some p) offset line (p.token.extend (line.take n)
        :: done.map (Token.shift (offset + Text.size (line.take n))))
      (pending.map (Pending.shift (offset + Text.size (line.take n)))) := by
  have size : Text.size line = Text.size (line.take n) + Text.size (line.drop n) := by
    rw [← Text.size_append, List.take_append_drop]
  have stop : (p.token.extend (line.take n)).stop = offset + Text.size (line.take n) := by
    rw [extend_stop, stops]
  refine ⟨fun rest ends => ?_, List.forall_mem_cons.2 ⟨?_, fun t ht => ?_⟩, fun q hq => ?_⟩
  · have split (rest : List Char) : (Scan.behind (p.token.extend (line.take n)) rest).run
        = Scan.run ⟨rest, offset + Text.size (line.take n), false, newline⟩ := by
      rw [← behind, ← stop]
      rfl
    rw [ahead, resume, finish, length rest ends.margin.severs,
      List.take_append_of_le_length inside, List.drop_append_of_le_length inside, split,
      h.reads _ _ (suits_margin pending ends.margin), ends.resume, List.cons_append, size,
      Nat.add_assoc]
  · have some : 0 < Text.size (line.take n) := Text.size_pos (by
      simp only [ne_eq, List.take_eq_nil_iff, not_or]
      exact ⟨by omega, fun nothing => by simp [nothing] at inside; omega⟩)
    have start : (p.token.extend (line.take n)).start = p.token.start := rfl
    omega
  · have := h.inside_shift _ t ht
    omega
  · obtain ⟨q, rfl, rfl⟩ := Option.map_eq_some_iff.1 hq
    obtain ⟨starts, stops, fits⟩ := h.open_ q rfl
    refine ⟨?_, ?_, fits⟩
    · simp only [shift, Token.shift]
      omega
    · simp only [shift, shift_stop]
      omega

end Pending

/-- The token that a line ends in, if any, with what it takes of the text behind. -/
inductive Closes : Option Pending → List Token → Prop
  | none : Closes none []
  | some (p : Pending) (more : List Char) : Closes (some p) [p.token.extend more]

theorem le_start_run (s : Scan) : ∀ t ∈ s.run, s.offset ≤ t.start :=
  fun t ht => ((Scan.tokens_cut _ s (Nat.le_refl _)).bounds t ht).1

theorem ahead_closes (pending : Option Pending) (offset : Nat) (text : List Char)
    (stops : ∀ p, pending = some p → p.token.stop = offset) :
    ∃ closing later, ahead pending offset text = closing ++ later ∧ Closes pending closing
      ∧ ∀ t ∈ later, offset ≤ t.start := by
  cases pending with
  | none => exact ⟨[], _, rfl, .none, le_start_run _⟩
  | some p =>
    refine ⟨_, _, rfl, .some p _, fun t ht => ?_⟩
    have behind := le_start_run _ t ht
    have stop := stops p rfl
    simp only [Scan.behind, extend_stop] at behind
    omega

/-- Behind the tokens of a line stand those that start on later lines. -/
theorem EndsLine.closes {rest : List Char} (ends : EndsLine rest) {pending : Option Pending}
    {offset : Nat} (stops : ∀ p, pending = some p → p.token.stop = offset) :
    ∃ closing later, ahead pending offset rest = closing ++ later ∧ Closes pending closing
      ∧ ∀ t ∈ later, offset + Text.size (rest.take 1) ≤ t.start := by
  rcases ends.cases with rfl | ⟨rest, rfl⟩
  · obtain ⟨closing, later, eq, closes, starts⟩ := ahead_closes pending offset [] stops
    exact ⟨closing, later, eq, closes, by simpa using starts⟩
  · have turned := ahead_newline stops rest
    have one : Text.size (('\n' :: rest).take 1) = 1 := rfl
    rw [one, turned]
    cases pending with
    | none => exact ⟨[], _, rfl, .none, le_start_run _⟩
    | some p =>
      obtain ⟨t, carry⟩ := p
      have stop : t.stop = offset := stops _ rfl
      have ended : ∃ closing later, [t] ++ ahead none (offset + 1) rest = closing ++ later
          ∧ Closes (some ⟨t, carry⟩) closing ∧ ∀ u ∈ later, offset + 1 ≤ u.start := by
        have whole := Closes.some ⟨t, carry⟩ []
        dsimp only at whole
        rw [extend_nil] at whole
        exact ⟨[t], _, rfl, whole, le_start_run _⟩
      have goesOn (carry' : Carry) : ∃ closing later,
          [] ++ ahead (some ⟨t.extend ['\n'], carry'⟩) (offset + 1) rest = closing ++ later
            ∧ Closes (some ⟨t, carry⟩) closing ∧ ∀ u ∈ later, offset + 1 ≤ u.start := by
        obtain ⟨closing, later, split, closes, starts⟩ := ahead_closes
          (some ⟨t.extend ['\n'], carry'⟩) (offset + 1) rest fun q hq => by
            obtain rfl := Option.some.inj hq
            rw [extend_stop, stop]
            rfl
        refine ⟨closing, later, split, ?_, starts⟩
        cases closes with
        | some _ more =>
          dsimp only
          rw [extend_extend]
          exact .some ⟨t, carry⟩ _
      cases carry with
      | line => exact ended
      | block => exact goesOn .block
      | directive escaped =>
        cases escaped with
        | false => exact ended
        | true => exact goesOn (.directive false)

end RouteScript.Token
