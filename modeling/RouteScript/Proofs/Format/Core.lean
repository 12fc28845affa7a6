import RouteScript.Proofs.Alike.Rules
import RouteScript.Proofs.Format.Line
/-!
# Tokens of a formatted line

Formatting keeps the tokens of a text, but for blanks before line ends in comments, directives and
strings without their closing quotes. It keeps which tokens touch the one before them, too, opening
braces apart. What stands between the blanks at both ends of a line is read alike wherever it
stands. A brace that ends it may have any gap before it: no token reaches over the gap.
-/
namespace RouteScript

namespace Text

/-- A line without the blanks at its end. -/
def unpaddedLine : List Char × Bool → List Char
  | (line, ended) => trimEnd line ++ if ended then ['\n'] else []

/-- A text without the blanks before its line ends; the end of the text is one, too. -/
def unpadded (text : List Char) : List Char := (pieces text).flatMap unpaddedLine

theorem unpadded_line {line : List Char} (noBreak : '\n' ∉ line) : unpadded line = trimEnd line := by
  by_cases nothing : line = []
  · subst nothing
    rfl
  · simp [unpadded, pieces_line noBreak nothing, unpaddedLine]

theorem unpadded_newline (text rest : List Char) :
    unpadded (text ++ '\n' :: rest) = unpadded text ++ '\n' :: unpadded rest := by
  induction text using line_induction with
  | nil => rfl
  | last line noBreak nonempty =>
    rw [unpadded_line noBreak, unpadded, pieces_newline noBreak, List.flatMap_cons, unpaddedLine,
      List.append_assoc]
    rfl
  | line line text noBreak ih =>
    have first (rest : List Char) :
        unpadded (line ++ '\n' :: rest) = trimEnd line ++ '\n' :: unpadded rest := by
      rw [unpadded, pieces_newline noBreak, List.flatMap_cons, unpaddedLine, List.append_assoc]
      rfl
    rw [List.append_assoc, List.cons_append, first, first, ih, List.append_assoc, List.cons_append]

theorem unpadded_append {blanks : List Char} (blank : ∀ c ∈ blanks, isBlank c)
    (noBreak : '\n' ∉ blanks) (text : List Char) : unpadded (text ++ blanks) = unpadded text := by
  induction text using line_induction with
  | nil =>
    rw [List.nil_append, unpadded_line noBreak]
    exact List.rdropWhile_eq_nil_iff.2 blank
  | last line inside nonempty =>
    have noBreak' : '\n' ∉ line ++ blanks := by simp [inside, noBreak]
    rw [unpadded_line noBreak', trimEnd_append blank, unpadded_line inside]
  | line line text inside ih =>
    rw [List.append_assoc, List.cons_append, unpadded_newline, unpadded_newline, ih]

end Text

namespace Token

/-- The same token up to its place and to blanks before line ends, where a token may have them. -/
structure Resembles (t u : Token) : Prop where
  kind : u.kind = t.kind
  newlineBefore : u.newlineBefore = t.newlineBefore
  text : u.text = t.text
    ∨ (t.isTrivia ∨ t.kind = .unterminatedString) ∧ Text.unpadded u.text = Text.unpadded t.text

theorem resembles_shift (d d' : Nat) (t : Token) : Resembles (t.shift d) (t.shift d') :=
  ⟨rfl, rfl, .inl rfl⟩

theorem Resembles.isTrivia {t u : Token} (h : Resembles t u) : u.isTrivia = t.isTrivia :=
  congrArg Kind.isTrivia h.kind

theorem Resembles.isSignificant {t u : Token} (h : Resembles t u) :
    u.isSignificant = t.isSignificant := by rw [Token.isSignificant, h.isTrivia]; rfl

/-- Which significant tokens touch the one before them, the first of them behind an offset. -/
def touches (last : Option Nat) (ts : List Token) : List Bool :=
  (looks last (ts.filter isSignificant)).map Look.touches

theorem touches_trivia {t : Token} (trivia : t.isTrivia) (last : Option Nat) (ts : List Token) :
    touches last (t :: ts) = touches last ts := by
  simp [touches, isSignificant, trivia]

theorem touches_significant {t : Token} (significant : t.isTrivia = false) (last : Option Nat)
    (ts : List Token) : touches last (t :: ts)
      = (last == some t.start && t.kind ≠ .lBrace) :: touches (some t.stop) ts := by
  simp [touches, isSignificant, significant, looks, Look.touches]

/-- The end of the last significant token. -/
def endBehind (last : Option Nat) (ts : List Token) : Option Nat :=
  Script.endOf last (ts.filter isSignificant)

theorem endBehind_trivia {t : Token} (trivia : t.isTrivia) (last : Option Nat) (ts : List Token) :
    endBehind last (t :: ts) = endBehind last ts := by
  simp [endBehind, isSignificant, trivia]

theorem endBehind_significant {t : Token} (significant : t.isTrivia = false) (last : Option Nat)
    (ts : List Token) : endBehind last (t :: ts) = endBehind (some t.stop) ts := by
  simp [endBehind, isSignificant, significant, Script.endOf_cons]

theorem touches_append (last : Option Nat) (ts us : List Token) :
    touches last (ts ++ us) = touches last ts ++ touches (endBehind last ts) us := by
  induction ts generalizing last with
  | nil => rfl
  | cons t ts ih =>
    rw [List.cons_append]
    by_cases trivia : t.isTrivia
    · rw [touches_trivia trivia, touches_trivia trivia, endBehind_trivia trivia, ih]
    · rw [Bool.not_eq_true] at trivia
      rw [touches_significant trivia, touches_significant trivia, endBehind_significant trivia, ih,
        List.cons_append]

theorem endBehind_le {n : Nat} {last : Option Nat} {ts : List Token}
    (low : ∀ m, last = some m → m ≤ n) (inside : ∀ t ∈ ts, t.stop ≤ n) :
    ∀ m, endBehind last ts = some m → m ≤ n := by
  induction ts generalizing last with
  | nil => exact low
  | cons t ts ih =>
    obtain ⟨here, later⟩ := List.forall_mem_cons.1 inside
    by_cases trivia : t.isTrivia
    · rw [endBehind_trivia trivia]
      exact ih low later
    · rw [Bool.not_eq_true] at trivia
      rw [endBehind_significant trivia]
      exact ih (by simpa using here) later

/-- Behind an offset before all of the tokens nothing touches. -/
theorem touches_apart {n : Nat} {last : Option Nat} {ts : List Token}
    (low : ∀ m, last = some m → m < n) (behind : ∀ t ∈ ts, n ≤ t.start) :
    touches last ts = touches none ts := by
  induction ts with
  | nil => rfl
  | cons t ts ih =>
    obtain ⟨here, later⟩ := List.forall_mem_cons.1 behind
    by_cases trivia : t.isTrivia
    · rw [touches_trivia trivia, touches_trivia trivia, ih later]
    · rw [Bool.not_eq_true] at trivia
      have apart : (last == some t.start) = false := by
        rw [beq_eq_false_iff_ne]
        intro eq
        have := low _ eq
        omega
      rw [touches_significant trivia, touches_significant trivia, apart]
      rfl

theorem touches_shift (d : Nat) (last : Option Nat) (ts : List Token) :
    touches (last.map (· + d)) (ts.map (shift d)) = touches last ts := by
  induction ts generalizing last with
  | nil => rfl
  | cons t ts ih =>
    rw [List.map_cons]
    by_cases trivia : t.isTrivia
    · have trivia' : (t.shift d).isTrivia := trivia
      rw [touches_trivia trivia, touches_trivia trivia', ih]
    · rw [Bool.not_eq_true] at trivia
      have trivia' : (t.shift d).isTrivia = false := trivia
      have behind := ih (some t.stop)
      have adjacent : (last.map (· + d) == some (t.shift d).start) = (last == some t.start) := by
        cases last <;> simp [shift]
      rw [touches_significant trivia, touches_significant trivia', adjacent, shift_stop, ← behind]
      rfl

end Token
end RouteScript

namespace RouteScript.Token

open Lexeme

/-- No token starts with a blank. -/
def Visible (ts : List Token) : Prop :=
  ∀ t ∈ ts, ∀ c, t.text.head? = some c → Text.isBlank c = false

instance (ts : List Token) : Decidable (Visible ts) :=
  decidable_of_iff (∀ t ∈ ts, t.text.head?.any Text.isBlank = false) <|
    forall₂_congr fun t _ => by cases t.text.head? <;> simp

theorem visible_shift {d : Nat} {ts : List Token} :
    Visible (ts.map (shift d)) ↔ Visible ts := by
  simp [Visible]

theorem blankOrBrace_opening {gaps : List Char} (blank : ∀ c ∈ gaps, Text.isBlank c)
    (noBreak : '\n' ∉ gaps) : ∀ c ∈ gaps ++ ['{'], BlankOrBrace c := by
  intro c hc
  rcases List.mem_append.1 hc with gap | opening
  · exact .inl ⟨blank c gap, fun eq => noBreak (eq ▸ gap)⟩
  · exact .inr (List.mem_singleton.1 opening)

theorem shift_zero (ts : List Token) : ts.map (shift 0) = ts := List.map_id ts

namespace Reading

variable {lineStart newline lineStart' newline' : Bool} {line core : List Char}
  {done : List Token} {brace : Token}

theorem run_eq (h : Reading lineStart newline line done none lineStart' newline') :
    Scan.run ⟨line, 0, lineStart, newline⟩ = done := by
  have reads := h.reads 0 [] (by simp [Suits, Severs])
  rw [List.append_nil, shift_zero] at reads
  exact reads.trans (List.append_nil done)

/-- A brace token at the end of a stretch without blanks at its end is its last character. -/
theorem eq_append_brace (h : Reading lineStart newline core done none lineStart' newline')
    (bare : Text.Bare core) (last : done.getLast? = some brace) (kind : brace.kind = .lBrace) :
    ∃ before, core = before ++ ['{'] ∧ brace.start = Text.size before := by
  have member : brace ∈ Scan.run ⟨core, 0, lineStart, newline⟩ := by
    rw [h.run_eq]
    exact List.mem_of_getLast? last
  have text : brace.text = ['{'] :=
    (Scan.tokens_spelled _ _ brace member).text "\x7b" (by rw [kind]; rfl)
  have cut := Scan.tokens_cut core.length ⟨core, 0, lineStart, newline⟩ (Nat.le_refl _)
  have place := cut.slice? (Spot.in_start core) brace member
  obtain ⟨before, after, eq, size, -⟩ := Text.slice?_split place
  rw [text] at eq
  obtain ⟨blanks, gaps, front, split, stop⟩ := cut.behind_last (Spot.in_start core)
    ((congrArg List.getLast? h.run_eq).trans last)
  rw [List.append_nil] at split
  have none : blanks = [] := by
    rcases List.eq_nil_or_concat blanks with rfl | ⟨more, c, rfl⟩
    · rfl
    · have blank := isBlank_of_isGap (gaps c (by simp))
      have visible := bare.last c (by rw [split]; simp)
      exact absurd (visible.symm.trans blank) Bool.false_ne_true
  have nothing : after = [] := by
    by_contra nonempty
    have pos := Text.size_pos nonempty
    have whole : Text.size core = Text.size before + 1 + Text.size after := by
      rw [eq, Text.size_append, Text.size_append]
      rfl
    have stops : brace.stop = Text.size before + 1 := by
      rw [Token.stop, text, size]
      rfl
    rw [none, List.append_nil] at split
    rw [← split] at stop
    dsimp only at stop
    omega
  exact ⟨before, by rw [eq, nothing, List.append_nil], size.symm⟩

/-- A line is read in two parts if no token goes on behind the first. -/
theorem append {before : List Char} {front : List Token} {pending : Option Pending}
    {lineStart₁ newline₁ : Bool}
    (part : Reading lineStart newline before front none lineStart₁ newline₁)
    (h : Reading lineStart₁ newline₁ line done pending lineStart' newline')
    (severs : ∀ rest, Severs rest → Severs (line ++ rest)) :
    Reading lineStart newline (before ++ line) (front ++ done.map (shift (Text.size before)))
      (pending.map (Pending.shift (Text.size before))) lineStart' newline' := by
  refine h.after (fun offset rest rests => ?_) part.inside
  rw [part.reads offset _ (severs rest rests)]
  rfl

theorem opening : Reading lineStart newline ['{'] [⟨.lBrace, ['{'], 0, newline⟩] none false false :=
  Reading.token (by decide) Nat.one_pos (Nat.le_refl _)
    (fun rest _ => scan_opening lineStart rest) .nil

/-- Gaps before a brace do not show. -/
theorem gaps_opening {gaps : List Char} (isGap : ∀ c ∈ gaps, Scan.isGap c)
    (noBreak : '\n' ∉ gaps) : Reading lineStart newline (gaps ++ ['{'])
      [⟨.lBrace, ['{'], Text.size gaps, newline⟩] none false false := by
  induction gaps generalizing lineStart with
  | nil => exact opening
  | cons c gaps ih =>
    obtain ⟨here, later⟩ := List.forall_mem_cons.1 isGap
    simp only [List.mem_cons, not_or] at noBreak
    have rest : Reading (lineStart && (c = ' ' || c = '\t')) newline (gaps ++ ['{'])
        [⟨.lBrace, ['{'], Text.size gaps, newline⟩] none false false := ih later noBreak.2
    rw [Text.size_cons, Nat.add_comm]
    exact rest.gap here (Ne.symm noBreak.1)

/-- A token that goes on would take in the brace. -/
theorem pending_none {before gaps : List Char} {front : List Token} {pending : Option Pending}
    {lineStart₁ newline₁ : Bool}
    (h : Reading lineStart newline (before ++ (gaps ++ ['{'])) done none lineStart' newline')
    (last : done.getLast? = some brace) (start : brace.start = Text.size (before ++ gaps))
    (blank : ∀ c ∈ gaps, Text.isBlank c) (noBreak : '\n' ∉ gaps)
    (part : Reading lineStart newline before front pending lineStart₁ newline₁) :
    pending = none := by
  cases pending with
  | none => rfl
  | some p =>
    obtain ⟨u, us, reads, starts, covers⟩ :=
      part.covers p rfl 0 _ [] (blankOrBrace_opening blank noBreak) (by simp)
    have cut := Scan.tokens_cut _ ⟨before ++ (gaps ++ ['{']), 0, lineStart, newline⟩ (Nat.le_refl _)
    rw [List.append_nil, h.run_eq, shift_zero] at reads
    have eq := h.run_eq
    rw [Scan.run] at eq
    rw [eq, reads] at cut
    have ordered := cut.pairwise
    have low : Text.size before ≤ brace.start := by
      rw [start, Text.size_append]
      omega
    have among : brace ∈ u :: us := by
      rw [reads, List.getLast?_append, List.getLast?_cons] at last
      rw [← Option.some.inj last]
      cases us with
      | nil => simp
      | cons v us => simp [List.getLast?_eq_some_getLast]
    rw [← List.append_assoc, Text.size_append] at covers
    have one : Text.size ['{'] = 1 := rfl
    rcases List.mem_cons.1 among with rfl | later
    · omega
    · have behind := List.rel_of_pairwise_cons (List.pairwise_append.1 ordered).2.1 later
      omega

/-- What stands before a brace is read alike whatever gap is between them. -/
theorem before_opening {before : List Char}
    (h : Reading lineStart newline (before ++ ['{']) done none lineStart' newline')
    (last : done.getLast? = some brace) (start : brace.start = Text.size before)
    (visible : Visible done) (noBreak : '\n' ∉ before) :
    ∃ front newline₁, done = front ++ [⟨.lBrace, ['{'], Text.size before, newline₁⟩]
      ∧ ∀ gaps, (∀ c ∈ gaps, Scan.isGap c) → '\n' ∉ gaps →
        Reading lineStart newline (Text.trimEnd before ++ (gaps ++ ['{']))
          (front ++ [⟨.lBrace, ['{'], Text.size (Text.trimEnd before ++ gaps), newline₁⟩])
          none false false := by
  obtain ⟨gaps, split, blank⟩ := Text.trimEnd_split before
  generalize Text.trimEnd before = part at split ⊢
  subst split
  have noBreak' : '\n' ∉ gaps := fun there => noBreak (by simp [there])
  obtain ⟨front, pending, lineStart₁, newline₁, reading⟩ :=
    exists_reading (show '\n' ∉ part from fun there => noBreak (by simp [there])) lineStart newline
  rw [List.append_assoc] at h
  obtain rfl := h.pending_none last start blank noBreak' reading
  have whole (gaps : List Char) (isGap : ∀ c ∈ gaps, Scan.isGap c) (noBreak : '\n' ∉ gaps) :
      Reading lineStart newline (part ++ (gaps ++ ['{']))
        (front ++ [⟨.lBrace, ['{'], Text.size (part ++ gaps), newline₁⟩]) none false false := by
    have blankOrBrace := blankOrBrace_opening (fun c hc => isBlank_of_isGap (isGap c hc)) noBreak
    have brace := reading.append (gaps_opening isGap noBreak) fun rest _ =>
      severs_of_ne_nil blankOrBrace (by simp) rest
    rw [Text.size_append, Nat.add_comm]
    exact brace
  have isGap : ∀ c ∈ gaps, Scan.isGap c := by
    suffices visible' : Visible (Scan.run ⟨gaps ++ ['{'], Text.size part, lineStart₁, newline₁⟩) from
      Scan.isGap_of_run blank visible'
    refine fun t ht => visible t ?_
    have severs := severs_of_ne_nil (blankOrBrace_opening blank noBreak') (by simp) []
    rw [List.append_nil] at severs
    have reads := reading.reads 0 (gaps ++ ['{']) severs
    rw [h.run_eq, Nat.zero_add] at reads
    rw [reads]
    exact List.mem_append_right _ ht
  refine ⟨front, newline₁, ?_, whole⟩
  rw [← h.run_eq, (whole gaps isGap noBreak').run_eq]

end Reading
end RouteScript.Token
