import RouteScript.Proofs.Shapes
/-!
# Tokens tile their text

The tokens of a text stand in it one behind the other, whole characters long, and what they leave
out are blanks and line breaks. Each one knows whether a line break stands between it and the
significant token before. Comments and directives in between may hold line breaks of their own, and
the scan keeps count of those too: it marks a comment with a line break in it, and a directive
always ends where its last line does.
-/
namespace RouteScript.Token

/-- A line break stands between `since` and this offset, or nothing is known to stand before. -/
def BreakSince (text : List Char) (since : Option Nat) (offset : Nat) : Prop :=
  ∀ p, since = some p → '\n' ∈ Text.slice text p offset

/-- Every token says whether a line break stands between it and the significant one before it; the
last of those before the first token ends at `since`. -/
def Breaks (text : List Char) : Option Nat → List Token → Prop
  | _, [] => True
  | since, t :: ts =>
    (t.newlineBefore ↔ BreakSince text since t.start)
      ∧ Breaks text (if t.isSignificant then some t.stop else since) ts

/-- Where the last significant one of some tokens ends. -/
def lastStop (ts : List Token) : Option Nat := ((ts.filter isSignificant).getLast?).map stop

theorem Breaks.of_append {text : List Char} {since : Option Nat} {earlier later : List Token}
    {t : Token} (h : Breaks text since (earlier ++ t :: later)) :
    t.newlineBefore ↔ BreakSince text ((lastStop earlier).or since) t.start := by
  induction earlier generalizing since with
  | nil => exact h.1
  | cons e earlier ih =>
    have kept := ih h.2
    have same : (lastStop earlier).or (if e.isSignificant then some e.stop else since)
        = (lastStop (e :: earlier)).or since := by
      unfold lastStop
      split
      · rename_i significant
        rw [List.filter_cons_of_pos significant, List.getLast?_cons]
        cases (earlier.filter isSignificant).getLast? <;> rfl
      · rename_i trivia
        rw [List.filter_cons_of_neg trivia]
    rwa [same] at kept

/-- What a scan of a text knows of the stretch since the last significant token. -/
structure Scan.Aware (text : List Char) (since : Option Nat) (s : Scan) : Prop where
  place : Spot.In text ⟨s.offset, s.rest⟩
  reach : ∀ p, since = some p → ∃ between, Text.slice? text p s.offset = some between
  sound : s.newline → BreakSince text since s.offset
  /-- A break that the scan did not count is followed by another one. -/
  complete : BreakSince text since s.offset → s.newline ∨ EndsLine s.rest

theorem breakSince_extend {text piece : List Char} {since : Option Nat} {a b : Nat}
    (reach : ∀ p, since = some p → ∃ between, Text.slice? text p a = some between)
    (slice : Text.slice? text a b = some piece) :
    BreakSince text since b ↔ BreakSince text since a ∨ '\n' ∈ piece := by
  cases since with
  | none => simp [BreakSince]
  | some p =>
    obtain ⟨between, before⟩ := reach p rfl
    have whole := Text.slice?_join before slice
    simp [BreakSince, Text.slice, before, whole]

/-- A comment or directive with a line break in it is a block comment, or it ends with its line. -/
theorem Lexeme.Shape.endsLine {lineStart : Bool} {c : Char} {rest : List Char} {kind : Kind}
    {n : Nat} (shape : Shape lineStart c rest kind n) (trivia : kind.isTrivia)
    (inside : '\n' ∈ (c :: rest).take n) : kind = .comment ∨ EndsLine ((c :: rest).drop n) := by
  cases shape with
  | block body => exact .inl rfl
  | line body => exact .inl rfl
  | directive opens body => exact .inr (endsLine_drop_directiveLength _ _)
  | hash other => exact absurd inside (newline_notMem_take_lineLength _)
  | string isQuote rest => split at trivia <;> contradiction
  | number digit rest => contradiction
  | word noDigit word rest => contradiction
  | mark noHash noComment noDirective noQuote noWord =>
    rw [punctuation_significant] at trivia
    contradiction

namespace Scan

variable {text : List Char} {since : Option Nat} {c : Char} {rest : List Char} {offset : Nat}
  {lineStart newline : Bool}

theorem Aware.gap (h : Aware text since ⟨c :: rest, offset, lineStart, newline⟩)
    (lineStart' : Bool) :
    Aware text since ⟨rest, offset + c.utf8Size, lineStart', newline || c = '\n'⟩ := by
  have place : Spot.In text ⟨offset, [c] ++ rest⟩ := h.place
  have slice : Text.slice? text offset (offset + c.utf8Size) = some [c] := place.slice?
  refine ⟨h.place.skip [c], fun p hp => ?_, fun counted => ?_, fun broken => ?_⟩
  · obtain ⟨between, before⟩ := h.reach p hp
    exact ⟨_, Text.slice?_join before slice⟩
  · rw [breakSince_extend h.reach slice]
    simp only [Bool.or_eq_true, decide_eq_true_eq] at counted
    exact counted.imp h.sound (by simp [·])
  · left
    rw [breakSince_extend h.reach slice] at broken
    simp only [Bool.or_eq_true, decide_eq_true_eq]
    rcases broken with broken | here
    · exact (h.complete broken).imp id fun ends => ends c rfl
    · exact .inr (by simpa [eq_comm] using here)

theorem Aware.newline_iff (h : Aware text since ⟨c :: rest, offset, lineStart, newline⟩)
    (other : c ≠ '\n') : newline ↔ BreakSince text since offset :=
  ⟨h.sound, fun broken => (h.complete broken).resolve_right fun ends => other (ends c rfl)⟩

theorem Aware.token {kind : Kind} {n : Nat}
    (h : Aware text since ⟨c :: rest, offset, lineStart, newline⟩) (other : c ≠ '\n')
    (scanned : Lexeme.scan lineStart c rest = (kind, n)) :
    let t : Token := ⟨kind, (c :: rest).take n, offset, newline⟩
    Aware text (if t.isSignificant then some t.stop else since)
      (behind t ((c :: rest).drop n)) := by
  intro t
  have here : Spot.In text ⟨offset, t.text ++ (c :: rest).drop n⟩ := by
    rw [List.take_append_drop]
    exact h.place
  have place : Spot.In text ⟨t.stop, [] ++ (c :: rest).drop n⟩ := here.skip _
  have slice : Text.slice? text offset t.stop = some t.text := here.slice?
  have nothing : Text.slice? text t.stop t.stop = some [] := place.slice?
  by_cases significant : t.isSignificant
  · rw [if_pos significant]
    have noTrivia : t.isTrivia = false := by simpa [isSignificant] using significant
    refine ⟨place, fun p hp => ?_, fun counted => ?_, fun broken => ?_⟩
    · obtain rfl := Option.some.inj hp
      exact ⟨[], nothing⟩
    · simp [behind, noTrivia] at counted
    · have inside := broken t.stop rfl
      simp [behind, Text.slice, nothing] at inside
  · rw [if_neg significant]
    have trivia : t.isTrivia := by simpa [isSignificant] using significant
    refine ⟨place, fun p hp => ?_, fun counted => ?_, fun broken => ?_⟩
    · obtain ⟨between, before⟩ := h.reach p hp
      exact ⟨_, Text.slice?_join before slice⟩
    · rw [behind, breakSince_extend h.reach slice]
      simp only [behind, trivia, Bool.true_and, Bool.or_eq_true, Bool.and_eq_true] at counted
      exact counted.imp h.sound fun both => by simpa using both.2
    · rw [behind, breakSince_extend h.reach slice] at broken
      rcases broken with broken | inside
      · have counted : t.newlineBefore = true := (h.newline_iff other).2 broken
        exact .inl (by simp [behind, trivia, counted])
      · refine ((Lexeme.shape_of_scan scanned).endsLine trivia inside).imp (fun block => ?_) id
        have comment : t.kind = .comment := block
        simp [behind, trivia, comment, inside]

/-- What a scan knows of line breaks the tokens ahead of it tell. -/
theorem Aware.breaks_run {s : Scan} (h : Aware text since s) : Breaks text since (run s) := by
  generalize left : s.rest.length = m
  induction m using Nat.strongRecOn generalizing s since with
  | ind m ih =>
    subst left
    obtain ⟨ahead, offset, lineStart, newline⟩ := s
    cases ahead with
    | nil => trivial
    | cons c rest =>
      by_cases gap : isGap c
      · rw [run_gap gap]
        exact ih rest.length (Nat.lt_succ_self _) (h.gap _) rfl
      · rw [Bool.not_eq_true] at gap
        have other : c ≠ '\n' := by
          rintro rfl
          exact absurd gap (by decide)
        cases scanned : Lexeme.scan lineStart c rest with
        | mk kind n =>
          have pos := (Lexeme.shape_of_scan scanned).pos
          rw [run_token gap scanned]
          refine ⟨h.newline_iff other, ih _ ?_ (h.token other scanned) rfl⟩
          simp only [behind, List.length_drop, List.length_cons]
          omega

end Scan

theorem breaks_all (text : List Char) : Breaks text none (all text) :=
  Scan.Aware.breaks_run (s := ⟨text, 0, true, true⟩)
    ⟨Spot.in_start text, by simp, by simp [BreakSince], by simp⟩

/-- How tokens lie in a text. -/
structure Tile (text : List Char) (ts : List Token) : Prop where
  nonempty : ∀ t ∈ ts, t.start < t.stop
  /-- The ends of a token lie between two characters, and its text stands there. -/
  whole : ∀ t ∈ ts, ∃ before after, text = before ++ t.text ++ after ∧
    Text.size before = t.start ∧ Text.size (before ++ t.text) = t.stop
  /-- In their order, and apart. -/
  ordered : ts.Pairwise fun t u => t.start < u.start ∧ t.stop ≤ u.start
  /-- A character that no token covers is a blank or a line break. -/
  gaps : ∀ before c after, text = before ++ c :: after →
    c ∈ [' ', '\t', '\r', '\x0c', '\n'] ∨
      ∃ t ∈ ts, t.start ≤ Text.size before ∧ Text.size (before ++ [c]) ≤ t.stop
  /-- A token stands on a new line if no significant one precedes it, or a line break stands between
  it and the last that does. -/
  breaks : ∀ earlier t later, ts = earlier ++ t :: later →
    (t.newlineBefore ↔ earlier.filter isSignificant = [] ∨
      ∃ last, (earlier.filter isSignificant).getLast? = some last ∧
        '\n' ∈ Text.slice text last.stop t.start)

/-- The tokens of a text tile it. -/
theorem tile_all (text : List Char) : Tile text (all text) := by
  have cut := allFrom_cut 0 true text
  refine ⟨fun t ht => (cut.bounds t ht).2.1, fun t ht => ?_, ?_, fun before c after eq => ?_,
    fun earlier t later eq => ?_⟩
  · obtain ⟨before, after, eq, start, stop⟩ :=
      Text.slice?_split (cut.slice? (Spot.in_start text) t ht)
    exact ⟨before, after, eq, start, by rw [Text.size_append, start, stop]⟩
  · refine cut.pairwise.imp_of_mem fun ht _ before => ⟨?_, before⟩
    exact Nat.lt_of_lt_of_le (cut.bounds _ ht).2.1 before
  · subst eq
    by_cases gap : Scan.isGap c
    · exact .inl (by simpa [Scan.isGap, or_assoc, or_comm, or_left_comm] using gap)
    · have reach : 0 + Text.size before + c.utf8Size ≤ 0 + Text.size (before ++ c :: after) := by
        simp only [Text.size_append, Text.size_cons]
        omega
      have once := cut.countP_covers gap reach
      obtain ⟨t, ht, covers⟩ := List.countP_pos_iff.1 (once ▸ Nat.one_pos)
      simp only [Cut.covers, Bool.and_eq_true, decide_eq_true_eq, Nat.zero_add] at covers
      exact .inr ⟨t, ht, covers.1, by simpa using covers.2⟩
  · have known := (eq ▸ breaks_all text).of_append
    rw [Option.or_none, lastStop] at known
    rw [known]
    cases last : (earlier.filter isSignificant).getLast? with
    | none => simp [BreakSince, List.getLast?_eq_none_iff.1 last]
    | some t' =>
      have some_token : earlier.filter isSignificant ≠ [] := fun none => by simp [none] at last
      simp [BreakSince, some_token]

end RouteScript.Token
