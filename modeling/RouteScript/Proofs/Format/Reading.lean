import RouteScript.Proofs.Format.Lexeme
/-!
# Tokens line by line

What is read of a line are some whole tokens and at most one that goes on behind it. Neither depends
on where the line stands, nor on what follows, as long as blanks or a brace follow.
-/
namespace RouteScript.Token

open Lexeme

theorem shift_shift (d d' : Nat) (t : Token) : (t.shift d).shift d' = t.shift (d + d') := by
  simp only [shift, Nat.add_assoc]

/-- The token with more characters at its end. -/
def extend (t : Token) (more : List Char) : Token := { t with text := t.text ++ more }

@[simp] theorem extend_kind (t : Token) (more : List Char) : (t.extend more).kind = t.kind := rfl

@[simp] theorem extend_text (t : Token) (more : List Char) :
    (t.extend more).text = t.text ++ more := rfl

@[simp] theorem extend_start (t : Token) (more : List Char) : (t.extend more).start = t.start := rfl

@[simp] theorem extend_newlineBefore (t : Token) (more : List Char) :
    (t.extend more).newlineBefore = t.newlineBefore := rfl

@[simp] theorem extend_stop (t : Token) (more : List Char) :
    (t.extend more).stop = t.stop + Text.size more := by
  simp [stop, Text.size_append, Nat.add_assoc]

theorem extend_nil (t : Token) : t.extend [] = t := by simp [extend]

theorem extend_extend (t : Token) (more more' : List Char) :
    (t.extend more).extend more' = t.extend (more ++ more') := by simp [extend]

namespace Scan

/-- The tokens of all that is left. -/
def run (s : Scan) : List Token := tokens s.rest.length s

/-- The scan behind a token. -/
def behind (t : Token) (rest : List Char) : Scan :=
  ⟨rest, t.stop, false,
    t.isTrivia && (t.newlineBefore || (t.kind = .comment && t.text.contains '\n'))⟩

variable {c : Char} {rest : List Char} {offset : Nat} {lineStart newline : Bool}

theorem run_nil : run ⟨[], offset, lineStart, newline⟩ = [] := rfl

theorem run_gap (gap : isGap c) : run ⟨c :: rest, offset, lineStart, newline⟩
    = run ⟨rest, offset + c.utf8Size, c = '\n' || (lineStart && (c = ' ' || c = '\t')),
      newline || c = '\n'⟩ := by
  rw [run, tokens_cons, if_pos gap]
  rfl

theorem run_token {kind : Kind} {n : Nat} (noGap : isGap c = false)
    (scans : scan lineStart c rest = (kind, n)) :
    run ⟨c :: rest, offset, lineStart, newline⟩
      = ⟨kind, (c :: rest).take n, offset, newline⟩
        :: run (behind ⟨kind, (c :: rest).take n, offset, newline⟩ ((c :: rest).drop n)) := by
  have token : token ⟨c :: rest, offset, lineStart, newline⟩ c rest
      = ⟨kind, (c :: rest).take n, offset, newline⟩ := by simp only [token, scans]
  have left : (c :: rest).drop ((c :: rest).take n).length = (c :: rest).drop n := by
    rw [List.length_take]
    rcases Nat.le_total n (c :: rest).length with le | le
    · rw [Nat.min_eq_left le]
    · rw [Nat.min_eq_right le, List.drop_length, List.drop_eq_nil_of_le le]
  rw [run, tokens_cons, if_neg (by simp [noGap]), token]
  simp only [beyond, left]
  rfl

/-- A text of blanks that no token starts with is skipped. -/
theorem run_gaps {blanks : List Char} (gaps : ∀ c ∈ blanks, isGap c) (noBreak : '\n' ∉ blanks)
    (rest : List Char) : ∃ lineStart', run ⟨blanks ++ rest, offset, lineStart, newline⟩
      = run ⟨rest, offset + Text.size blanks, lineStart', newline⟩ := by
  induction blanks generalizing offset lineStart with
  | nil => exact ⟨lineStart, by simp⟩
  | cons c blanks ih =>
    obtain ⟨gap, gaps⟩ := List.forall_mem_cons.1 gaps
    simp only [List.mem_cons, not_or] at noBreak
    rw [List.cons_append, run_gap gap]
    obtain ⟨lineStart', skipped⟩ : ∃ lineStart', run ⟨blanks ++ rest, offset + c.utf8Size,
          c = '\n' || (lineStart && (c = ' ' || c = '\t')), newline⟩
        = run ⟨rest, offset + c.utf8Size + Text.size blanks, lineStart', newline⟩ :=
      ih gaps noBreak.2
    refine ⟨lineStart', ?_⟩
    simp only [Ne.symm noBreak.1, decide_false, Bool.or_false, Bool.false_or] at skipped ⊢
    rw [skipped, Text.size_cons, Nat.add_assoc]

/-- Blanks that may stand before a directive are skipped without a trace. -/
theorem run_indent {indent : List Char} (blanks : ∀ c ∈ indent, c = ' ' ∨ c = '\t')
    (rest : List Char) : run ⟨indent ++ rest, offset, lineStart, newline⟩
      = run ⟨rest, offset + Text.size indent, lineStart, newline⟩ := by
  induction indent generalizing offset with
  | nil => simp
  | cons c indent ih =>
    obtain ⟨here, later⟩ := List.forall_mem_cons.1 blanks
    have gap : isGap c := by rcases here with rfl | rfl <;> decide
    have other : c ≠ '\n' := by rcases here with rfl | rfl <;> decide
    rw [List.cons_append, run_gap gap, Text.size_cons, ← Nat.add_assoc, ← ih later]
    rcases here with rfl | rfl <;> simp

/-- Blanks that do not start a token are gaps. -/
theorem isGap_of_run {blanks : List Char} (blank : ∀ c ∈ blanks, Text.isBlank c)
    (visible : ∀ t ∈ run ⟨blanks ++ rest, offset, lineStart, newline⟩,
      ∀ c, t.text.head? = some c → Text.isBlank c = false) : ∀ c ∈ blanks, isGap c := by
  induction blanks generalizing offset lineStart newline with
  | nil => simp
  | cons c blanks ih =>
    obtain ⟨here, later⟩ := List.forall_mem_cons.1 blank
    by_cases gap : isGap c
    · rw [List.cons_append, run_gap gap] at visible
      exact List.forall_mem_cons.2 ⟨gap, ih later visible⟩
    · have pos := scan_pos lineStart c (blanks ++ rest)
      cases scans : scan lineStart c (blanks ++ rest) with
      | mk kind n =>
        rw [scans] at pos
        obtain ⟨n, rfl⟩ := Nat.exists_eq_succ_of_ne_zero (Nat.pos_iff_ne_zero.1 pos)
        rw [List.cons_append, run_token (by simpa using gap) scans] at visible
        have shown := visible _ List.mem_cons_self c rfl
        exact absurd (shown.symm.trans here) Bool.false_ne_true

end Scan

/-- A token that has not been read to its end. -/
structure Pending where
  token : Token
  carry : Carry

namespace Pending

def shift (d : Nat) (p : Pending) : Pending := { p with token := p.token.shift d }

/-- The tokens ahead when this one goes on into a text. -/
def finish (p : Pending) (text : List Char) : List Token :=
  let whole := p.token.extend (text.take (p.carry.length text))
  whole :: (Scan.behind whole (text.drop (p.carry.length text))).run

end Pending

/-- The tokens ahead of a scan behind a token that may go on. -/
def resume : Option Pending → Scan → List Token
  | none, s => s.run
  | some p, s => p.finish s.rest

/-- What may follow the part of a line that has been read. -/
def Suits : Option Pending → List Char → Prop
  | none, rest => Severs rest
  | some _, rest => Margin rest

theorem Suits.severs {pending : Option Pending} {rest : List Char} (suits : Suits pending rest) :
    Severs rest := by
  cases pending with
  | none => exact suits
  | some p => exact Margin.severs suits

theorem suits_margin (pending : Option Pending) {rest : List Char} (margin : Margin rest) :
    Suits pending rest := by
  cases pending with
  | none => exact margin.severs
  | some p => exact margin

/-- What is read of a part of a line: whole tokens, and perhaps one that goes on. -/
structure Reading (lineStart newline : Bool) (line : List Char) (done : List Token)
    (pending : Option Pending) (lineStart' newline' : Bool) : Prop where
  reads : ∀ offset rest, Suits pending rest →
    Scan.run ⟨line ++ rest, offset, lineStart, newline⟩ = done.map (shift offset)
      ++ resume (pending.map (Pending.shift offset))
        ⟨rest, offset + Text.size line, lineStart', newline'⟩
  inside : ∀ t ∈ done, t.start < t.stop ∧ t.stop ≤ Text.size line
  open_ : ∀ p, pending = some p → p.token.start < Text.size line
    ∧ p.token.stop = Text.size line ∧ p.carry.Fits p.token.kind
  escaped : ∀ p, pending = some p → p.carry = .directive true →
    ∀ c, line.getLast? = some c → c = '\\' ∨ c = '\r'
  covers : ∀ p, pending = some p → ∀ offset inner rest, (∀ c ∈ inner, BlankOrBrace c) → inner ≠ [] →
    ∃ u us, Scan.run ⟨line ++ (inner ++ rest), offset, lineStart, newline⟩
        = done.map (shift offset) ++ u :: us
      ∧ u.start < offset + Text.size line ∧ offset + Text.size (line ++ inner) ≤ u.stop

namespace Reading

variable {lineStart newline lineStart₁ newline₁ lineStart' newline' : Bool}
  {line line₁ : List Char} {first done : List Token} {pending : Option Pending}

theorem nil : Reading lineStart newline [] [] none lineStart newline :=
  ⟨fun _ _ _ => rfl, by simp, by simp, by simp, by simp⟩

theorem map_shift (d d' : Nat) (pending : Option Pending) :
    (pending.map (Pending.shift d)).map (Pending.shift d')
      = pending.map (Pending.shift (d + d')) := by
  cases pending with
  | none => rfl
  | some p => simp [Pending.shift, shift_shift]

theorem inside_shift (h : Reading lineStart newline line done pending lineStart' newline')
    (d : Nat) : ∀ t ∈ done.map (shift d),
      d ≤ t.start ∧ t.start < t.stop ∧ t.stop ≤ d + Text.size line := by
  intro t ht
  obtain ⟨u, hu, rfl⟩ := List.mem_map.1 ht
  have := h.inside u hu
  have start : (u.shift d).start = u.start + d := rfl
  rw [shift_stop, start]
  omega

/-- A line is read by its first tokens and by the rest of it. -/
theorem after {before : List Char}
    (h : Reading lineStart₁ newline₁ line done pending lineStart' newline')
    (step : ∀ offset rest, Severs rest →
      Scan.run ⟨before ++ (line ++ rest), offset, lineStart, newline⟩ = first.map (shift offset)
        ++ Scan.run ⟨line ++ rest, offset + Text.size before, lineStart₁, newline₁⟩)
    (inside : ∀ t ∈ first, t.start < t.stop ∧ t.stop ≤ Text.size before) :
    Reading lineStart newline (before ++ line) (first ++ done.map (shift (Text.size before)))
      (pending.map (Pending.shift (Text.size before))) lineStart' newline' := by
  have moved (offset : Nat) : (first ++ done.map (shift (Text.size before))).map (shift offset)
      = first.map (shift offset) ++ done.map (shift (offset + Text.size before)) := by
    rw [List.map_append, List.map_map]
    exact congrArg _ (List.map_congr_left fun t _ => by
      rw [Function.comp_apply, shift_shift, Nat.add_comm])
  have size := Text.size_append before line
  refine ⟨fun offset rest suits => ?_, fun t ht => ?_, fun p hp => ?_, fun p hp => ?_,
    fun p hp => ?_⟩
  · have suits' : Suits pending rest := by cases pending <;> exact suits
    rw [List.append_assoc, step offset rest suits.severs, h.reads _ rest suits', moved, map_shift,
      List.append_assoc, size, Nat.add_comm (Text.size before) offset, Nat.add_assoc]
  · rcases List.mem_append.1 ht with here | there
    · have := inside t here
      omega
    · have := h.inside_shift (Text.size before) t there
      omega
  · obtain ⟨p, rfl, rfl⟩ := Option.map_eq_some_iff.1 hp
    obtain ⟨starts, stops, fits⟩ := h.open_ p rfl
    refine ⟨?_, ?_, fits⟩
    · simp only [Pending.shift, shift]
      omega
    · simp only [Pending.shift, shift_stop]
      omega
  · obtain ⟨p, rfl, rfl⟩ := Option.map_eq_some_iff.1 hp
    have nonempty : line ≠ [] := by
      rintro rfl
      exact absurd (h.open_ p rfl).1 (Nat.not_lt_zero _)
    intro escaped c last
    rw [List.getLast?_append, List.getLast?_eq_some_getLast nonempty, Option.some_or] at last
    exact h.escaped p rfl escaped c ((List.getLast?_eq_some_getLast nonempty).trans last)
  · obtain ⟨p, rfl, rfl⟩ := Option.map_eq_some_iff.1 hp
    intro offset inner rest blankOrBrace nonempty
    obtain ⟨u, us, reads, starts, covers⟩ :=
      h.covers p rfl (offset + Text.size before) inner rest blankOrBrace nonempty
    refine ⟨u, us, ?_, by omega, ?_⟩
    · rw [List.append_assoc, step offset _ (severs_of_ne_nil blankOrBrace nonempty rest), reads,
        moved,
        List.append_assoc]
    · rw [Text.size_append] at covers ⊢
      omega

theorem gap {c : Char} (gap : Scan.isGap c) (other : c ≠ '\n')
    (h : Reading (lineStart && (c = ' ' || c = '\t')) newline line done pending
      lineStart' newline') :
    Reading lineStart newline (c :: line) (done.map (shift c.utf8Size))
      (pending.map (Pending.shift c.utf8Size)) lineStart' newline' := by
  have step (offset : Nat) (rest : List Char) (_ : Severs rest) :
      Scan.run ⟨[c] ++ (line ++ rest), offset, lineStart, newline⟩ = [].map (shift offset)
        ++ Scan.run ⟨line ++ rest, offset + Text.size [c], lineStart && (c = ' ' || c = '\t'),
          newline⟩ := by
    rw [List.singleton_append, Scan.run_gap gap]
    simp [other]
  exact h.after step (List.forall_mem_nil _)

/-- The token at the head of a line that ends on it. -/
theorem token {c : Char} {kind : Kind} {n : Nat} (noGap : Scan.isGap c = false) (pos : 0 < n)
    (inside : n ≤ line.length + 1)
    (scans : ∀ rest, Severs rest → scan lineStart c (line ++ rest) = (kind, n))
    (h : Reading false (Scan.behind ⟨kind, (c :: line).take n, 0, newline⟩ []).newline
      ((c :: line).drop n) done pending lineStart' newline') :
    Reading lineStart newline (c :: line) (⟨kind, (c :: line).take n, 0, newline⟩
        :: done.map (shift (Text.size ((c :: line).take n))))
      (pending.map (Pending.shift (Text.size ((c :: line).take n)))) lineStart' newline' := by
  let t : Token := ⟨kind, (c :: line).take n, 0, newline⟩
  have step (offset : Nat) (rest : List Char) (severs : Severs rest) :
      Scan.run ⟨t.text ++ ((c :: line).drop n ++ rest), offset, lineStart, newline⟩
        = [t].map (shift offset) ++ Scan.run ⟨(c :: line).drop n ++ rest,
          offset + Text.size t.text, false, (Scan.behind t []).newline⟩ := by
    have short : n ≤ (c :: line).length := by simpa using inside
    rw [← List.append_assoc, List.take_append_drop, List.cons_append,
      Scan.run_token noGap (scans rest severs), ← List.cons_append,
      List.take_append_of_le_length short, List.drop_append_of_le_length short]
    simp only [List.map_cons, List.map_nil, List.singleton_append, shift, Nat.zero_add, t]
    rfl
  have nonempty : t.text ≠ [] := by
    simp [t, List.take_eq_nil_iff]
    omega
  have whole := h.after step
    (List.forall_mem_singleton.2 ⟨start_lt_stop nonempty, by simp [stop, t]⟩)
  rw [List.take_append_drop] at whole
  exact whole

/-- A token that takes all of the line. -/
theorem goesOn {c : Char} {kind : Kind} {carry : Carry} (noGap : Scan.isGap c = false)
    (fits : carry.Fits kind)
    (escaped : carry = .directive true → ∀ d, (c :: line).getLast? = some d → d = '\\' ∨ d = '\r')
    (scans : ∀ rest, Margin rest →
      scan lineStart c (line ++ rest) = (kind, line.length + 1 + carry.length rest))
    (covers : ∀ inner rest, (∀ d ∈ inner, BlankOrBrace d) → inner ≠ [] →
      line.length + 1 + inner.length ≤ (scan lineStart c (line ++ (inner ++ rest))).2) :
    Reading lineStart newline (c :: line) [] (some ⟨⟨kind, c :: line, 0, newline⟩, carry⟩)
      lineStart' newline' := by
  refine ⟨fun offset rest margin => ?_, by simp, fun p hp => ?_, fun p hp => ?_, fun p hp => ?_⟩
  · have length : line.length + 1 = (c :: line).length := rfl
    rw [List.cons_append, Scan.run_token noGap (scans rest margin), ← List.cons_append, length,
      List.take_length_add_append, List.drop_length_add_append]
    simp [resume, Pending.finish, Pending.shift, shift, extend]
  · obtain rfl := Option.some.inj hp
    have pos := Char.utf8Size_pos c
    refine ⟨?_, ?_, fits⟩
    · rw [Text.size_cons]
      dsimp only
      omega
    · simp [stop]
  · obtain rfl := Option.some.inj hp
    exact escaped
  · intro offset inner rest blankOrBrace nonempty
    have length := covers inner rest blankOrBrace nonempty
    cases scanned : scan lineStart c (line ++ (inner ++ rest)) with
    | mk kind' n =>
      rw [scanned] at length
      have whole : c :: (line ++ (inner ++ rest)) = (c :: line ++ inner) ++ rest := by simp
      have long : (c :: line ++ inner).length ≤ n := by
        simp only [List.length_append, List.length_cons]
        omega
      rw [List.cons_append, Scan.run_token noGap scanned]
      refine ⟨_, _, rfl, ?_, ?_⟩
      · have pos := Char.utf8Size_pos c
        rw [Text.size_cons]
        dsimp only
        omega
      · rw [whole, List.take_append, List.take_of_length_le long]
        simp only [stop, Text.size_append]
        omega

end Reading

/-- Every part of a line has a reading. -/
theorem exists_reading {line : List Char} (noBreak : '\n' ∉ line) (lineStart newline : Bool) :
    ∃ done pending lineStart' newline',
      Reading lineStart newline line done pending lineStart' newline' := by
  generalize left : line.length = n
  induction n using Nat.strongRecOn generalizing line lineStart newline with
  | ind n ih =>
    subst left
    cases line with
    | nil => exact ⟨_, _, _, _, .nil⟩
    | cons c line =>
      have other : c ≠ '\n' := fun eq => noBreak (by simp [eq])
      have later : '\n' ∉ line := fun there => noBreak (List.mem_cons_of_mem c there)
      by_cases gap : Scan.isGap c
      · obtain ⟨_, _, _, _, rest⟩ := ih line.length (by simp) later _ newline rfl
        exact ⟨_, _, _, _, rest.gap gap other⟩
      · rw [Bool.not_eq_true] at gap
        cases outcome noBreak lineStart with
        | goesOn kind carry fits escaped scans covers =>
          exact ⟨_, _, true, true, .goesOn gap fits escaped scans covers⟩
        | ends kind n inside scans =>
          have pos := scan_pos lineStart c (line ++ [])
          rw [scans [] (by simp [Severs])] at pos
          have shorter : ((c :: line).drop n).length < (c :: line).length := by
            rw [List.length_drop, List.length_cons]
            dsimp only at pos
            omega
          have behind : '\n' ∉ (c :: line).drop n := fun there => noBreak (List.mem_of_mem_drop there)
          obtain ⟨_, _, _, _, rest⟩ := ih _ shorter behind false
            (Scan.behind ⟨kind, (c :: line).take n, 0, newline⟩ []).newline rfl
          exact ⟨_, _, _, _, rest.token gap pos inside scans⟩

end RouteScript.Token
