import RouteScript.Proofs.Format.Paired
/-!
# Lines that settle

The line that a tidy line becomes stays as it is when it is indented again. A line that starts
inside a token stays as it is from the first.
-/
namespace RouteScript.Format

open Token

namespace Line

theorem parts {inner returns end_ : List Char} (ends : ∀ c ∈ returns, c = '\r')
    (feed : ∀ c ∈ end_, c = '\n') (last : ∀ c, inner.getLast? = some c → isEnd c = false)
    (start : Nat) : body ⟨start, inner ++ returns ++ end_⟩ = inner
      ∧ ending ⟨start, inner ++ returns ++ end_⟩ = returns ++ end_ := by
  have isEnd : ∀ c ∈ returns ++ end_, isEnd c := by
    intro c hc
    rcases List.mem_append.1 hc with here | there
    · simp [ends c here, Line.isEnd]
    · simp [feed c there, Line.isEnd]
  rw [List.append_assoc]
  exact ⟨body_eq isEnd last start, ending_eq isEnd last start⟩

end Line

theorem feed_of_endsLine {rest : List Char} (ends : EndsLine rest) : ∀ c ∈ rest.take 1, c = '\n' := by
  rcases ends.cases with rfl | ⟨rest, rfl⟩ <;> simp

theorem isEnd_of_visible {text : List Char} (bare : Text.Bare text) :
    ∀ c, text.getLast? = some c → Line.isEnd c = false := by
  intro c last
  by_contra ended
  have blank := Line.isBlank_of_isEnd (by simpa using ended)
  exact Bool.false_ne_true ((bare.last c last).symm.trans blank)

/-- No token that goes on is a brace. -/
theorem closing_ne_lBrace {pending : Option Pending} {closing : List Token}
    (closes : Closes pending closing)
    (fits : ∀ p, pending = some p → p.carry.Fits p.token.kind) : ∀ t ∈ closing, t.kind ≠ .lBrace := by
  cases closes with
  | none => simp
  | some p more =>
    intro t ht kind
    obtain rfl := List.mem_singleton.1 ht
    rw [extend_kind] at kind
    rcases fits p rfl with trivia | ⟨-, string⟩
    · rw [kind] at trivia
      exact Bool.false_ne_true trivia
    · rw [kind] at string
      exact absurd string (by decide)

theorem closes_nil_iff {pending : Option Pending} {closing : List Token}
    (closes : Closes pending closing) : pending = none ↔ closing = [] := by
  cases closes <;> simp

section Indented

variable {unit line rest text : List Char} {depth offset offset' : Nat}

/-- A line that becomes another one, which stays as it is and opens as many braces. -/
structure Settles (unit : List Char) (depth : Nat) (pending pending' : Option Pending)
    (offset offset' : Nat) (line rest line' : List Char) (done done' : List Token)
    (behind behind' : Option Pending) : Prop where
  paired : Paired pending pending' offset offset' line line' done done' behind behind'
  kept : pending' = none ∨ line' = line
  again : ∀ rest', EndsLine rest' → rest'.take 1 = rest.take 1 →
    Line.indented unit depth ⟨offset', line' ++ rest'.take 1⟩
      (Line.tokens ⟨offset', line' ++ rest'.take 1⟩ (ahead pending' offset' (line' ++ rest')))
      = some (line' ++ rest'.take 1)
  depths : ∀ rest', EndsLine rest' → ∀ depth,
    (Line.tokens ⟨offset', line' ++ rest'.take 1⟩ (ahead pending' offset' (line' ++ rest'))).foldlM
        depthBehind depth
      = (Line.tokens ⟨offset, line ++ rest.take 1⟩ (ahead pending offset (line ++ rest))).foldlM
        depthBehind depth

theorem settles_blank {inner returns : List Char} (blank : ∀ c ∈ inner, Text.isBlank c)
    (ends : ∀ c ∈ returns, c = '\r') (noBreak : '\n' ∉ inner ++ returns)
    (endsLine : EndsLine rest)
    (visible : Visible (ahead none offset (inner ++ returns ++ rest))) :
    Settles unit depth none none offset offset' (inner ++ returns) rest returns [] [] none none := by
  have paired : Paired none none offset offset' (inner ++ returns) returns [] [] none none := by
    refine paired_blank (Scan.isGap_of_run (fun c hc => ?_) visible) noBreak ends
    rcases List.mem_append.1 hc with here | there
    · exact blank c here
    · rw [ends c there]
      decide
  refine ⟨paired, .inl rfl, fun rest' endsLine' _ => ?_, fun rest' endsLine' => ?_⟩
  · have last : ∀ c, ([] : List Char).getLast? = some c → Line.isEnd c = false := by simp
    obtain ⟨body, ending⟩ := Line.parts ends (feed_of_endsLine endsLine') last offset'
    rw [List.nil_append] at body ending
    rw [Line.indented_blank (continues_none ⟨offset', returns ++ rest'.take 1⟩ (returns ++ rest'))
      (by rw [body]; rfl), ending]
  · exact foldlM_depthBehind (paired.kinds (.inr rfl) (.inr rfl) endsLine endsLine')

/-- A line outside of tokens becomes its indentation, what its core becomes, and its end. -/
theorem indented_core {core core' lead blanks returns : List Char} {done : List Token}
    {pending behind : Option Pending} (normal : Normal core done pending core')
    (bare : Text.Bare core) (nonempty : core ≠ []) (front : ∀ c ∈ lead, Text.isBlank c)
    (blank : ∀ c ∈ blanks, Text.isBlank c) (ends : ∀ c ∈ returns, c = '\r')
    (last : ∀ c, (lead ++ (core ++ blanks)).getLast? = some c → Line.isEnd c = false)
    (none_iff : pending = none ↔ behind = none) (endsLine : EndsLine rest) {line : List Char}
    (split : line = lead ++ (core ++ blanks) ++ returns) (passage : Passage none offset line
      (done.map (shift (offset + Text.size lead))) behind) {on : List Token} {l : Line}
    (whole : l = ⟨offset, line ++ rest.take 1⟩)
    (tokens : on = l.tokens (ahead none offset (line ++ rest))) :
    l.indented unit depth on = if depth < l.leadingCloses on then none
      else some ((List.replicate (depth - l.leadingCloses on) unit).flatten ++ core'
        ++ (returns ++ rest.take 1)) := by
  have left : line ≠ [] := by simp [split, nonempty]
  obtain ⟨body, ending⟩ := Line.parts ends (feed_of_endsLine endsLine) last offset
  rw [← split, ← whole] at body ending
  have trimmed : Text.trim l.body = core := by rw [body, Text.trim_append front blank bare]
  have outside : l.continues on = false := by
    rw [tokens, whole]
    exact continues_none ⟨offset, line ++ rest.take 1⟩ _
  obtain ⟨closing, closes, read⟩ := tokens_line passage (.inl left) endsLine
  rw [← whole, ← tokens] at read
  have normalized : l.normalized on = core' := by
    have start : l.start = offset := by rw [whole]
    rw [read, ← start]
    exact normal l lead blanks closing body front blank
      (closing_ne_lBrace closes fun p hp => (passage.open_ p hp).2.2)
      (none_iff.trans (closes_nil_iff closes))
  rw [Line.indented_eq outside (by rwa [trimmed]), normalized, ending]

theorem isBlank_of_indent {chars : List Char} (h : ∀ c ∈ chars, c = ' ' ∨ c = '\t') :
    ∀ c ∈ chars, Text.isBlank c := by
  intro c hc
  rcases h c hc with rfl | rfl <;> decide

theorem settles_core {core core' lead blanks returns : List Char} {done done' : List Token}
    {pending : Option Pending} {lineStart newline : Bool}
    (turns : Turns core done pending core' done')
    (reading : Reading true true core done pending lineStart newline) (bare : Text.Bare core)
    (nonempty : core ≠ []) (front : ∀ c ∈ lead, c = ' ' ∨ c = '\t')
    (units : ∀ c ∈ unit, c = ' ' ∨ c = '\t') (blank : ∀ c ∈ blanks, Text.isBlank c)
    (noBreak : '\n' ∉ blanks) (ends : ∀ c ∈ returns, c = '\r')
    (gaps : pending = none → ∀ c ∈ blanks, Scan.isGap c)
    (carry : ∀ p, pending = some p → p.carry.past (blanks ++ returns) = p.carry.past returns)
    (last : ∀ c, (lead ++ (core ++ blanks)).getLast? = some c → Line.isEnd c = false)
    (endsLine : EndsLine rest) {line : List Char}
    (split : line = lead ++ (core ++ blanks) ++ returns)
    (indented : Line.indented unit depth ⟨offset, line ++ rest.take 1⟩
      (Line.tokens ⟨offset, line ++ rest.take 1⟩ (ahead none offset (line ++ rest))) = some text) :
    ∃ line' done done' behind behind',
      Settles unit depth none none offset offset' line rest line' done done' behind behind'
        ∧ text = line' ++ rest.take 1 := by
  have split' : line = lead ++ (core ++ (blanks ++ returns)) := by simp [split]
  have paired {indent : List Char} (front' : ∀ c ∈ indent, c = ' ' ∨ c = '\t') :=
    paired_core offset offset' turns reading front front' blank noBreak ends gaps carry
  rw [← split'] at paired
  rw [indented_core turns.left bare nonempty (isBlank_of_indent front) blank ends last
    Option.map_eq_none_iff.symm endsLine split (paired front).left rfl rfl] at indented
  generalize closes : Line.leadingCloses ⟨offset, line ++ rest.take 1⟩ _ = n at indented
  split at indented
  · contradiction
  rename_i deep
  obtain rfl := Option.some.inj indented
  generalize indentation : (List.replicate (depth - n) unit).flatten = indent
  have front' : ∀ c ∈ indent, c = ' ' ∨ c = '\t' := by
    intro c hc
    rw [← indentation] at hc
    obtain ⟨chars, among, hc⟩ := List.mem_flatten.1 hc
    exact units c (List.eq_of_mem_replicate among ▸ hc)
  have left : line ≠ [] := by simp [split, nonempty]
  have right : indent ++ (core' ++ returns) ≠ [] := by simp [turns.nonempty]
  have kinds {rest' : List Char} (endsLine' : EndsLine rest') :=
    (paired front').kinds (.inl left) (.inl right) endsLine endsLine'
  refine ⟨_, _, _, _, _, ⟨paired front', .inl rfl, fun rest' endsLine' feed => ?_,
    fun rest' endsLine' => foldlM_depthBehind (kinds endsLine')⟩, ?_⟩
  · have last' : ∀ c, (indent ++ (core' ++ [])).getLast? = some c → Line.isEnd c = false := by
      intro c last
      rw [List.append_nil, List.getLast?_append_of_ne_nil _ turns.nonempty] at last
      exact isEnd_of_visible turns.bare c last
    have closes' := (leadingCloses_eq
      (continues_none ⟨offset, line ++ rest.take 1⟩ (line ++ rest))
      (continues_none ⟨offset', indent ++ (core' ++ returns) ++ rest'.take 1⟩
        (indent ++ (core' ++ returns) ++ rest')) (kinds endsLine')).trans closes
    rw [indented_core turns.right turns.bare turns.nonempty (isBlank_of_indent front')
      (List.forall_mem_nil _) ends last' Option.map_eq_none_iff.symm endsLine' (by simp)
      (paired front').right rfl rfl, closes', if_neg deep, indentation]
    simp
  · simp

/-- Blanks behind what is on the line change nothing about a token that goes on. -/
theorem past_returns {core blanks : List Char} {done : List Token} {pending : Option Pending}
    {lineStart newline : Bool} (reading : Reading true true core done pending lineStart newline)
    (bare : Text.Bare core) (nonempty : core ≠ []) (blank : ∀ c ∈ blanks, Text.isBlank c)
    (trail : core.getLast? = some '\\' → blanks = []) (returns : List Char) :
    ∀ p, pending = some p → p.carry.past (blanks ++ returns) = p.carry.past returns := by
  intro p hp
  cases carry : p.carry with
  | line => rfl
  | block => rfl
  | directive escaped =>
    rw [Carry.past, Carry.past, Lexeme.escapes_append]
    cases escaped with
    | false => rw [Lexeme.escapes_blank blank]
    | true =>
      have final := List.getLast?_eq_getLast_of_ne_nil nonempty
      have backslash : core.getLast? = some '\\' := by
        rcases reading.escaped p hp carry _ final with eq | eq
        · rw [final, eq]
        · have shown := bare.last _ final
          rw [eq] at shown
          exact absurd shown (by decide)
      rw [trail backslash]
      rfl

/-- A tidy line has no blanks behind a backslash that ends its core. -/
theorem Line.Tidy.blanks_eq_nil {l : Line} (tidy : l.Tidy) {lead core blanks : List Char}
    (body : l.body = lead ++ (core ++ blanks)) (bare : Text.Bare core) (nonempty : core ≠ [])
    (blank : ∀ c ∈ blanks, Text.isBlank c) (backslash : core.getLast? = some '\\') :
    blanks = [] := by
  have trimmed : Text.trimEnd l.body = lead ++ core := by
    rw [body, ← List.append_assoc, Text.trimEnd_append blank, Text.trimEnd_of_last]
    intro c last
    rw [List.getLast?_append_of_ne_nil _ nonempty] at last
    exact bare.last c last
  have whole := tidy.trail (by rw [trimmed, List.getLast?_append_of_ne_nil _ nonempty, backslash])
  rw [trimmed, body, ← List.append_assoc] at whole
  exact List.self_eq_append_right.1 whole

/-- A tidy line outside of tokens settles. -/
theorem settles_outside (noBreak : '\n' ∉ line) (endsLine : EndsLine rest)
    (units : ∀ c ∈ unit, c = ' ' ∨ c = '\t') (visible : Visible (ahead none offset (line ++ rest)))
    (tidy : Line.Tidy ⟨offset, line ++ rest.take 1⟩)
    (indented : Line.indented unit depth ⟨offset, line ++ rest.take 1⟩
      (Line.tokens ⟨offset, line ++ rest.take 1⟩ (ahead none offset (line ++ rest))) = some text) :
    ∃ line' done done' behind behind',
      Settles unit depth none none offset offset' line rest line' done done' behind behind'
        ∧ text = line' ++ rest.take 1 := by
  obtain ⟨inner, returns, rfl, ends, last⟩ := Line.exists_body noBreak
  obtain ⟨body, ending⟩ := Line.parts ends (feed_of_endsLine endsLine) last offset
  by_cases nothing : Text.trim inner = []
  · obtain ⟨blanks, split, blank⟩ := Text.trim_split inner
    have blank' : ∀ c ∈ inner, Text.isBlank c := by
      intro c hc
      rw [split, nothing, List.append_nil] at hc
      exact (List.mem_append.1 hc).elim List.mem_takeWhile_imp (blank c)
    rw [Line.indented_blank (continues_none ⟨offset, inner ++ returns ++ rest.take 1⟩ _)
      (by rw [body]; exact nothing), ending] at indented
    exact ⟨_, _, _, _, _, settles_blank blank' ends noBreak endsLine visible,
      (Option.some.inj indented).symm⟩
  · have bare := Text.bare_trim inner
    obtain ⟨blanks, split, blank⟩ := Text.trim_split inner
    have front : ∀ c ∈ inner.takeWhile Text.isBlank, c = ' ' ∨ c = '\t' := by
      have lead := tidy.lead
      rw [body] at lead
      exact lead.resolve_left nothing
    generalize inner.takeWhile Text.isBlank = lead at split front
    generalize Text.trim inner = core at split nothing bare
    obtain rfl : inner = lead ++ (core ++ blanks) := by rw [split, List.append_assoc]
    have broken : ('\n' ∉ lead ∧ '\n' ∉ core ∧ '\n' ∉ blanks) ∧ '\n' ∉ returns := by
      simpa only [List.mem_append, not_or] using noBreak
    obtain ⟨⟨-, noBreak', noBreak''⟩, -⟩ := broken
    obtain ⟨done, pending, lineStart, newline, reading⟩ := exists_reading noBreak' true true
    have margin : Lexeme.Margin (blanks ++ returns ++ rest) :=
      endsLine.margin_append (fun c hc => (List.mem_append.1 hc).elim (blank c) fun there => by
        rw [ends c there]
        decide) fun there => noBreak (by
          simp only [List.mem_append] at there ⊢
          tauto)
    have reads := reading.ahead front margin offset
    have whole : lead ++ (core ++ blanks) ++ returns ++ rest
        = lead ++ (core ++ (blanks ++ returns ++ rest)) := by simp
    rw [whole, reads] at visible
    have shown : Visible done :=
      visible_shift.1 fun t ht => visible t (List.mem_append_left _ ht)
    obtain ⟨core', done', turns⟩ := exists_turns reading bare nothing noBreak' shown
    have carry := past_returns reading bare nothing blank
      (tidy.blanks_eq_nil body bare nothing blank) returns
    refine settles_core turns reading bare nothing front units blank noBreak'' ends ?_ carry last
      endsLine rfl indented
    rintro rfl
    have later : Visible (Scan.run ⟨blanks ++ returns ++ rest,
        offset + Text.size lead + Text.size core, lineStart, newline⟩) :=
      fun t ht => visible t (List.mem_append_right _ ht)
    rw [List.append_assoc] at later
    exact Scan.isGap_of_run blank later

theorem continues_some {p : Pending} (placed : Placed (some p) offset) (noBreak : '\n' ∉ line)
    (nonempty : line ≠ []) : Line.continues ⟨offset, line ++ rest.take 1⟩
      (Line.tokens ⟨offset, line ++ rest.take 1⟩ (ahead (some p) offset (line ++ rest))) := by
  obtain ⟨starts, stops⟩ := placed p rfl
  obtain ⟨c, more, rfl⟩ := List.exists_cons_of_ne_nil nonempty
  have pos : 0 < p.carry.length (c :: (more ++ rest)) :=
    length_pos (fun eq => noBreak (by simp [eq])) _
  obtain ⟨n, length⟩ : ∃ n, p.carry.length (c :: (more ++ rest)) = n + 1 :=
    ⟨_, (Nat.succ_pred_eq_of_pos pos).symm⟩
  have size := c.utf8Size_pos
  change Line.continues _ (Line.tokens _ (p.finish (c :: (more ++ rest)))) = true
  rw [Pending.finish, length, Line.tokens, List.filter_cons_of_pos]
  · exact decide_eq_true starts
  · simp only [Line.stop, extend_start, extend_stop, stops, Bool.and_eq_true, decide_eq_true_eq,
      List.cons_append, Text.size_cons, List.take_succ_cons]
    exact ⟨by omega, decide_eq_true (by omega)⟩

theorem foldlM_trivia {on : List Token} (trivia : ∀ t ∈ on, t.isTrivia) (depth : Nat) :
    on.foldlM depthBehind depth = some depth := by
  induction on with
  | nil => rfl
  | cons t on ih =>
    obtain ⟨here, later⟩ := List.forall_mem_cons.1 trivia
    have same : depthBehind depth t = some depth := by
      have opening : t.kind ≠ .lBrace := by
        intro kind
        rw [Token.isTrivia, kind] at here
        exact Bool.false_ne_true here
      have closing : t.kind ≠ .rBrace := by
        intro kind
        rw [Token.isTrivia, kind] at here
        exact Bool.false_ne_true here
      rw [depthBehind, if_neg opening, if_neg closing]
    rw [List.foldlM_cons, same]
    exact ih later

theorem trivia_of_empty {p : Pending} (placed : Placed (some p) offset) (trivia : p.token.isTrivia)
    (endsLine : EndsLine rest) :
    ∀ t ∈ Line.tokens ⟨offset, rest.take 1⟩ (ahead (some p) offset rest), t.isTrivia := by
  obtain ⟨closing, later, split, closes, starts⟩ := endsLine.closes fun q hq => (placed q hq).2
  intro t ht
  have here := Line.tokens_later (l := ⟨offset, rest.take 1⟩) starts closing
  rw [split, here] at ht
  cases closes with
  | some _ more =>
    obtain rfl := List.mem_singleton.1 (List.mem_of_mem_filter ht)
    exact trivia

theorem settles_inside {p p' : Pending} (waiting : Waiting p p') (placed : Placed (some p) offset)
    (placed' : Placed (some p') offset') (noBreak : '\n' ∉ line) (endsLine : EndsLine rest)
    (nonempty : line ++ rest ≠ [])
    (indented : Line.indented unit depth ⟨offset, line ++ rest.take 1⟩
      (Line.tokens ⟨offset, line ++ rest.take 1⟩ (ahead (some p) offset (line ++ rest)))
        = some text) :
    ∃ line' done done' behind behind', Settles unit depth (some p) (some p') offset offset' line rest
        line' done done' behind behind' ∧ text = line' ++ rest.take 1 := by
  obtain ⟨done, done', behind, behind', paired⟩ := paired_inside waiting placed placed' noBreak
  by_cases nothing : line = []
  · subst nothing
    obtain ⟨more, rfl⟩ := endsLine.cases.resolve_left nonempty
    have feed (offset : Nat) (on : List Token) :
        Line.indented unit depth ⟨offset, ['\n']⟩ on = some ['\n'] := by
      rw [Line.indented]
      split
      · rfl
      · rfl
    refine ⟨[], _, _, _, _, ⟨paired, .inr rfl, fun rest' endsLine' same => ?_,
      fun rest' endsLine' depth => ?_⟩, ?_⟩
    · rw [same]
      exact feed offset' _
    · have trivia' : p'.token.isTrivia := waiting.resembles.isTrivia.trans waiting.trivia
      simp only [List.nil_append]
      rw [foldlM_trivia (trivia_of_empty placed waiting.trivia endsLine),
        foldlM_trivia (trivia_of_empty placed' trivia' endsLine')]
    · exact Option.some.inj (indented.symm.trans (feed offset _))
  · refine ⟨_, _, _, _, _, ⟨paired, .inr rfl, fun rest' endsLine' same => ?_,
      fun rest' endsLine' => foldlM_depthBehind
        (paired.kinds (.inl nothing) (.inl nothing) endsLine endsLine')⟩, ?_⟩
    · rw [Line.indented_continues (continues_some placed' noBreak nothing)]
    · rw [Line.indented_continues (continues_some placed noBreak nothing)] at indented
      exact (Option.some.inj indented).symm

/-- Every line of a tidy text settles. -/
theorem exists_settles {pending pending' : Option Pending}
    (waiting : Option.Rel Waiting pending pending') (placed : Placed pending offset)
    (placed' : Placed pending' offset') (noBreak : '\n' ∉ line) (endsLine : EndsLine rest)
    (nonempty : line ++ rest ≠ []) (units : ∀ c ∈ unit, c = ' ' ∨ c = '\t')
    (tidy : TidyLines (ahead pending offset (line ++ rest))
      (linesFrom offset (Text.pieces (line ++ rest))))
    (indented : Line.indented unit depth ⟨offset, line ++ rest.take 1⟩
      (Line.tokens ⟨offset, line ++ rest.take 1⟩ (ahead pending offset (line ++ rest)))
        = some text) :
    ∃ line' done done' behind behind', Settles unit depth pending pending' offset offset' line rest
        line' done done' behind behind' ∧ text = line' ++ rest.take 1 := by
  cases waiting with
  | none =>
    have first : Line.Tidy ⟨offset, line ++ rest.take 1⟩ := by
      rw [linesFrom_cons noBreak endsLine nonempty] at tidy
      exact tidy.tidy _ List.mem_cons_self (continues_none ⟨offset, line ++ rest.take 1⟩ _)
    exact settles_outside noBreak endsLine units tidy.visible first indented
  | some waiting => exact settles_inside waiting placed placed' noBreak endsLine nonempty indented

end Indented

end RouteScript.Format
