import RouteScript.Proofs.Format.Settled
import RouteScript.Proofs.Format.Window
/-!
# Formatting is stable

A text whose lines are tidy is the same whether it is formatted once or twice, and its tokens stay
what they are.
-/
namespace RouteScript.Format

open Token

/-- Tokens that resemble each other and touch alike, behind two offsets. -/
structure Agree (offset offset' : Nat) (ts ts' : List Token) : Prop where
  resembles : List.Forall₂ Resembles ts ts'
  touches : ∀ last last', (∀ m, last = some m → m < offset) → (∀ m, last' = some m → m < offset') →
    touches last' ts' = touches last ts

theorem length_touches (last : Option Nat) (ts : List Token) :
    (touches last ts).length = (ts.filter isSignificant).length := by
  have length (ts : List Token) (last : Option Nat) : (looks last ts).length = ts.length := by
    induction ts generalizing last with
    | nil => rfl
    | cons t ts ih => rw [looks, List.length_cons, ih, List.length_cons]
  rw [touches, List.length_map, length]

theorem length_significant {ts ts' : List Token} (h : List.Forall₂ Resembles ts ts') :
    (ts'.filter isSignificant).length = (ts.filter isSignificant).length := by
  induction h with
  | nil => rfl
  | cons same _ ih =>
    rw [List.filter_cons, List.filter_cons, same.isSignificant]
    split
    · rw [List.length_cons, List.length_cons, ih]
    · exact ih

section Again

variable {unit line rest out : List Char} {pending pending' : Option Pending}
  {offset offset' depth : Nat}

/-- From the start of a line on a text agrees with itself formatted, and stays as it is then. -/
def Again (unit : List Char) (text : List Char) : Prop :=
  ∀ {pending pending' : Option Pending} {offset offset' depth : Nat} {out : List Char},
    Option.Rel Waiting pending pending' → Placed pending offset → Placed pending' offset' →
    TidyLines (ahead pending offset text) (linesFrom offset (Text.pieces text)) →
    formatFrom unit pending offset depth text = some out →
    Agree offset offset' (ahead pending offset text) (ahead pending' offset' out)
      ∧ formatFrom unit pending' offset' depth out = some out

/-- From the end of a line on, where a token of the line may go on. -/
def AgainBehind (unit : List Char) (rest : List Char) : Prop :=
  ∀ {pending pending' : Option Pending} {offset offset' depth : Nat} {out : List Char},
    Option.Rel Kin pending pending' → Placed pending offset → Placed pending' offset' →
    TidyLines (ahead pending offset rest)
      (linesFrom (offset + Text.size (rest.take 1)) (Text.pieces rest.tail)) →
    formatBehind unit pending offset depth rest = some out →
    List.Forall₂ Resembles (ahead pending offset rest) (ahead pending' offset' (rest.take 1 ++ out))
      ∧ (∀ last last', (∀ m, last = some m → m ≤ offset) → (∀ m, last' = some m → m ≤ offset') →
        touches last' (pending'.map Pending.token).toList
          = touches last (pending.map Pending.token).toList →
        touches last' (ahead pending' offset' (rest.take 1 ++ out))
          = touches last (ahead pending offset rest))
      ∧ formatBehind unit pending' offset' depth (rest.take 1 ++ out) = some out

theorem againBehind_nil : AgainBehind unit [] := by
  intro pending pending' offset offset' depth out kin placed placed' tidy formatted
  rw [formatBehind_nil] at formatted
  obtain ⟨rfl, rfl⟩ : depth = 0 ∧ [] = out := by
    split at formatted
    · exact ⟨‹_›, Option.some.inj formatted⟩
    · contradiction
  rw [List.take_nil, List.nil_append, ahead_nil, ahead_nil]
  refine ⟨?_, fun last last' _ _ same => same, rfl⟩
  cases kin with
  | none => exact .nil
  | some kin => exact .cons kin.resembles .nil

/-- What is read of a token at a line feed are its own touches or none. -/
theorem touches_turn (kin : Option.Rel Kin pending pending') {last last' : Option Nat}
    (same : touches last' (pending'.map Pending.token).toList
      = touches last (pending.map Pending.token).toList) :
    touches last' (turn pending').1 = touches last (turn pending).1 := by
  cases kin with
  | none => rfl
  | @some p p' kin =>
    obtain ⟨t, carry⟩ := p
    obtain ⟨t', carry'⟩ := p'
    obtain rfl : carry' = carry := kin.carry
    cases carry' with
    | line => exact same
    | block => rfl
    | directive escaped =>
      cases escaped with
      | false => exact same
      | true => rfl

theorem againBehind_newline (again : Again unit rest) : AgainBehind unit ('\n' :: rest) := by
  intro pending pending' offset offset' depth out kin placed placed' tidy formatted
  have stops := fun p hp => (placed p hp).2
  have stops' := fun p hp => (placed' p hp).2
  obtain ⟨resembles, waiting⟩ := rel_turn kin
  rw [formatBehind_newline stops] at formatted
  have tidy' : TidyLines (ahead (turn pending).2 (offset + 1) rest)
      (linesFrom (offset + 1) (Text.pieces rest)) := by
    rw [ahead_newline stops] at tidy
    refine tidy.past fun t ht l hl => ?_
    have stop := turn_stop stops t ht
    have start := start_linesFrom _ _ l hl
    omega
  obtain ⟨agree, formatted'⟩ := again waiting placed.turn placed'.turn tidy' formatted
  have feed : ('\n' :: rest).take 1 ++ out = '\n' :: out := rfl
  rw [feed, ahead_newline stops, ahead_newline stops', formatBehind_newline stops']
  refine ⟨List.rel_append resembles agree.resembles, fun last last' low low' same => ?_, formatted'⟩
  rw [touches_append, touches_append, touches_turn kin same, agree.touches]
  · intro m hm
    have := endBehind_le low (fun t ht => Nat.le_of_eq (turn_stop stops t ht)) m hm
    omega
  · intro m hm
    have := endBehind_le low' (fun t ht => Nat.le_of_eq (turn_stop stops' t ht)) m hm
    omega

/-- Lines that are paired, before texts that touch alike behind them, touch alike. -/
theorem touches_line {line line' : List Char} {done done' ts ts' : List Token}
    {behind behind' : Option Pending}
    (paired : Paired pending pending' offset offset' line line' done done' behind behind')
    (later : ∀ last last', (∀ m, last = some m → m ≤ offset + Text.size line) →
      (∀ m, last' = some m → m ≤ offset' + Text.size line') →
      touches last' (behind'.map Pending.token).toList
        = touches last (behind.map Pending.token).toList → touches last' ts' = touches last ts)
    {last last' : Option Nat} (low : ∀ m, last = some m → m < offset)
    (low' : ∀ m, last' = some m → m < offset') :
    touches last' (done' ++ ts') = touches last (done ++ ts) := by
  have same := paired.touches last last' low low'
  rw [touches_append, touches_append] at same
  have lengths : (touches last' done').length = (touches last done).length := by
    rw [length_touches, length_touches, length_significant paired.resembles]
  obtain ⟨first, second⟩ := List.append_inj same lengths
  rw [touches_append, touches_append, first, later _ _ ?_ ?_ second]
  · refine endBehind_le (fun m hm => ?_) fun t ht => (paired.left.inside t ht).2.2
    have := low m hm
    omega
  · refine endBehind_le (fun m hm => ?_) fun t ht => (paired.right.inside t ht).2.2
    have := low' m hm
    omega

/-- The end of a line stays its end. -/
theorem endsLine_format (endsLine : EndsLine rest)
    (formatted : formatBehind unit pending offset depth rest = some out) :
    EndsLine (rest.take 1 ++ out) ∧ (rest.take 1 ++ out).take 1 = rest.take 1 := by
  rcases endsLine.cases with rfl | ⟨more, rfl⟩
  · rw [formatBehind_nil] at formatted
    split at formatted
    · obtain rfl := Option.some.inj formatted
      exact ⟨endsLine_nil, rfl⟩
    · contradiction
  · exact ⟨endsLine_newline out, rfl⟩

/-- The first line settles, and the text behind it agrees. -/
theorem again_line (units : ∀ c ∈ unit, c = ' ' ∨ c = '\t') (noBreak : '\n' ∉ line)
    (endsLine : EndsLine rest) (nonempty : line ++ rest ≠ []) (behind : AgainBehind unit rest) :
    Again unit (line ++ rest) := by
  intro pending pending' offset offset' depth out waiting placed placed' tidy formatted
  obtain ⟨text, indented⟩ : ∃ text, Line.indented unit depth ⟨offset, line ++ rest.take 1⟩
      (Line.tokens ⟨offset, line ++ rest.take 1⟩ (ahead pending offset (line ++ rest)))
        = some text := by
    rw [formatFrom, linesFrom_cons noBreak endsLine nonempty, formatLines] at formatted
    obtain ⟨text, indented, -⟩ := Option.bind_eq_some_iff.1 formatted
    exact ⟨text, indented⟩
  obtain ⟨line', done, done', ended, ended', settles, rfl⟩ := exists_settles waiting placed placed'
    noBreak endsLine nonempty units tidy indented
  have paired := settles.paired
  rw [formatFrom_line paired.left noBreak endsLine (.inl nonempty)] at formatted
  obtain ⟨text, here, onward⟩ := Option.bind_eq_some_iff.1 formatted
  obtain rfl := Option.some.inj (here.symm.trans indented)
  obtain ⟨depth', opened, onward⟩ := Option.bind_eq_some_iff.1 onward
  obtain ⟨out', later, eq⟩ := Option.bind_eq_some_iff.1 onward
  obtain rfl := Option.some.inj eq
  clear formatted here onward eq
  -- the text behind the line
  have reads := paired.left.reads rest endsLine
  have tidy' : TidyLines (ahead ended (offset + Text.size line) rest)
      (linesFrom (offset + Text.size line + Text.size (rest.take 1)) (Text.pieces rest.tail)) := by
    rw [linesFrom_cons noBreak endsLine nonempty, reads, Text.size_append, ← Nat.add_assoc] at tidy
    have before : ∀ t ∈ done, ∀ l ∈ linesFrom (offset + Text.size line + Text.size (rest.take 1))
        (Text.pieces rest.tail), t.stop ≤ l.start := by
      intro t ht l hl
      have stop := (paired.left.inside t ht).2.2
      have start := start_linesFrom _ _ l hl
      omega
    exact .past before ⟨tidy.visible, fun l hl => tidy.tidy l (List.mem_cons_of_mem _ hl)⟩
  have placed := fun p hp => And.intro (paired.left.open_ p hp).1 (paired.left.open_ p hp).2.1
  have placed' := fun p hp => And.intro (paired.right.open_ p hp).1 (paired.right.open_ p hp).2.1
  obtain ⟨resembles, touching, later'⟩ := behind paired.kin placed placed' tidy' later
  obtain ⟨endsLine', feed⟩ := endsLine_format endsLine later
  have whole : line' ++ rest.take 1 ++ out' = line' ++ (rest.take 1 ++ out') :=
    List.append_assoc ..
  generalize rest.take 1 ++ out' = rest' at resembles touching later' endsLine' feed whole
  have reads' := paired.right.reads rest' endsLine'
  have nonempty' : line' ++ rest' ≠ [] ∨ pending' = none := by
    refine settles.kept.symm.imp_left fun same nothing => nonempty ?_
    obtain ⟨rfl, rfl⟩ := List.append_eq_nil_iff.1 nothing
    rw [← same, List.nil_append]
    rcases endsLine.cases with none | ⟨more, rfl⟩
    · exact none
    · simp at feed
  rw [whole]
  refine ⟨⟨?_, fun last last' low low' => ?_⟩, ?_⟩
  · rw [reads, reads']
    exact List.rel_append paired.resembles resembles
  · rw [reads, reads']
    exact touches_line paired touching low low'
  · rw [formatFrom_line paired.right paired.noBreak endsLine' nonempty']
    simp only [settles.again rest' endsLine' feed, settles.depths rest' endsLine', opened, later',
      Option.bind_eq_bind, Option.bind_some, pure]
    rw [feed, whole]

theorem again (units : ∀ c ∈ unit, c = ' ' ∨ c = '\t') (text : List Char) : Again unit text := by
  induction text using Text.line_induction with
  | nil =>
    intro pending pending' offset offset' depth out waiting placed placed' tidy formatted
    obtain ⟨rfl, rfl⟩ : depth = 0 ∧ [] = out := by
      change (if depth = 0 then some [] else none) = some out at formatted
      split at formatted
      · exact ⟨‹_›, Option.some.inj formatted⟩
      · contradiction
    rw [ahead_nil, ahead_nil]
    refine ⟨?_, rfl⟩
    cases waiting with
    | none => exact ⟨.nil, fun _ _ _ _ => rfl⟩
    | some waiting =>
      have trivia' := waiting.resembles.isTrivia.trans waiting.trivia
      refine ⟨.cons waiting.resembles .nil, fun last last' _ _ => ?_⟩
      simp only [Option.map_some, Option.toList_some]
      rw [touches_trivia trivia', touches_trivia waiting.trivia]
      rfl
  | last line noBreak nonempty =>
    have whole : Again unit (line ++ []) :=
      again_line units noBreak endsLine_nil (by simpa using nonempty) againBehind_nil
    rwa [List.append_nil] at whole
  | line line rest noBreak ih =>
    exact again_line units noBreak (endsLine_newline rest) (by simp) (againBehind_newline ih)

end Again

/-- No token starts with a blank, and only spaces and tabs stand before what is on a line outside
of tokens, and no blanks behind a backslash at its end. -/
def Tidy (text : List Char) : Prop := TidyLines (all text) (linesFrom 0 (Text.pieces text))

instance (text : List Char) : Decidable (Tidy text) :=
  inferInstanceAs (Decidable (TidyLines _ _))

theorem unit_blank (options : Options) : ∀ c ∈ options.unit, c = ' ' ∨ c = '\t' := by
  intro c hc
  unfold Options.unit at hc
  split at hc
  · exact .inl (List.eq_of_mem_replicate hc)
  · exact .inr (List.mem_singleton.1 hc)

/-- A tidy text agrees with itself formatted, and stays as it is then. -/
theorem agree_format {options : Options} {text out : List Char} (tidy : Tidy text)
    (formatted : format options text = some out) :
    Agree 0 0 (all text) (all out) ∧ format options out = some out := by
  rw [format_eq] at formatted ⊢
  exact again (unit_blank options) text .none (placed_none 0) (placed_none 0) tidy formatted

/-- Formatting a tidy text twice is formatting it once. -/
theorem format_format {options : Options} {text out : List Char} (tidy : Tidy text)
    (formatted : format options text = some out) : format options out = some out :=
  (agree_format tidy formatted).2

/-- A continued directive, a comment over two lines that is closed before a brace, line ends of two
kinds and a form feed before one of them. -/
theorem format_format_crossed :
    let options : Options := ⟨true, 2⟩
    let head := "#!define A \\\n   \"ahoj\"\n/* ž\n  \x7b */ request_route\x7b\n".toList
    let text := head
      ++ "# č\u00a0\n\tif (1)   \x7b\r\n      xlog(\"\x7d ✓\") ; \x7d\x0c\r\n\n \x7d\n".toList
    let out := head
      ++ "  # č\n  if (1) \x7b\r\n    xlog(\"\x7d ✓\") ; \x7d\r\n\n\x7d\n".toList
    Tidy text ∧ format options text = some out ∧ format options out = some out := by
  intro options head text out
  have tidy : Tidy text := by decide
  have formatted : format options text = some out := by decide
  exact ⟨tidy, formatted, format_format tidy formatted⟩

/-- Without the blank behind it the backslash continues the directive, which then takes in the
closing brace. -/
theorem format_continued :
    let options : Options := ⟨false, 4⟩
    let text := "\x7b\n#!define A \\ \n\x7d\n".toList
    let out := "\x7b\n\t#!define A \\\n\x7d\n".toList
    format options text = some out ∧ format options out = none := by
  decide

end RouteScript.Format
