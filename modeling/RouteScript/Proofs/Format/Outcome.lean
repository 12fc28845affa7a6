import RouteScript.Proofs.Format.Stable
/-!
# What formatting gives

A text has a format just when its braces balance. Then every line has its counterpart with the same
end: a line that starts inside a token is the same, a blank line is empty, and any other one stands
at the depth of its start, less the braces that it closes first. The offsets at which lines and
tokens are cut lie in the text.
-/
namespace RouteScript

namespace Text

def visible (text : List Char) : List Char := text.filter fun c => !isBlank c

theorem visible_append (s t : List Char) : visible (s ++ t) = visible s ++ visible t :=
  List.filter_append ..

theorem visible_blank {blanks : List Char} (blank : ∀ c ∈ blanks, isBlank c) :
    visible blanks = [] :=
  List.filter_eq_nil_iff.2 fun c hc => by simp [blank c hc]

theorem visible_trimEnd (text : List Char) : visible (trimEnd text) = visible text := by
  obtain ⟨blanks, eq, blank⟩ := trimEnd_split text
  conv_rhs => rw [eq, visible_append, visible_blank blank, List.append_nil]

theorem trimStart_split (text : List Char) :
    ∃ blanks, text = blanks ++ trimStart text ∧ ∀ c ∈ blanks, isBlank c :=
  ⟨_, List.takeWhile_append_dropWhile.symm, fun _ hc => List.mem_takeWhile_imp hc⟩

theorem visible_trim (text : List Char) : visible (trim text) = visible text := by
  obtain ⟨blanks, eq, blank⟩ := trimStart_split text
  rw [trim, visible_trimEnd]
  conv_rhs => rw [eq, visible_append, visible_blank blank, List.nil_append]

theorem mem_of_mem_trimEnd {c : Char} {text : List Char} (h : c ∈ trimEnd text) : c ∈ text := by
  obtain ⟨blanks, eq, -⟩ := trimEnd_split text
  exact eq ▸ List.mem_append_left _ h

theorem mem_of_mem_trim {c : Char} {text : List Char} (h : c ∈ trim text) : c ∈ text :=
  (List.dropWhile_suffix _).subset (mem_of_mem_trimEnd h)

/-- A character inside a part of a text stands in that part. -/
theorem exists_split_of_size {before part behind front rest : List Char} {c : Char}
    (eq : before ++ part ++ behind = front ++ c :: rest) (low : size before ≤ size front)
    (high : size front < size before + size part) :
    ∃ lead tail, part = lead ++ c :: tail ∧ size front = size before + size lead := by
  have none {s : List Char} (h : size s = 0) : s = [] := by
    by_contra nonempty
    have := size_pos nonempty
    omega
  obtain ⟨lead, rfl, eq'⟩ : ∃ lead, front = before ++ lead ∧ part ++ behind = lead ++ c :: rest := by
    rw [List.append_assoc] at eq
    rcases List.append_eq_append_iff.1 eq with ⟨lead, front, inner⟩ | ⟨more, rfl, inner⟩
    · exact ⟨lead, front, inner⟩
    · rw [size_append] at low
      obtain rfl := none (s := more) (by omega)
      exact ⟨[], by simp, by simpa using inner.symm⟩
  rw [size_append] at high
  rcases List.append_eq_append_iff.1 eq' with ⟨more, rfl, -⟩ | ⟨more, rfl, inner⟩
  · rw [size_append] at high
    omega
  · cases more with
    | nil => simp at high
    | cons d tail =>
      obtain ⟨rfl, -⟩ := List.cons.inj inner
      exact ⟨lead, tail, rfl, size_append _ _⟩

end Text

namespace Format

open Token

/-- The lines of a text, each with its end; one more, without an end, stands behind the last line
feed. -/
def rows (start : Nat) (text : List Char) : List Line :=
  linesFrom start (Text.pieces text) ++
    if text.getLast?.all (· = '\n') then [⟨start + Text.size text, []⟩] else []

theorem rows_last {line : List Char} (noBreak : '\n' ∉ line) (start : Nat) :
    rows start line = [⟨start, line⟩] := by
  rw [rows]
  cases last : line.getLast? with
  | none =>
    obtain rfl := List.getLast?_eq_none_iff.1 last
    simp [Text.pieces, linesFrom]
  | some c =>
    have other : c ≠ '\n' := fun same => noBreak (same ▸ List.mem_of_getLast? last)
    have nonempty : line ≠ [] := by
      rintro rfl
      contradiction
    rw [Text.pieces_line noBreak nonempty]
    simp [linesFrom, other]

theorem rows_line {line : List Char} (noBreak : '\n' ∉ line) (rest : List Char) (start : Nat) :
    rows start (line ++ '\n' :: rest)
      = ⟨start, line ++ ['\n']⟩ :: rows (start + Text.size (line ++ ['\n'])) rest := by
  have last : (line ++ '\n' :: rest).getLast?.all (· = '\n') = rest.getLast?.all (· = '\n') := by
    rw [List.getLast?_append, List.getLast?_cons]
    cases rest.getLast? <;> simp
  have size : start + Text.size (line ++ '\n' :: rest)
      = start + Text.size (line ++ ['\n']) + Text.size rest := by
    simp only [Text.size_append, Text.size_cons, Text.size_nil]
    omega
  rw [rows, rows, last, size, Text.pieces_newline noBreak, linesFrom]
  rfl

/-- Texts row by row. -/
theorem rows_induction {motive : List Char → Prop}
    (last : ∀ line, '\n' ∉ line → motive line)
    (line : ∀ line rest, '\n' ∉ line → motive rest → motive (line ++ '\n' :: rest))
    (text : List Char) : motive text := by
  induction text using Text.line_induction with
  | nil => exact last [] (by simp)
  | last text noBreak => exact last text noBreak
  | line text rest noBreak ih => exact line text rest noBreak ih

/-- Where a line stands in its text. -/
theorem rows_stand (start : Nat) (text : List Char) : ∀ l ∈ rows start text, ∃ front behind,
    text = front ++ l.text ++ behind ∧ l.start = start + Text.size front := by
  induction text using rows_induction generalizing start with
  | last line noBreak =>
    rw [rows_last noBreak]
    exact List.forall_mem_singleton.2 ⟨[], [], by simp, rfl⟩
  | line line rest noBreak ih =>
    rw [rows_line noBreak]
    intro l hl
    rcases List.mem_cons.1 hl with rfl | later
    · exact ⟨[], rest, by simp, by simp⟩
    · obtain ⟨front, behind, rfl, eq⟩ := ih _ l later
      exact ⟨line ++ '\n' :: front, behind, by simp, by simp [eq]; omega⟩

/-- The empty line behind the last line feed does not matter. -/
theorem formatLines_rows {ts : List Token} {start : Nat} {text : List Char}
    (inside : ∀ t ∈ ts, t.stop ≤ start + Text.size text) (unit : List Char) (depth : Nat) :
    formatLines unit ts depth (rows start text)
      = formatLines unit ts depth (linesFrom start (Text.pieces text)) := by
  rw [rows]
  split
  · generalize linesFrom start (Text.pieces text) = lines
    have none : Line.tokens ⟨start + Text.size text, []⟩ ts = [] := by
      refine List.filter_eq_nil_iff.2 fun t ht => ?_
      have := inside t ht
      simp only [Bool.and_eq_true, decide_eq_true_eq, not_and]
      omega
    induction lines generalizing depth with
    | nil =>
      have blank : Line.indented unit depth ⟨start + Text.size text, []⟩ [] = some [] :=
        Line.indented_blank rfl rfl
      simp only [List.nil_append, formatLines, none, blank, List.foldlM_nil, pure,
        Option.bind_eq_bind, Option.bind_some]
      split <;> rfl
    | cons l lines ih => simp only [List.cons_append, formatLines, ih]
  · rw [List.append_nil]

namespace Line

/-- The line starts inside a token. -/
def IsInside (ts : List Token) (l : Line) : Prop := ∃ t ∈ ts, t.start < l.start ∧ l.start < t.stop

/-- The closing braces that the tokens of the line begin with. -/
def closesFirst (ts : List Token) (l : Line) : Nat :=
  ((l.tokens ts).takeWhile fun t => t.kind = .rBrace).length

variable {l : Line} {ts : List Token}

theorem start_le_stop (l : Line) : l.start ≤ l.stop := Nat.le_add_right _ _

theorem continues_iff (inOrder : InOrder ts) : l.continues (l.tokens ts) ↔ l.IsInside ts := by
  have order := l.start_le_stop
  have on (t : Token) : t ∈ l.tokens ts ↔ t ∈ ts ∧ l.start < t.stop ∧ t.start < l.stop := by
    simp [tokens, List.mem_filter]
  rw [continues, Option.any_eq_true]
  constructor
  · rintro ⟨t, head, early⟩
    obtain ⟨ht, late, -⟩ := (on t).1 (List.mem_of_head? head)
    exact ⟨t, ht, by simpa using early, late⟩
  · rintro ⟨t, ht, early, late⟩
    have here := (on t).2 ⟨ht, late, Nat.lt_of_lt_of_le early order⟩
    obtain ⟨first, more, eq⟩ := List.exists_cons_of_ne_nil (List.ne_nil_of_mem here)
    refine ⟨first, by rw [eq]; rfl, ?_⟩
    rw [eq] at here
    rcases List.mem_cons.1 here with rfl | later
    · simpa using early
    · have ordered : (l.tokens ts).Pairwise fun t u => t.stop ≤ u.start :=
        inOrder.ordered.sublist List.filter_sublist
      have before := (List.pairwise_cons.1 (eq ▸ ordered)).1 t later
      have behind := ((on first).1 (eq ▸ List.mem_cons_self)).2.1
      omega

theorem leadingCloses_of_outside (outside : l.continues (l.tokens ts) = false) :
    l.leadingCloses (l.tokens ts) = l.closesFirst ts := by
  rw [leadingCloses, outside]
  rfl

theorem text_eq (l : Line) : l.text = l.body ++ l.ending ∧ ∀ c ∈ l.ending, isEnd c := by
  have split := List.rdropWhile_append_rtakeWhile (p := isEnd) (l := l.text)
  have ending : l.ending = l.text.rtakeWhile isEnd := by
    rw [Line.ending]
    conv_lhs => rw [← split]
    exact List.drop_left
  rw [ending]
  exact ⟨split.symm, fun c hc => List.mem_rtakeWhile_imp hc⟩

/-- What cuts a line at its last token, if that is an opening brace. -/
def Opens (ts : List Token) (l : Line) : Prop :=
  ∀ t, (l.tokens ts).getLast? = some t → t.kind = .lBrace → ∃ before behind,
    l.body = before ++ '{' :: behind ∧ t.start = l.start + Text.size before

end Line

/-- A brace that ends the tokens of a line stands in the line before its end. -/
theorem opens_rows (text : List Char) : ∀ l ∈ rows 0 text, l.Opens (all text) := by
  intro l hl t last kind
  obtain ⟨front, behind, eq, start⟩ := rows_stand 0 text l hl
  have here := List.mem_filter.1 (List.mem_of_getLast? last)
  have spelled := allFrom_spelled 0 true text t here.1
  have slice := (allFrom_cut 0 true text).slice? (Spot.in_start text) t here.1
  have text_eq : t.text = ['{'] := spelled.text "\x7b" (by rw [kind]; rfl)
  rw [text_eq] at slice
  obtain ⟨before, after, eq', size, stop⟩ := Text.slice?_split slice
  have bounds : l.start < t.stop ∧ t.start < l.stop := by simpa using here.2
  have length : l.stop = l.start + Text.size l.text := rfl
  have one : Text.size ['{'] = 1 := rfl
  rw [Nat.zero_add] at start
  have same : front ++ l.text ++ behind = before ++ '{' :: after := by
    rw [← eq, eq', List.append_assoc, List.singleton_append]
  obtain ⟨lead, tail, part, size'⟩ := Text.exists_split_of_size same (by omega) (by omega)
  obtain ⟨whole, ends⟩ := l.text_eq
  refine ⟨lead, ?_⟩
  rcases List.append_eq_append_iff.1 (whole.symm.trans part) with ⟨more, rfl, inner⟩ | ⟨more, inner, eq⟩
  · have brace : '{' ∈ l.ending := by rw [inner]; simp
    exact absurd (ends _ brace) (by decide)
  · cases more with
    | nil =>
      have brace : '{' ∈ l.ending := by rw [← List.nil_append l.ending, ← eq]; simp
      exact absurd (ends _ brace) (by decide)
    | cons d more =>
      obtain ⟨rfl, -⟩ := List.cons.inj eq
      exact ⟨more, inner, by omega⟩

namespace Line

section Core

variable {l : Line} {ts : List Token}

/-- A line without the blanks at its ends, and perhaps with another space before its last brace. -/
structure Core (l : Line) (core : List Char) : Prop where
  some_char : core ≠ []
  bare : Text.Bare core
  visible : Text.visible core = Text.visible l.body
  inside : ∀ c ∈ core, c ∈ l.body ∨ c = ' '

theorem core_trim (nonempty : Text.trim l.body ≠ []) : l.Core (Text.trim l.body) :=
  ⟨nonempty, Text.bare_trim _, Text.visible_trim _, fun _ hc => .inl (Text.mem_of_mem_trim hc)⟩

/-- With one space before its last brace the line has the same visible characters. -/
theorem core_opening {before behind : List Char} (some_before : Text.trim before ≠ [])
    (body : l.body = before ++ '{' :: behind) :
    l.Core (Text.trim before ++ ' ' :: Text.trimEnd ('{' :: behind)) := by
  have bare := Text.bare_trim before
  have some_behind : Text.trimEnd ('{' :: behind) ≠ [] := by
    intro none
    have same := Text.visible_trimEnd ('{' :: behind)
    rw [none] at same
    exact absurd same.symm (List.cons_ne_nil _ _)
  refine ⟨by simp, ⟨fun c head => ?_, fun c last => ?_⟩, ?_, fun c hc => ?_⟩
  · rw [List.head?_append_of_ne_nil _ some_before] at head
    exact bare.head c head
  · rw [List.getLast?_append_of_ne_nil _ (by simp), List.getLast?_cons_of_ne_nil some_behind] at last
    exact Text.last_trimEnd _ c last
  · rw [body, Text.visible_append, Text.visible_append, Text.visible_trim]
    exact congrArg _ (Text.visible_trimEnd _)
  · rw [body]
    rcases List.mem_append.1 hc with inner | hc
    · exact .inl (List.mem_append_left _ (Text.mem_of_mem_trim inner))
    · rcases List.mem_cons.1 hc with rfl | inner
      · exact .inr rfl
      · exact .inl (List.mem_append_right _ (Text.mem_of_mem_trimEnd inner))

theorem core_normalized (nonempty : Text.trim l.body ≠ []) (opens : l.Opens ts) :
    l.Core (l.normalized (l.tokens ts)) := by
  by_cases opening : ∃ t, (l.tokens ts).getLast? = some t ∧ t.kind = .lBrace
  · obtain ⟨t, last, kind⟩ := opening
    obtain ⟨before, behind, body, start⟩ := opens t last kind
    rw [normalized_opening last kind body start]
    split
    · exact core_trim nonempty
    · rename_i some_before
      exact core_opening some_before body
  · rw [normalized_plain fun t last kind => opening ⟨t, last, kind⟩]
    exact core_trim nonempty

end Core

end Line

/-- How a line is taken over into the formatted text. -/
structure Reindents (unit : List Char) (ts : List Token) (l l' : Line) : Prop where
  ending : l'.ending = l.ending
  inside : l.IsInside ts → l'.text = l.text
  blank : ¬ l.IsInside ts → Text.trim l.body = [] → l'.body = []
  visible : ¬ l.IsInside ts → Text.trim l.body ≠ [] →
    closed (before l.start ts) + l.closesFirst ts ≤ opened (before l.start ts) ∧
      ∃ core, l.Core core ∧ l'.body = (List.replicate (opened (before l.start ts)
        - closed (before l.start ts) - l.closesFirst ts) unit).flatten ++ core

section Taken

variable {unit line end_ out : List Char} {depth start : Nat} {ts : List Token}

theorem Line.exists_parts (noBreak : '\n' ∉ line) (feed : ∀ c ∈ end_, c = '\n') (start : Nat) :
    ∃ inner returns, line = inner ++ returns ∧ (∀ c ∈ returns, c = '\r') ∧
      body ⟨start, line ++ end_⟩ = inner ∧ ending ⟨start, line ++ end_⟩ = returns ++ end_ := by
  obtain ⟨inner, returns, rfl, ends, last⟩ := exists_body noBreak
  exact ⟨inner, returns, rfl, ends, parts ends feed last start⟩

/-- The parts of a line that was indented. -/
theorem Line.parts_indented {l : Line} {core returns : List Char} (h : l.Core core)
    (units : ∀ c ∈ unit, c = ' ' ∨ c = '\t') (noBreak : '\n' ∉ l.body)
    (ends : ∀ c ∈ returns, c = '\r') (feed : ∀ c ∈ end_, c = '\n') (level start : Nat) :
    let text := (List.replicate level unit).flatten ++ core
    '\n' ∉ text ++ returns ∧ body ⟨start, text ++ (returns ++ end_)⟩ = text ∧
      ending ⟨start, text ++ (returns ++ end_)⟩ = returns ++ end_ := by
  intro text
  constructor
  · intro there
    rcases List.mem_append.1 there with there | there
    · rcases List.mem_append.1 there with indent | there
      · obtain ⟨_, hu, hc⟩ := List.mem_flatten.1 indent
        exact absurd (units _ (List.eq_of_mem_replicate hu ▸ hc)) (by decide)
      · rcases h.inside _ there with there | space
        · exact noBreak there
        · exact absurd space (by decide)
    · exact absurd (ends _ there) (by decide)
  · rw [← List.append_assoc]
    refine parts ends feed (fun c last => ?_) start
    rw [List.getLast?_append_of_ne_nil _ h.some_char] at last
    exact isEnd_of_visible h.bare c last

/-- A line at the depth of its start, with the same end and no other line feed. -/
theorem exists_reindents (units : ∀ c ∈ unit, c = ' ' ∨ c = '\t') (noBreak : '\n' ∉ line)
    (feed : ∀ c ∈ end_, c = '\n') (inOrder : InOrder ts)
    (opens : Line.Opens ts ⟨start, line ++ end_⟩)
    (here : (before start ts).foldlM depthBehind 0 = some depth)
    (indented : Line.indented unit depth ⟨start, line ++ end_⟩ (Line.tokens ⟨start, line ++ end_⟩ ts)
      = some out) :
    ∃ line', out = line' ++ end_ ∧ '\n' ∉ line' ∧
      ∀ start', Reindents unit ts ⟨start, line ++ end_⟩ ⟨start', out⟩ := by
  obtain ⟨inner, returns, rfl, ends, body, ending⟩ := Line.exists_parts noBreak feed start
  generalize here_l : Line.mk start (inner ++ returns ++ end_) = l at *
  have inside := Line.continues_iff (l := l) inOrder
  cases continues : l.continues (l.tokens ts) with
  | true =>
    rw [Line.indented_continues continues] at indented
    obtain rfl := Option.some.inj indented
    refine ⟨inner ++ returns, by rw [← here_l], noBreak, fun start' => ⟨rfl, fun _ => rfl, ?_, ?_⟩⟩
    · exact fun outside => absurd (inside.1 continues) outside
    · exact fun outside => absurd (inside.1 continues) outside
  | false =>
    have outside : ¬ l.IsInside ts := by
      rw [← inside, continues]
      exact Bool.false_ne_true
    by_cases blank : Text.trim l.body = []
    · rw [Line.indented_blank continues blank, ending] at indented
      obtain rfl := Option.some.inj indented
      refine ⟨returns, rfl, fun there => absurd (ends _ there) (by decide), fun start' => ?_⟩
      have none : ∀ c, [].getLast? = some c → Line.isEnd c = false := by simp
      have parts := Line.parts ends feed none start'
      exact ⟨parts.2.trans ending.symm, fun h => absurd h outside, fun _ _ => parts.1,
        fun _ h => absurd blank h⟩
    · have core := Line.core_normalized blank opens
      rw [Line.indented_eq continues blank, Line.leadingCloses_of_outside continues, ending]
        at indented
      split at indented
      · contradiction
      rename_i enough
      obtain rfl := Option.some.inj indented
      have start_eq : l.start = start := here_l ▸ rfl
      have total := (foldlM_eq_some_iff.1 here).2
      have depth_eq : opened (before l.start ts) - closed (before l.start ts) = depth := by
        rw [start_eq]
        omega
      have enough' : closed (before l.start ts) + l.closesFirst ts
          ≤ opened (before l.start ts) := by
        rw [start_eq]
        omega
      have noBreak' : '\n' ∉ l.body := fun there =>
        noBreak (List.mem_append_left _ (body ▸ there))
      have parts := Line.parts_indented core units noBreak' ends feed (depth - l.closesFirst ts)
      refine ⟨_, (List.append_assoc _ returns end_).symm, (parts 0).1, fun start' => ?_⟩
      refine ⟨(parts start').2.2.trans ending.symm, fun h => absurd h outside,
        fun _ h => absurd h blank, fun _ _ => ⟨enough', _, core, ?_⟩⟩
      rw [depth_eq]
      exact (parts start').2.1

end Taken

section Lines

variable {unit text out : List Char} {depth start : Nat} {ts : List Token}

theorem before_append (inOrder : InOrder ts) {m n : Nat} (order : m ≤ n) :
    ∃ later, before n ts = before m ts ++ later := by
  have first : ts.filter (fun t => decide (t.start < n) && decide (t.start < m)) = before m ts := by
    refine List.filter_congr fun t _ => ?_
    rw [← Bool.decide_and, decide_eq_decide]
    omega
  exact ⟨_, (filter_start inOrder.pairwise_start _ m).trans (congrArg (· ++ _) first)⟩

theorem formatLines_cons_iff {l : Line} {lines : List Line} :
    formatLines unit ts depth (l :: lines) = some out ↔ ∃ text depth' rest,
      l.indented unit depth (l.tokens ts) = some text ∧
        (l.tokens ts).foldlM depthBehind depth = some depth' ∧
        formatLines unit ts depth' lines = some rest ∧ out = text ++ rest := by
  simp only [formatLines, Option.bind_eq_bind, Option.bind_eq_some_iff, pure, Option.some_inj]
  constructor
  · rintro ⟨text, indented, depth', opened, rest, later, rfl⟩
    exact ⟨text, depth', rest, indented, opened, later, rfl⟩
  · rintro ⟨text, depth', rest, indented, opened, later, rfl⟩
    exact ⟨text, indented, depth', opened, rest, later, rfl⟩

theorem Line.stop_append (start : Nat) (line rest : List Char) :
    start + Text.size (line ++ '\n' :: rest)
      = Line.stop ⟨start, line ++ ['\n']⟩ + Text.size rest := by
  simp only [stop, Text.size_append, Text.size_cons, Text.size_nil]
  omega

/-- The lines of a text that has a format, and the depth at its end. -/
theorem reindents_formatLines (units : ∀ c ∈ unit, c = ' ' ∨ c = '\t') (inOrder : InOrder ts)
    (opens : ∀ l ∈ rows start text, l.Opens ts)
    (here : (before start ts).foldlM depthBehind 0 = some depth)
    (formatted : formatLines unit ts depth (rows start text) = some out) (start' : Nat) :
    List.Forall₂ (Reindents unit ts) (rows start text) (rows start' out) ∧
      (before (start + Text.size text) ts).foldlM depthBehind 0 = some 0 := by
  -- the depth behind the first line
  have behind {l : Line} {depth depth' : Nat}
      (here : (before l.start ts).foldlM depthBehind 0 = some depth)
      (opened : (l.tokens ts).foldlM depthBehind depth = some depth') :
      (before l.stop ts).foldlM depthBehind 0 = some depth' := by
    rw [Line.foldlM_before inOrder l.start_le_stop, here, Option.bind_some, opened]
  induction text using rows_induction generalizing start depth out start' with
  | last line noBreak =>
    rw [rows_last noBreak] at opens formatted ⊢
    obtain ⟨text, depth', rest, indented, opened, ended, rfl⟩ := formatLines_cons_iff.1 formatted
    obtain ⟨rfl, rfl⟩ : depth' = 0 ∧ rest = [] := by
      rw [formatLines] at ended
      split at ended
      · exact ⟨‹_›, (Option.some.inj ended).symm⟩
      · contradiction
    have opens := opens _ (List.mem_singleton_self _)
    rw [← List.append_nil line] at indented opens
    obtain ⟨line', rfl, noBreak', reindents⟩ :=
      exists_reindents units noBreak (by simp) inOrder opens here indented
    rw [List.append_nil] at reindents ⊢
    refine ⟨?_, behind (l := ⟨start, line⟩) here opened⟩
    rw [List.append_nil, rows_last noBreak']
    rw [List.append_nil] at reindents
    exact .cons (reindents start') .nil
  | line line rest noBreak ih =>
    rw [rows_line noBreak] at opens formatted ⊢
    obtain ⟨text, depth', rest', indented, opened, later, rfl⟩ := formatLines_cons_iff.1 formatted
    obtain ⟨opens, opens'⟩ := List.forall_mem_cons.1 opens
    obtain ⟨line', rfl, noBreak', reindents⟩ :=
      exists_reindents units noBreak (by simp) inOrder opens here indented
    obtain ⟨below, total⟩ := ih opens' (behind here opened) later
      (start' + Text.size (line' ++ ['\n']))
    rw [List.append_assoc, List.singleton_append, rows_line noBreak']
    refine ⟨.cons (reindents start') below, ?_⟩
    rw [Line.stop_append]
    exact total

/-- A line is indented wherever the depth can be followed over it. -/
theorem Line.exists_indented (unit : List Char) {l : Line} {d : Nat}
    (followed : (l.tokens ts).foldlM depthBehind depth = some d) :
    ∃ out, l.indented unit depth (l.tokens ts) = some out := by
  cases continues : l.continues (l.tokens ts) with
  | true => exact ⟨_, indented_continues continues⟩
  | false =>
    by_cases blank : Text.trim l.body = []
    · exact ⟨_, indented_blank continues blank⟩
    · have enough : ¬ depth < l.leadingCloses (l.tokens ts) := by
        rw [leadingCloses_of_outside continues]
        exact Nat.not_lt.2 (takeWhile_le followed)
      exact ⟨_, (indented_eq continues blank).trans (if_neg enough)⟩

/-- Where the depth can be followed to the end and is none there, the text has a format. -/
theorem exists_formatLines (unit : List Char) (inOrder : InOrder ts)
    (here : (before start ts).foldlM depthBehind 0 = some depth)
    (total : (before (start + Text.size text) ts).foldlM depthBehind 0 = some 0) :
    ∃ out, formatLines unit ts depth (rows start text) = some out := by
  induction text using rows_induction generalizing start depth with
  | last line noBreak =>
    have opened := total
    rw [show start + Text.size line = Line.stop ⟨start, line⟩ from rfl,
      Line.foldlM_before inOrder (Line.start_le_stop _), here, Option.bind_some] at opened
    obtain ⟨out, indented⟩ := Line.exists_indented unit opened
    rw [rows_last noBreak]
    exact ⟨_, formatLines_cons_iff.2 ⟨out, 0, [], indented, opened, rfl, rfl⟩⟩
  | line line rest noBreak ih =>
    rw [Line.stop_append] at total
    obtain ⟨later, split⟩ := before_append (m := Line.stop ⟨start, line ++ ['\n']⟩) inOrder
      (Nat.le_add_right _ (Text.size rest))
    have first := total
    rw [split, foldlM_append] at first
    obtain ⟨depth', behind, -⟩ := Option.bind_eq_some_iff.1 first
    have opened := behind
    rw [Line.foldlM_before inOrder (Line.start_le_stop _), here, Option.bind_some] at opened
    obtain ⟨text, indented⟩ := Line.exists_indented unit opened
    obtain ⟨out, formatted⟩ := ih behind total
    rw [rows_line noBreak]
    exact ⟨_, formatLines_cons_iff.2 ⟨text, depth', out, indented, opened, formatted, rfl⟩⟩

end Lines

/-- Where a line and the tokens are cut to indent it. -/
structure Line.Cuts (ts : List Token) (l : Line) : Prop where
  parts : l.text = l.body ++ l.ending
  window : l.tokens ts <:+: ts
  brace : ∀ t, (l.tokens ts).getLast? = some t → t.kind = .lBrace → l.start ≤ t.start ∧
    ∃ front behind, Text.slice? l.body 0 (t.start - l.start) = some front ∧
      Text.after? l.body (t.start - l.start) = some behind

theorem cuts_rows (text : List Char) : ∀ l ∈ rows 0 text, l.Cuts (all text) := by
  intro l hl
  refine ⟨l.text_eq.1, l.isInfix_tokens (inOrder_all text), fun t last kind => ?_⟩
  obtain ⟨front, behind, body, start⟩ := opens_rows text l hl t last kind
  have here : t.start - l.start = Text.size front := by omega
  have slice := Text.slice?_append [] front ('{' :: behind)
  rw [List.nil_append, Text.size_nil, Nat.zero_add] at slice
  rw [here, body]
  exact ⟨by omega, front, '{' :: behind, slice, Text.after?_size_append _ _⟩

/-- A text has a format just when its braces balance, which has its lines, each at the depth of its
start. No cut is made outside of a line or inside a character. -/
theorem format_rows (options : Options) (text : List Char) :
    ((format options text).isSome ↔ Balanced (all text)) ∧
      (∀ out, format options text = some out →
        List.Forall₂ (Reindents options.unit (all text)) (rows 0 text) (rows 0 out)) ∧
      ∀ l ∈ rows 0 text, l.Cuts (all text) := by
  have inOrder := inOrder_all text
  have bounds := (allFrom_cut 0 true text).bounds
  have inside : ∀ t ∈ all text, t.stop ≤ 0 + Text.size text := fun t ht => (bounds t ht).2.2
  have none : before 0 (all text) = [] := List.filter_eq_nil_iff.2 fun t _ => by simp
  have whole : before (0 + Text.size text) (all text) = all text := by
    refine List.filter_eq_self.2 fun t ht => ?_
    have low := inside t ht
    have := inOrder.nonempty t ht
    simp only [decide_eq_true_eq]
    omega
  have here : (before 0 (all text)).foldlM depthBehind 0 = some 0 := by
    rw [none]
    rfl
  have lines (out : List Char) (formatted : format options text = some out) :
      List.Forall₂ (Reindents options.unit (all text)) (rows 0 text) (rows 0 out) ∧
        Balanced (all text) := by
    rw [format_eq, ← formatLines_rows inside] at formatted
    have reindents := reindents_formatLines (unit_blank options) inOrder (opens_rows text) here
      formatted 0
    rw [whole, ← balanced_iff] at reindents
    exact reindents
  refine ⟨⟨fun formatted => ?_, fun balanced => ?_⟩, fun out h => (lines out h).1, cuts_rows text⟩
  · obtain ⟨out, formatted⟩ := Option.isSome_iff_exists.1 formatted
    exact (lines out formatted).2
  · rw [balanced_iff, ← whole] at balanced
    obtain ⟨out, formatted⟩ := exists_formatLines options.unit inOrder here balanced
    rw [format_eq, ← formatLines_rows inside, formatted]
    rfl

/-- Braces inside of a string and of a comment over two lines are not counted, a line may close two
blocks at once, and a blank line keeps its carriage return. -/
theorem format_rows_nested :
    let options : Options := ⟨true, 2⟩
    let text := ("route[A]  \x7b\n/* ž\n  \x7b */ if (1)\x7b\n \t\r\nxlog(\"\x7d\");\n"
      ++ "\x7d\x7d # č\x0c\n").toList
    let out := ("route[A] \x7b\n  /* ž\n  \x7b */ if (1)\x7b\n\r\n    xlog(\"\x7d\");\n"
      ++ "\x7d\x7d # č\n").toList
    format options text = some out ∧ Balanced (all text) ∧
      List.Forall₂ (Reindents options.unit (all text)) (rows 0 text) (rows 0 out) := by
  intro options text out
  have formatted : format options text = some out := by decide
  have outcome := format_rows options text
  exact ⟨formatted, outcome.1.1 (by rw [formatted]; rfl), outcome.2.1 out formatted⟩

end Format

end RouteScript
