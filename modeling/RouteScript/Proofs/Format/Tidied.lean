import RouteScript.Proofs.Format.Core
/-!
# Lines before and behind their indentation

A line and what becomes of it have the same tokens, and the indented line is kept as it is when it
is indented again.
-/
namespace RouteScript.Format

open Token

/-- Only spaces and tabs stand before what is on the line, and no blank behind a backslash that ends
it. -/
structure Line.Tidy (l : Line) : Prop where
  lead : Text.trim l.body = [] ∨ ∀ c ∈ l.body.takeWhile Text.isBlank, c = ' ' ∨ c = '\t'
  trail : (Text.trimEnd l.body).getLast? = some '\\' → Text.trimEnd l.body = l.body

instance (l : Line) : Decidable l.Tidy :=
  decidable_of_iff ((Text.trim l.body = []
      ∨ (l.body.takeWhile Text.isBlank).all fun c => c = ' ' ∨ c = '\t')
    ∧ ((Text.trimEnd l.body).getLast? = some '\\' → Text.trimEnd l.body = l.body))
    ⟨fun h => ⟨by simpa using h.1, h.2⟩, fun h => ⟨by simpa using h.lead, h.trail⟩⟩

/-- No token starts with a blank, and the lines that do not start inside a token are tidy. -/
structure TidyLines (all : List Token) (lines : List Line) : Prop where
  visible : Visible all
  tidy : ∀ l ∈ lines, l.continues (l.tokens all) = false → l.Tidy

instance (all : List Token) (lines : List Line) : Decidable (TidyLines all lines) :=
  decidable_of_iff
    (Visible all ∧ ∀ l ∈ lines, l.continues (l.tokens all) = false → l.Tidy)
    ⟨fun h => ⟨h.1, h.2⟩, fun h => ⟨h.visible, h.tidy⟩⟩

theorem TidyLines.past {past all : List Token} {lines : List Line}
    (before : ∀ t ∈ past, ∀ l ∈ lines, t.stop ≤ l.start) (h : TidyLines (past ++ all) lines) :
    TidyLines all lines := by
  refine ⟨fun t ht => h.visible t (List.mem_append_right _ ht), fun l hl outside => h.tidy l hl ?_⟩
  rwa [Line.tokens_past fun t ht => before t ht l hl]

section From

variable {unit line rest : List Char} {pending pending' : Option Pending} {offset depth : Nat}
  {done : List Token}

/-- The lines from the start of a line on, indented. -/
def formatFrom (unit : List Char) (pending : Option Pending) (offset depth : Nat)
    (text : List Char) : Option (List Char) :=
  formatLines unit (ahead pending offset text) depth (linesFrom offset (Text.pieces text))

/-- The lines behind the end of a line, indented. -/
def formatBehind (unit : List Char) (pending : Option Pending) (offset depth : Nat)
    (rest : List Char) : Option (List Char) :=
  formatLines unit (ahead pending offset rest) depth
    (linesFrom (offset + Text.size (rest.take 1)) (Text.pieces rest.tail))

theorem formatBehind_nil :
    formatBehind unit pending offset depth [] = if depth = 0 then some [] else none := rfl

theorem turn_stop (stops : ∀ p, pending = some p → p.token.stop = offset) :
    ∀ t ∈ (turn pending).1, t.stop = offset := by
  unfold turn
  split
  · simp
  · simp
  · simpa using stops _ rfl
  · simp

theorem formatBehind_newline (stops : ∀ p, pending = some p → p.token.stop = offset)
    (rest : List Char) : formatBehind unit pending offset depth ('\n' :: rest)
      = formatFrom unit (turn pending).2 (offset + 1) depth rest := by
  rw [formatBehind, ahead_newline stops, formatLines_past]
  · rfl
  · intro t ht l hl
    have stop := turn_stop stops t ht
    have start := start_linesFrom _ _ l hl
    omega

/-- The tokens on a line, the last of which may go on behind it. -/
theorem tokens_line (h : Passage pending offset line done pending')
    (some : line ≠ [] ∨ pending' = none) (ends : EndsLine rest) :
    ∃ closing, Closes pending' closing
      ∧ Line.tokens ⟨offset, line ++ rest.take 1⟩ (ahead pending offset (line ++ rest))
        = done ++ closing := by
  obtain ⟨closing, later, split, closes, starts⟩ := ends.closes fun p hp => (h.open_ p hp).2.1
  refine ⟨closing, closes, ?_⟩
  have size : Text.size (line ++ rest.take 1) = Text.size line + Text.size (rest.take 1) :=
    Text.size_append _ _
  rw [h.reads rest ends, split, ← List.append_assoc, Line.tokens_later fun t ht => by
    have := starts t ht
    simp only [Line.stop]
    omega]
  refine Line.tokens_all fun t ht => ?_
  simp only [Line.stop]
  rcases List.mem_append.1 ht with here | there
  · have := h.inside t here
    omega
  · cases closes with
    | none => simp at there
    | some p more =>
      obtain rfl := List.mem_singleton.1 there
      obtain ⟨start, stop, -⟩ := h.open_ p rfl
      have pos : 0 < Text.size line := Text.size_pos (some.resolve_right (by simp))
      rw [extend_start, extend_stop]
      omega

/-- The lines of a text are the first one, with its indentation, and those behind it. -/
theorem formatFrom_line (h : Passage pending offset line done pending') (noBreak : '\n' ∉ line)
    (ends : EndsLine rest) (nonempty : line ++ rest ≠ [] ∨ pending = none) :
    formatFrom unit pending offset depth (line ++ rest) = (do
      let on := Line.tokens ⟨offset, line ++ rest.take 1⟩ (ahead pending offset (line ++ rest))
      let text ← Line.indented unit depth ⟨offset, line ++ rest.take 1⟩ on
      let depth ← on.foldlM depthBehind depth
      return text ++ (← formatBehind unit pending' (offset + Text.size line) depth rest)) := by
  by_cases nothing : line ++ rest = []
  · obtain ⟨rfl, rfl⟩ := List.append_eq_nil_iff.1 nothing
    obtain rfl := nonempty.resolve_left (by simp)
    change (if depth = 0 then some [] else none)
      = (if depth = 0 then some [] else none).bind fun more : List Char => some ([] ++ more)
    split <;> rfl
  · rw [formatFrom, linesFrom_cons noBreak ends nothing, formatLines]
    have behind (depth : Nat) : formatLines unit (ahead pending offset (line ++ rest)) depth
        (linesFrom (offset + Text.size (line ++ rest.take 1)) (Text.pieces rest.tail))
          = formatBehind unit pending' (offset + Text.size line) depth rest := by
      rw [h.reads rest ends, formatLines_past, formatBehind, Text.size_append, Nat.add_assoc]
      intro t ht l hl
      have stop := (h.inside t ht).2.2
      have start := start_linesFrom _ _ l hl
      rw [Text.size_append] at start
      omega
    simp only [behind]

theorem continues_none (l : Line) (text : List Char) :
    l.continues (l.tokens (ahead none l.start text)) = false := by
  rw [Line.continues, Option.any_eq_false]
  intro t ht
  have member : t ∈ ahead none l.start text := List.mem_of_mem_filter (List.mem_of_mem_head? ht)
  have := le_start_run _ t member
  simpa using this

end From

/-- A line with this core between its blanks becomes the other core, with its indentation. -/
def Normal (core : List Char) (done : List Token) (pending : Option Pending)
    (core' : List Char) : Prop :=
  ∀ (l : Line) (lead blanks : List Char) (closing : List Token),
    l.body = lead ++ (core ++ blanks) → (∀ c ∈ lead, Text.isBlank c) →
    (∀ c ∈ blanks, Text.isBlank c) → (∀ t ∈ closing, t.kind ≠ .lBrace) →
    (pending = none ↔ closing = []) →
    l.normalized (done.map (shift (l.start + Text.size lead)) ++ closing) = core'

section Core

variable {core : List Char} {done : List Token} {pending : Option Pending}

theorem normal_plain (bare : Text.Bare core) (plain : pending = none →
    ∀ t, done.getLast? = some t → t.kind = .lBrace → core = ['{'] ∧ t.start = 0) :
    Normal core done pending core := by
  intro l lead blanks closing body front blank other none_iff
  have trimmed : Text.trim l.body = core := by rw [body, Text.trim_append front blank bare]
  by_cases opens : ∃ t, (done.map (shift (l.start + Text.size lead)) ++ closing).getLast? = some t
      ∧ t.kind = .lBrace
  · obtain ⟨t, last, kind⟩ := opens
    have nothing : closing = [] := by
      by_contra nonempty
      rw [List.getLast?_append_of_ne_nil _ nonempty] at last
      exact other t (List.mem_of_getLast? last) kind
    subst nothing
    rw [List.append_nil] at last ⊢
    rw [List.getLast?_map, Option.map_eq_some_iff] at last
    obtain ⟨brace, last, rfl⟩ := last
    obtain ⟨alone, start⟩ := plain (none_iff.2 rfl) brace last kind
    subst alone
    have moved : (brace.shift (l.start + Text.size lead)).start = l.start + Text.size lead := by
      simp only [shift, start, Nat.zero_add]
    have nothing : Text.trim lead = [] := by
      have cut : Text.trim (lead ++ ([] ++ [])) = [] :=
        Text.trim_append front (by simp) ⟨by simp, by simp⟩
      simpa using cut
    rw [Line.normalized_brace (by rw [List.getLast?_map, last]; rfl) kind body blank moved,
      if_pos nothing, trimmed]
  · rw [Line.normalized_plain fun t last kind => opens ⟨t, last, kind⟩, trimmed]

/-- Any gap before a brace at the end of a line becomes one space. -/
theorem normal_opening {part gaps : List Char} {newline : Bool} (bare : Text.Bare part)
    (nonempty : part ≠ []) (gap : ∀ c ∈ gaps, Text.isBlank c) :
    Normal (part ++ (gaps ++ ['{']))
      (done ++ [⟨.lBrace, ['{'], Text.size (part ++ gaps), newline⟩]) none
      (part ++ ([' '] ++ ['{'])) := by
  intro l lead blanks closing body front blank _ none_iff
  obtain rfl := none_iff.1 rfl
  have body' : l.body = (lead ++ (part ++ gaps)) ++ '{' :: blanks := by
    rw [body]
    simp
  have trimmed : Text.trim (lead ++ (part ++ gaps)) = part := Text.trim_append front gap bare
  let brace : Token := ⟨.lBrace, ['{'], Text.size (part ++ gaps), newline⟩
  have last : ((done ++ [brace]).map (shift (l.start + Text.size lead))).getLast?
      = some (brace.shift (l.start + Text.size lead)) := by simp
  have start : (brace.shift (l.start + Text.size lead)).start
      = l.start + Text.size (lead ++ (part ++ gaps)) := by
    simp only [brace, shift, Text.size_append]
    omega
  rw [List.append_nil, Line.normalized_brace last rfl body' blank start, trimmed, if_neg nonempty]
  rfl

/-- A core that becomes another one, with the same tokens, and the other one stays as it is. -/
structure Turns (core : List Char) (done : List Token) (pending : Option Pending)
    (core' : List Char) (done' : List Token) : Prop where
  reading : ∃ lineStart newline, Reading true true core' done' pending lineStart newline
  bare : Text.Bare core'
  nonempty : core' ≠ []
  noBreak : '\n' ∉ core'
  resembles : ∀ d d', List.Forall₂ Resembles (done.map (shift d)) (done'.map (shift d'))
  touches : touches none (done' ++ (pending.map Pending.token).toList)
    = touches none (done ++ (pending.map Pending.token).toList)
  left : Normal core done pending core'
  right : Normal core' done' pending core'

theorem touches_opening (front : List Token) (start : Nat) (newline : Bool) :
    Token.touches none (front ++ [⟨.lBrace, ['{'], start, newline⟩])
      = Token.touches none front ++ [false] := by
  rw [touches_append, touches_significant rfl]
  simp [Token.touches, looks]

theorem forall₂_resembles_shift (d d' : Nat) (ts : List Token) :
    List.Forall₂ Resembles (ts.map (shift d)) (ts.map (shift d')) := by
  rw [List.forall₂_map_left_iff, List.forall₂_map_right_iff]
  exact List.forall₂_same.2 fun t _ => resembles_shift d d' t

theorem turns_opening {part gaps : List Char} {front : List Token}
    {newline₁ lineStart newline : Bool} (bare : Text.Bare part) (nonempty : part ≠ [])
    (noBreak : '\n' ∉ part) (gap : ∀ c ∈ gaps, Text.isBlank c)
    (reads : Reading true true (part ++ ([' '] ++ ['{']))
      (front ++ [⟨.lBrace, ['{'], Text.size (part ++ [' ']), newline₁⟩]) none lineStart newline) :
    Turns (part ++ (gaps ++ ['{'])) (front ++ [⟨.lBrace, ['{'], Text.size (part ++ gaps), newline₁⟩])
      none (part ++ ([' '] ++ ['{']))
      (front ++ [⟨.lBrace, ['{'], Text.size (part ++ [' ']), newline₁⟩]) where
  reading := ⟨_, _, reads⟩
  bare := by
    refine ⟨fun c first => bare.head c ?_, ?_⟩
    · rwa [List.head?_append_of_ne_nil _ nonempty] at first
    · simp only [List.singleton_append, List.getLast?_append, List.getLast?_cons_cons,
        List.getLast?_singleton, Option.some_or, Option.some.injEq]
      rintro c rfl
      decide
  nonempty := by simp
  noBreak := by simp [noBreak]
  resembles d d' := by
    rw [List.map_append, List.map_append]
    exact List.rel_append (forall₂_resembles_shift d d' front) (.cons ⟨rfl, rfl, .inl rfl⟩ .nil)
  touches := by
    simp only [Option.map_none, Option.toList_none, List.append_nil]
    rw [touches_opening, touches_opening]
  left := normal_opening bare nonempty gap
  right := normal_opening bare nonempty (List.forall_mem_singleton.2 (by decide))

/-- The core of a line has the same tokens as what it becomes. -/
theorem exists_turns {lineStart newline : Bool}
    (h : Reading true true core done pending lineStart newline) (bare : Text.Bare core)
    (nonempty : core ≠ []) (noBreak : '\n' ∉ core) (visible : Visible done) :
    ∃ core' done', Turns core done pending core' done' := by
  have plain (plain : pending = none → ∀ t, done.getLast? = some t → t.kind = .lBrace →
      core = ['{'] ∧ t.start = 0) : Turns core done pending core done :=
    ⟨⟨_, _, h⟩, bare, nonempty, noBreak, fun d d' => forall₂_resembles_shift d d' done, rfl,
      normal_plain bare plain, normal_plain bare plain⟩
  by_cases opens : pending = none ∧ ∃ t, done.getLast? = some t ∧ t.kind = .lBrace
  · obtain ⟨rfl, brace, last, kind⟩ := opens
    obtain ⟨before, rfl, start⟩ := h.eq_append_brace bare last kind
    by_cases alone : before = []
    · refine ⟨_, _, plain fun _ t last' _ => ?_⟩
      rw [last] at last'
      obtain rfl := Option.some.inj last'
      subst alone
      exact ⟨rfl, start⟩
    · have noBreak' : '\n' ∉ before := fun there => noBreak (by simp [there])
      obtain ⟨front, newline₁, rfl, reads⟩ := h.before_opening last start visible noBreak'
      obtain ⟨gaps, split, gap⟩ := Text.trimEnd_split before
      have last_part := Text.last_trimEnd before
      generalize Text.trimEnd before = part at split reads last_part
      subst split
      have nonempty' : part ≠ [] := by
        rintro rfl
        obtain ⟨c, more, eq⟩ := List.exists_cons_of_ne_nil alone
        have visible := bare.head c (by rw [eq]; rfl)
        rw [List.nil_append] at eq
        exact Bool.false_ne_true (visible.symm.trans (gap c (by simp [eq])))
      have bare' : Text.Bare part := by
        refine ⟨fun c first => bare.head c ?_, last_part⟩
        rw [List.append_assoc, List.head?_append_of_ne_nil _ nonempty', first]
      rw [List.append_assoc]
      exact ⟨_, _, turns_opening bare' nonempty' (fun there => noBreak' (by simp [there])) gap
        (reads [' '] (List.forall_mem_singleton.2 (by decide)) (by decide))⟩
  · exact ⟨_, _, plain fun none t last kind => absurd ⟨none, t, last, kind⟩ opens⟩

end Core

end RouteScript.Format
