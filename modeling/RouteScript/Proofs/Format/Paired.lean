import RouteScript.Proofs.Format.Tidied
/-!
# A line in both texts

A line and the line it becomes, each behind tokens that may go on into it. Both have the same tokens
and end in tokens that go on alike.
-/
namespace RouteScript.Format

open Token

/-- Tokens that go on alike. -/
structure Kin (p p' : Pending) : Prop where
  carry : p'.carry = p.carry
  resembles : Resembles p.token p'.token
  fits : p.carry.Fits p.token.kind

/-- Tokens that go on behind a line feed. -/
structure Waiting (p p' : Pending) : Prop extends Kin p p' where
  trivia : p.token.isTrivia
  left : ∃ text, p.token.text = text ++ ['\n']
  right : ∃ text, p'.token.text = text ++ ['\n']

/-- A token that goes on from before an offset. -/
def Placed (pending : Option Pending) (offset : Nat) : Prop :=
  ∀ p, pending = some p → p.token.start < offset ∧ p.token.stop = offset

theorem placed_none (offset : Nat) : Placed none offset := by simp [Placed]

section Pending

variable {p p' : Pending} {pending pending' : Option Pending} {offset : Nat}

theorem resembles_unpadded {t u : Token} (h : Resembles t u) :
    Text.unpadded u.text = Text.unpadded t.text :=
  h.text.elim (congrArg Text.unpadded) And.right

/-- More characters keep the likeness if the tokens are alike without the blanks before them. -/
theorem resembles_extend {t u : Token} (h : Resembles t u)
    (loose : t.isTrivia ∨ t.kind = .unterminatedString) {more more' : List Char}
    (text : Text.unpadded (u.text ++ more') = Text.unpadded (t.text ++ more)) :
    Resembles (t.extend more) (u.extend more') :=
  ⟨h.kind, h.newlineBefore, .inr ⟨loose, text⟩⟩

theorem Kin.fits_right (h : Kin p p') : p'.carry.Fits p'.token.kind := by
  rw [h.carry, h.resembles.kind]
  exact h.fits

theorem unpadded_feed (text : List Char) :
    Text.unpadded (text ++ ['\n']) = Text.unpadded text ++ ['\n'] := Text.unpadded_newline text []

theorem Waiting.extend (h : Waiting p p') (more : List Char) :
    Resembles (p.token.extend more) (p'.token.extend more) := by
  obtain ⟨text, left⟩ := h.left
  obtain ⟨text', right⟩ := h.right
  have same := resembles_unpadded h.resembles
  rw [left, right, unpadded_feed, unpadded_feed, List.append_cancel_right_eq] at same
  refine resembles_extend h.resembles (.inl h.trivia) ?_
  rw [left, right, List.append_assoc, List.append_assoc, List.singleton_append,
    Text.unpadded_newline, Text.unpadded_newline, same]

theorem Kin.waiting (h : Kin p p') (trivia : p.token.isTrivia) {carry : Carry} :
    Waiting ⟨p.token.extend ['\n'], carry⟩ ⟨p'.token.extend ['\n'], carry⟩ where
  carry := rfl
  resembles := resembles_extend h.resembles (.inl trivia) (by
    rw [unpadded_feed, unpadded_feed, resembles_unpadded h.resembles])
  fits := .inl trivia
  trivia := trivia
  left := ⟨_, rfl⟩
  right := ⟨_, rfl⟩

theorem rel_turn (h : Option.Rel Kin pending pending') :
    List.Forall₂ Resembles (turn pending).1 (turn pending').1
      ∧ Option.Rel Waiting (turn pending).2 (turn pending').2 := by
  cases h with
  | none => exact ⟨.nil, .none⟩
  | @some p p' kin =>
    obtain ⟨t, carry⟩ := p
    obtain ⟨t', carry'⟩ := p'
    obtain rfl : carry' = carry := kin.carry
    have trivia (other : carry' ≠ .line) : t.isTrivia :=
      kin.fits.resolve_right fun string => other string.1
    cases carry' with
    | line => exact ⟨.cons kin.resembles .nil, .none⟩
    | block => exact ⟨.nil, .some (kin.waiting (trivia (by simp)))⟩
    | directive escaped =>
      cases escaped with
      | false => exact ⟨.cons kin.resembles .nil, .none⟩
      | true => exact ⟨.nil, .some (kin.waiting (trivia (by simp)))⟩

theorem Placed.turn (h : Placed pending offset) : Placed (turn pending).2 (offset + 1) := by
  intro p hp
  unfold Token.turn at hp
  split at hp
  · obtain rfl := Option.some.inj hp
    obtain ⟨start, stop⟩ := h _ rfl
    dsimp only at start stop ⊢
    rw [extend_start, extend_stop, stop]
    exact ⟨by omega, rfl⟩
  · obtain rfl := Option.some.inj hp
    obtain ⟨start, stop⟩ := h _ rfl
    dsimp only at start stop ⊢
    rw [extend_start, extend_stop, stop]
    exact ⟨by omega, rfl⟩
  · simp at hp
  · simp at hp

end Pending

/-- A line and what becomes of it, with their tokens and those that go on behind them. -/
structure Paired (pending pending' : Option Pending) (offset offset' : Nat)
    (line line' : List Char) (done done' : List Token) (behind behind' : Option Pending) : Prop where
  left : Passage pending offset line done behind
  right : Passage pending' offset' line' done' behind'
  noBreak : '\n' ∉ line'
  resembles : List.Forall₂ Resembles done done'
  kin : Option.Rel Kin behind behind'
  touches : ∀ last last', (∀ m, last = some m → m < offset) → (∀ m, last' = some m → m < offset') →
    touches last' (done' ++ (behind'.map Pending.token).toList)
      = touches last (done ++ (behind.map Pending.token).toList)

section Lines

variable {p p' : Pending} {offset offset' : Nat} {line : List Char}

theorem touches_extend (last : Option Nat) (ts : List Token) (t : Token) (more : List Char) :
    touches last (ts ++ [t.extend more]) = touches last (ts ++ [t]) := by
  rw [touches_append, touches_append]
  by_cases trivia : t.isTrivia
  · rw [touches_trivia trivia, touches_trivia (show (t.extend more).isTrivia from trivia)]
  · rw [Bool.not_eq_true] at trivia
    rw [touches_significant trivia,
      touches_significant (show (t.extend more).isTrivia = false from trivia)]
    rfl

/-- Behind an offset before a stretch of tokens it does not matter where the stretch stands. -/
theorem touches_moved {last last' : Option Nat} {ts ts' : List Token} {d d' : Nat}
    (low : ∀ m, last = some m → m < d) (low' : ∀ m, last' = some m → m < d')
    (same : touches none ts' = touches none ts) :
    touches last' (ts'.map (shift d')) = touches last (ts.map (shift d)) := by
  have moved {last : Option Nat} {ts : List Token} {d : Nat} (low : ∀ m, last = some m → m < d) :
      touches last (ts.map (shift d)) = touches none ts := by
    have behind : ∀ t ∈ ts.map (shift d), d ≤ t.start := by
      intro t ht
      obtain ⟨u, _, rfl⟩ := List.mem_map.1 ht
      exact Nat.le_add_left d u.start
    exact (touches_apart low behind).trans (touches_shift d none ts)
  rw [moved low, moved low', same]

theorem map_shift_pending (d : Nat) (ts : List Token) (pending : Option Pending) :
    ts.map (shift d) ++ ((pending.map (Pending.shift d)).map Pending.token).toList
      = (ts ++ (pending.map Pending.token).toList).map (shift d) := by
  cases pending with
  | none => simp
  | some p =>
    simp only [Option.map_some, Option.toList_some, List.map_append, List.map_cons, List.map_nil]
    rfl

theorem newline_behind {t : Token} (ended : ∃ text, t.text = text ++ ['\n']) (more : List Char) :
    (Scan.behind (t.extend more) []).newline
      = (t.isTrivia && (t.newlineBefore || t.kind = .comment)) := by
  obtain ⟨text, eq⟩ := ended
  have feed : (t.extend more).text.contains '\n' := by simp [eq]
  simp only [Scan.behind, feed, extend_newlineBefore, extend_kind, Bool.and_true]
  rfl

theorem length_pos {carry : Carry} {c : Char} (other : c ≠ '\n') (rest : List Char) :
    0 < carry.length (c :: rest) := by
  cases carry with
  | line => exact Lexeme.lineLength_pos other rest
  | directive escaped => exact Lexeme.directiveLength_pos other escaped rest
  | block =>
    rw [Carry.length, Lexeme.blockLength_cons]
    split <;> omega

/-- A token that goes on over the whole line. -/
theorem paired_onward (h : Waiting p p') (placed : Placed (some p) offset)
    (placed' : Placed (some p') offset') (noBreak : '\n' ∉ line)
    (length : ∀ rest, Lexeme.Severs rest →
      p.carry.length (line ++ rest) = line.length + (p.carry.past line).length rest) :
    Paired (some p) (some p') offset offset' line line [] [] (some (p.past line))
      (some (p'.past line)) := by
  obtain ⟨starts, stops⟩ := placed p rfl
  obtain ⟨starts', stops'⟩ := placed' p' rfl
  have trivia' : p'.token.isTrivia := by rw [h.resembles.isTrivia, h.trivia]
  refine ⟨Pending.passage_goesOn starts stops h.fits length,
    Pending.passage_goesOn starts' stops' h.fits_right (by rwa [h.carry]), noBreak, .nil,
    .some ⟨?_, h.extend line, h.fits.past line⟩, fun last last' _ _ => ?_⟩
  · simp only [Pending.past, h.carry]
  · simp only [List.nil_append, Option.map_some, Option.toList_some]
    rw [touches_trivia (show (p'.past line).token.isTrivia from trivia'),
      touches_trivia (show (p.past line).token.isTrivia from h.trivia)]
    rfl

/-- A token that ends on the line, with what is read behind it. -/
theorem paired_ends (h : Waiting p p') (placed : Placed (some p) offset)
    (placed' : Placed (some p') offset') (noBreak : '\n' ∉ line) {n : Nat} (pos : 0 < n)
    (inside : n ≤ line.length)
    (length : ∀ rest, Lexeme.Severs rest → p.carry.length (line ++ rest) = n) :
    ∃ done done' behind behind',
      Paired (some p) (some p') offset offset' line line done done' behind behind' := by
  obtain ⟨starts, stops⟩ := placed p rfl
  obtain ⟨starts', stops'⟩ := placed' p' rfl
  have noBreak' : '\n' ∉ line.drop n := fun there => noBreak (List.mem_of_mem_drop there)
  obtain ⟨done, pending, lineStart, newline, reading⟩ := exists_reading noBreak' false
    (Scan.behind (p.token.extend (line.take n)) []).newline
  have newline : (Scan.behind (p'.token.extend (line.take n)) []).newline
      = (Scan.behind (p.token.extend (line.take n)) []).newline := by
    rw [newline_behind h.left, newline_behind h.right, h.resembles.isTrivia, h.resembles.kind,
      h.resembles.newlineBefore]
  refine ⟨_, _, _, _, Pending.passage_ends starts stops pos inside length rfl reading,
    Pending.passage_ends starts' stops' pos inside (by rwa [h.carry]) newline reading, noBreak,
    .cons (h.extend _) (forall₂_resembles_shift _ _ done), ?_, fun last last' low low' => ?_⟩
  · cases pending with
    | none => exact .none
    | some q => exact .some ⟨rfl, resembles_shift _ _ q.token, (reading.open_ q rfl).2.2⟩
  · have whole : (p.token.extend (line.take n)).isTrivia := h.trivia
    have whole' : (p'.token.extend (line.take n)).isTrivia := h.resembles.isTrivia.trans h.trivia
    rw [List.cons_append, List.cons_append, touches_trivia whole, touches_trivia whole',
      map_shift_pending, map_shift_pending]
    refine touches_moved (fun m hm => ?_) (fun m hm => ?_) rfl
    · have := low m hm
      omega
    · have := low' m hm
      omega

/-- A line inside a token is kept as it is. -/
theorem paired_inside (h : Waiting p p') (placed : Placed (some p) offset)
    (placed' : Placed (some p') offset') (noBreak : '\n' ∉ line) :
    ∃ done done' behind behind',
      Paired (some p) (some p') offset offset' line line done done' behind behind' := by
  by_cases nothing : line = []
  · subst nothing
    refine ⟨_, _, _, _, paired_onward h placed placed' noBreak fun rest _ => ?_⟩
    cases carry : p.carry <;> simp [Carry.past, Lexeme.escapes]
  · rcases Carry.length_line noBreak p.carry with ⟨n, inside, length⟩ | goesOn
    · refine paired_ends h placed placed' noBreak ?_ inside length
      obtain ⟨c, more, rfl⟩ := List.exists_cons_of_ne_nil nothing
      rw [← length [] Lexeme.margin_nil.severs]
      exact length_pos (fun eq => noBreak (by simp [eq])) _
    · exact ⟨_, _, _, _, paired_onward h placed placed' noBreak goesOn⟩

/-- A line of blanks loses all of them but its carriage returns. -/
theorem paired_blank {returns : List Char} (gaps : ∀ c ∈ line, Scan.isGap c)
    (noBreak : '\n' ∉ line) (ends : ∀ c ∈ returns, c = '\r') :
    Paired none none offset offset' line returns [] [] none none := by
  have passage {line : List Char} (offset : Nat) (gaps : ∀ c ∈ line, Scan.isGap c)
      (noBreak : '\n' ∉ line) : Passage none offset line [] none :=
    Reading.nil.passage (List.forall_mem_nil _)
      (fun c hc => isBlank_of_isGap (gaps c hc)) noBreak (fun _ => gaps) offset
  have noBreak' : '\n' ∉ returns := fun there => absurd (ends _ there) (by decide)
  refine ⟨passage offset gaps noBreak, passage offset' (fun c hc => ?_) noBreak', noBreak', .nil,
    .none, fun last last' _ _ => rfl⟩
  rw [ends c hc]
  decide

theorem touches_past (d : Nat) (last : Option Nat) (ts : List Token) (pending : Option Pending)
    (blanks : List Char) :
    touches last (ts.map (shift d)
        ++ ((pending.map fun p => (p.shift d).past blanks).map Pending.token).toList)
      = touches last ((ts ++ (pending.map Pending.token).toList).map (shift d)) := by
  cases pending with
  | none => simp
  | some p =>
    rw [List.map_append]
    exact touches_extend last _ _ blanks

/-- A line that starts outside of tokens has the same tokens behind another indentation. -/
theorem paired_core (offset offset' : Nat) {core core' lead indent blanks returns : List Char}
    {done done' : List Token} {pending : Option Pending} {lineStart newline : Bool}
    (turns : Turns core done pending core' done')
    (reading : Reading true true core done pending lineStart newline)
    (front : ∀ c ∈ lead, c = ' ' ∨ c = '\t') (front' : ∀ c ∈ indent, c = ' ' ∨ c = '\t')
    (blank : ∀ c ∈ blanks, Text.isBlank c) (noBreak : '\n' ∉ blanks)
    (ends : ∀ c ∈ returns, c = '\r') (gaps : pending = none → ∀ c ∈ blanks, Scan.isGap c)
    (carry : ∀ p, pending = some p →
      p.carry.past (blanks ++ returns) = p.carry.past returns) :
    Paired none none offset offset' (lead ++ (core ++ (blanks ++ returns)))
      (indent ++ (core' ++ returns)) (done.map (shift (offset + Text.size lead)))
      (done'.map (shift (offset' + Text.size indent)))
      (pending.map fun p => (p.shift (offset + Text.size lead)).past (blanks ++ returns))
      (pending.map fun p => (p.shift (offset' + Text.size indent)).past returns) := by
  obtain ⟨_, _, reading'⟩ := turns.reading
  have gap : ∀ c ∈ returns, Scan.isGap c := by
    intro c hc
    rw [ends c hc]
    decide
  have blank' : ∀ c ∈ returns, Text.isBlank c := fun c hc => isBlank_of_isGap (gap c hc)
  have noBreak' : '\n' ∉ returns := fun there => absurd (ends _ there) (by decide)
  have blank'' : ∀ c ∈ blanks ++ returns, Text.isBlank c := fun c hc =>
    (List.mem_append.1 hc).elim (blank c) (blank' c)
  have noBreak'' : '\n' ∉ blanks ++ returns := by simp [noBreak, noBreak']
  have indented : '\n' ∉ indent := fun there => by
    rcases front' _ there with eq | eq <;> exact absurd eq (by decide)
  refine ⟨reading.passage front blank'' noBreak'' (fun none c hc =>
      (List.mem_append.1 hc).elim (gaps none c) (gap c)) offset,
    reading'.passage front' blank' noBreak' (fun _ => gap) offset', ?_, turns.resembles _ _, ?_,
    fun last last' low low' => ?_⟩
  · simp [indented, turns.noBreak, noBreak']
  · cases pending with
    | none => exact .none
    | some p =>
      have fits := (reading.open_ p rfl).2.2
      refine .some ⟨(carry p rfl).symm, ?_, fits.past _⟩
      refine resembles_extend (resembles_shift _ _ p.token) (fits.imp id And.right) ?_
      rw [Text.unpadded_append blank' noBreak', Text.unpadded_append blank'' noBreak'']
      rfl
  · rw [touches_past, touches_past]
    refine touches_moved (fun m hm => ?_) (fun m hm => ?_) turns.touches
    · have := low m hm
      omega
    · have := low' m hm
      omega

end Lines

section Kinds

variable {on on' : List Token}

theorem foldlM_depthBehind (kinds : on'.map Token.kind = on.map Token.kind) (depth : Nat) :
    on'.foldlM depthBehind depth = on.foldlM depthBehind depth := by
  induction on generalizing on' depth with
  | nil => rw [List.map_eq_nil_iff.1 kinds]
  | cons t on ih =>
    cases on' with
    | nil => simp at kinds
    | cons t' on' =>
      obtain ⟨kind, kinds⟩ := List.cons.inj kinds
      have same : depthBehind depth t' = depthBehind depth t := by
        rw [depthBehind, depthBehind, kind]
      rw [List.foldlM_cons, List.foldlM_cons, same]
      exact congrArg _ (funext fun depth => ih kinds depth)

theorem leadingCloses_eq {l l' : Line} (outside : l.continues on = false)
    (outside' : l'.continues on' = false) (kinds : on'.map Token.kind = on.map Token.kind) :
    l'.leadingCloses on' = l.leadingCloses on := by
  have count (ts : List Token) : (ts.takeWhile fun t => t.kind = .rBrace).length
      = ((ts.map Token.kind).takeWhile fun kind => kind = .rBrace).length := by
    rw [List.takeWhile_map, List.length_map]
    rfl
  rw [Line.leadingCloses, Line.leadingCloses, outside, outside']
  simp only [Bool.false_eq_true, if_false]
  rw [count, count, kinds]

end Kinds

theorem Paired.kinds {pending pending' behind behind' : Option Pending} {offset offset' : Nat}
    {line line' rest rest' : List Char} {done done' : List Token}
    (h : Paired pending pending' offset offset' line line' done done' behind behind')
    (some : line ≠ [] ∨ behind = none) (some' : line' ≠ [] ∨ behind' = none) (ends : EndsLine rest)
    (ends' : EndsLine rest') :
    (Line.tokens ⟨offset', line' ++ rest'.take 1⟩ (ahead pending' offset' (line' ++ rest'))).map
        Token.kind
      = (Line.tokens ⟨offset, line ++ rest.take 1⟩ (ahead pending offset (line ++ rest))).map
        Token.kind := by
  obtain ⟨closing, closes, eq⟩ := tokens_line h.left some ends
  obtain ⟨closing', closes', eq'⟩ := tokens_line h.right some' ends'
  have last : closing'.map Token.kind = closing.map Token.kind := by
    have kin := h.kin
    cases closes with
    | none =>
      cases kin
      cases closes'
      rfl
    | some p more =>
      cases kin with
      | some kin =>
        cases closes' with
        | some p' more' => simp [kin.resembles.kind]
  have first : done'.map Token.kind = done.map Token.kind := by
    rw [← List.forall₂_eq_eq_eq, List.forall₂_map_left_iff, List.forall₂_map_right_iff]
    exact (h.resembles.imp fun _ _ same => same.kind).flip
  rw [eq, eq', List.map_append, List.map_append, first, last]

end RouteScript.Format
