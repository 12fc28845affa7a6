import RouteScript.Proofs.Recovery.Route
/-!
# Lines with which nothing starts

A line of closing delimiters, commas and colons is one malformed statement. If it has at least two
tokens, the line behind it is read as if it were the first of the block. A single token takes the
start of the next line with it: the token itself is taken as the start of the statement, and the
first token of the rest may stand on a new line.
-/
namespace RouteScript

/-- A token with which no expression and no statement starts or goes on. -/
def Token.IsStray (t : Token) : Prop :=
  t.kind = .rParen ∨ t.kind = .rBracket ∨ t.kind = .comma ∨ t.kind = .colon

instance (t : Token) : Decidable t.IsStray :=
  inferInstanceAs (Decidable
    (t.kind = .rParen ∨ t.kind = .rBracket ∨ t.kind = .comma ∨ t.kind = .colon))

namespace Script

open Draft

section Stray

variable {inner : Level} {s : Stream} {t : Token} {rest : List Token}
  (tokens : s.tokens = t :: rest) (stray : t.IsStray)
include tokens stray

theorem primary_stray : primary inner s = (.error [], s) := by
  have here : peek s = (some t, s) := by simp [peek, tokens]
  simp only [primary, bind, StateT.bind, here]
  rcases stray with kind | kind | kind | kind <;> rw [kind] <;> rfl

theorem unary_stray : unary inner s = (.error [], s) := by
  have here : peek s = (some t, s) := by simp [peek, tokens]
  have operand (following : Option Token.Kind) : isUnaryOperator t following = false := by
    rcases stray with kind | kind | kind | kind <;> simp [isUnaryOperator, kind]
  have second : peekSecondKind s = ((peekSecondKind s).1, s) := rfl
  simp only [unary, bind, StateT.bind, here]
  rw [second]
  simp only [operand]
  exact primary_stray tokens stray

theorem chain_stray (levels : Nat) : chain (unary inner) levels s = (.error [], s) := by
  induction levels with
  | zero => exact unary_stray tokens stray
  | succ levels ih =>
    simp only [chain, bind, StateT.bind, ih]
    rfl

theorem assignment_stray : assignment inner s = (.error [], s) := by
  have operands : binary inner s = (.error [], s) := chain_stray tokens stray tightest
  simp only [assignment, bind, StateT.bind, operands]
  rfl

/-- A stray token starts a malformed statement. -/
theorem statement_stray (depth : Nat) : (level (depth + 2)).statement s
    = (do
        let rest ← skipStatementRest
        finishStatement [← errorNode (tokenLeaf t :: rest)]) (next s).2 := by
  have here : peek s = (some t, s) := by simp [peek, tokens]
  have second : peekSecondKind s = ((peekSecondKind s).1, s) := rfl
  have expression : (level (depth + 1)).expression s = (.error [], s) :=
    assignment_stray tokens stray
  have first : nextLeaf s = ([tokenLeaf t], (next s).2) := by
    simp [nextLeaf, bind, StateT.bind, next, tokens]
    rfl
  have reads : statement (level (depth + 1)) s = expressionStatement (level (depth + 1)) s := by
    simp only [statement, bind, StateT.bind, here]
    rw [second]
    rcases stray with kind | kind | kind | kind <;> rw [kind] <;> rfl
  change statement (level (depth + 1)) s = _
  rw [reads]
  simp only [expressionStatement, bind, StateT.bind, expression, List.isEmpty_nil, if_true, first]
  rfl

end Stray

section Rest

variable {s : Stream} {w : Token} {us rest : List Token}

/-- A malformed statement goes on over stray tokens up to one that starts a line. -/
theorem takeSteps_stray (stray : ∀ u ∈ us, u.IsStray ∧ u.newlineBefore = false)
    (significant : w.isSignificant) (startsLine : w.newlineBefore = true) :
    takeSteps statementRestStep false (us ++ w :: rest) = (false, us, w :: rest) := by
  have trivia : w.isTrivia = false := by simpa [Token.isSignificant] using significant
  induction us with
  | nil => simp [takeSteps, trivia, statementRestStep, startsLine]
  | cons u us ih =>
    obtain ⟨⟨kind, sameLine⟩, later⟩ := List.forall_mem_cons.1 stray
    have accepted : statementRestStep false u = some false := by
      rcases kind with kind | kind | kind | kind <;> simp [statementRestStep, kind, sameLine]
    have inside : u.isTrivia = false := by
      rcases kind with kind | kind | kind | kind <;>
        simp [Token.isTrivia, Token.Kind.isTrivia, kind]
    simp [takeSteps, inside, accepted, ih later]

/-- A statement starts with what has been taken of it. -/
theorem finishStatement_shape (hs : s.Sound) (ds : List Draft) :
    ∃ more s', s'.Sound ∧ (finishStatement ds s).1 = (node Kind.statement (ds ++ more) s').1 := by
  have gives : Gives (finishStatement ds) s fun d _ =>
      ∃ more s', s'.Sound ∧ d = (node Kind.statement (ds ++ more) s').1 := by
    refine gives_peek (fun _ => ⟨[], s, hs, by simp⟩) fun t rest tokens => ?_
    dsimp only
    split
    · have leaf : (nextLeaf s).2.Sound := (passes_next hs tokens).1.sound
      exact ⟨(nextLeaf s).1, (nextLeaf s).2, leaf, rfl⟩
    · split
      · exact ⟨[], s, hs, by simp⟩
      · have skipped := skipStatementRest_lossless s hs solid_nil
        have garbage := Lossless.errorNodes (.refl _) skipped.1.passes.sound skipped.2.1
        have last := optionalLeaf_lossless .semicolon _ garbage.1.passes.sound solid_nil
        exact ⟨_, _, last.1.passes.sound, by rw [← List.append_assoc]; rfl⟩
  exact gives

end Rest

structure StrayLine (text : List Char) : Prop where
  oneLine : '\n' ∉ text
  nonempty : Token.all text ≠ []
  stray : ∀ t ∈ Token.all text, t.IsStray

instance (text : List Char) : Decidable (StrayLine text) :=
  decidable_of_iff ('\n' ∉ text ∧ Token.all text ≠ [] ∧ ∀ t ∈ Token.all text, t.IsStray)
    ⟨fun ⟨oneLine, nonempty, stray⟩ => ⟨oneLine, nonempty, stray⟩,
      fun ⟨oneLine, nonempty, stray⟩ => ⟨oneLine, nonempty, stray⟩⟩

/-- A line without comments that starts with a word. -/
structure WordLine (text : List Char) : Prop where
  oneLine : '\n' ∉ text
  significant : ∀ t ∈ Token.all text, t.isSignificant
  word : (Token.all text).head?.map Token.kind = some .identifier

instance (text : List Char) : Decidable (WordLine text) :=
  decidable_of_iff ('\n' ∉ text ∧ (∀ t ∈ Token.all text, t.isSignificant)
      ∧ (Token.all text).head?.map Token.kind = some .identifier)
    ⟨fun ⟨oneLine, significant, word⟩ => ⟨oneLine, significant, word⟩,
      fun ⟨oneLine, significant, word⟩ => ⟨oneLine, significant, word⟩⟩

/-- The outline of a token that has one spelling. -/
def leafOutline (t : Token) : Outline :=
  .node ⟨t.kind.spelling?.getD Kind.error, false, none, some t.text⟩ []

/-- The malformed statement that a line of stray tokens becomes. -/
def strayOutline (text : List Char) : Outline :=
  .node ⟨Kind.statement, true, none, none⟩
    [.node ⟨errorKind, true, none, none⟩ ((Token.all text).map leafOutline)]

theorem stray_significant {t : Token} (stray : t.IsStray) : t.isSignificant := by
  rcases stray with kind | kind | kind | kind <;>
    simp [Token.isSignificant, Token.isTrivia, Token.Kind.isTrivia, kind]

theorem outlines_stray {s : Stream} (hs : s.Sound) {ts : List Token}
    (stray : ∀ t ∈ ts, t.IsStray) (ahead : ∀ t ∈ ts, t ∈ s.tokens) :
    outlinesOf s.source (ts.map tokenLeaf) = ts.map leafOutline := by
  induction ts with
  | nil => rfl
  | cons t ts ih =>
    obtain ⟨here, later⟩ := List.forall_mem_cons.1 stray
    obtain ⟨first, others⟩ := List.forall_mem_cons.1 ahead
    have slice := hs.slice? first
    have leaf : Draft.outlines s.source (tokenLeaf t) = [leafOutline t] := by
      have plain : tokenLeaf t
          = .leaf (t.kind.spelling?.getD Kind.error) false t.start t.stop := by
        rcases here with kind | kind | kind | kind <;> simp [tokenLeaf, kind]
      rw [plain, outlines_leaf, Text.slice, slice]
      rfl
    rw [List.map_cons, List.map_cons, outlinesOf_cons, leaf, ih later others]
    rfl

/-- Nodes of stray tokens are what an error node around them holds. -/
theorem salvage_stray (ts : List Token) :
    (ts.map leafOutline).flatMap Outline.salvage = ts.map leafOutline := by
  induction ts with
  | nil => rfl
  | cons t ts ih =>
    rw [List.map_cons, List.flatMap_cons, ih]
    rfl

theorem outlines_errorNode {s : Stream} (hs : s.Sound) (source : List Char) {ds : List Draft}
    (structural : ∀ d ∈ ds, d.Structural) (nonempty : ds ≠ []) :
    Draft.outlines source (errorNode ds s).1
      = [.node ⟨errorKind, true, none, none⟩ ((outlinesOf source ds).flatMap Outline.salvage)] := by
  change Draft.outlines source (.error (absorb ds s).1) = _
  rw [outlines_error (plain_absorb hs structural), isEmpty_absorb, outlinesOf_absorb hs,
    if_neg (by simpa using nonempty)]

/-- What becomes of a statement that starts with a stray token. -/
abbrev malformed (t : Token) (s : Stream) : Draft × Stream :=
  (do
    let rest ← skipStatementRest
    finishStatement [← errorNode (tokenLeaf t :: rest)]) (next s).2

section Items

variable {s : Stream} (hs : s.Sound) {t w : Token} {us ws : List Token}
include hs

/-- What was skipped behind the token ends with it in an error node. -/
theorem malformed_eq {more taken : List Token} {s₂ : Stream} (tokens : s.tokens = t :: more)
    (rest : skipStatementRest (next s).2 = (taken.map tokenLeaf, s₂)) :
    let error := errorNode ((t :: taken).map tokenLeaf) s₂
    s.Passes error.2 ∧ malformed t s = finishStatement [error.1] error.2 ∧
      Draft.outlines s.source error.1 = [.node ⟨errorKind, true, none, none⟩
        ((outlinesOf s.source ((t :: taken).map tokenLeaf)).flatMap Outline.salvage)] := by
  have conserves : Conserves [] s [tokenLeaf t] (next s).2 :=
    .next [] hs tokens (solids_tokenLeaf t) (extras_tokenLeaf t)
  have skipped := skipStatementRest_lossless _ conserves.passes.sound solid_nil
  unfold Gives at skipped
  rw [rest] at skipped
  have sound : s₂.Sound := skipped.1.passes.sound
  refine ⟨?_, ?_, ?_⟩
  · exact (conserves.passes.trans skipped.1.passes).trans
      (sound.drop_waiting fun d hd => (List.mem_filter.1 hd).1)
  · simp only [malformed, bind, StateT.bind, rest]
    rfl
  · refine outlines_errorNode sound s.source (fun d hd => ?_) (by simp)
    obtain ⟨u, _, rfl⟩ := List.mem_map.1 hd
    exact structural_tokenLeaf u

omit hs in
/-- Stray tokens up to the next line are skipped. -/
theorem skipStatementRest_stray {u : Token} (tokens : s.tokens = t :: (u :: us ++ w :: ws))
    (stray : ∀ v ∈ u :: us, v.IsStray) (sameLine : ∀ v ∈ us, v.newlineBefore = false)
    (significant : w.isSignificant) (startsLine : w.newlineBefore = true) :
    ∃ s₂, s₂.tokens = w :: ws ∧
      skipStatementRest (next s).2 = ((u :: us).map tokenLeaf, s₂) := by
  have trivia : u.isTrivia = false := by
    simpa [Token.isSignificant] using stray_significant (stray u (by simp))
  have ahead : (next s).2.tokens = u :: us ++ w :: ws := by
    rw [next_snd tokens, Stream.settle]
    simp [trivia]
  have steps : takeSteps statementRestStep true (u :: us ++ w :: ws)
      = (false, u :: us, w :: ws) := by
    have accepted : statementRestStep true u = some false := by
      rcases stray u (by simp) with kind | kind | kind | kind <;> simp [statementRestStep, kind]
    have others : takeSteps statementRestStep false (us ++ w :: ws) = (false, us, w :: ws) :=
      takeSteps_stray (fun v hv => ⟨stray v (by simp [hv]), sameLine v hv⟩) significant startsLine
    simp [takeSteps, trivia, accepted, others]
  have filtered : (u :: us).filter Token.isSignificant = u :: us :=
    filter_significant fun v hv => stray_significant (stray v hv)
  refine ⟨(collect statementRestStep true (next s).2).2, ?_, ?_⟩
  · simp only [collect, ahead, steps]
  · simp only [skipStatementRest, bind, StateT.bind, collect, ahead, steps, filtered]
    rfl

/-- Two or more stray tokens are a statement of their own. -/
theorem malformed_line (tokens : s.tokens = t :: (us ++ w :: ws))
    (stray : ∀ u ∈ t :: us, u.IsStray) (some_more : us ≠ [])
    (sameLine : ∀ u ∈ us, u.newlineBefore = false) (significant : w.isSignificant)
    (startsLine : w.newlineBefore = true) (inside : w.kind ≠ .semicolon) :
    s.Passes (malformed t s).2 ∧ (malformed t s).2.tokens = w :: ws
      ∧ Draft.outlines s.source (malformed t s).1 = [.node ⟨Kind.statement, true, none, none⟩
        [.node ⟨errorKind, true, none, none⟩ ((t :: us).map leafOutline)]] := by
  obtain ⟨u, us, rfl⟩ := List.exists_cons_of_ne_nil some_more
  obtain ⟨s₂, behind, rest⟩ := skipStatementRest_stray tokens
    (fun v hv => stray v (List.mem_cons_of_mem t hv)) (fun v hv => sameLine v (by simp [hv]))
    significant startsLine
  obtain ⟨passes, eval, shown⟩ := malformed_eq hs tokens rest
  generalize taken : errorNode ((t :: u :: us).map tokenLeaf) s₂ = error at passes eval shown
  have ahead : error.2.tokens = w :: ws := by
    subst taken
    exact behind
  have finished : finishStatement [error.1] error.2 = node Kind.statement [error.1] error.2 := by
    have here : peek error.2 = (some w, error.2) := by simp [peek, ahead]
    have other : (w.kind == .semicolon) = false := by simpa using inside
    simp only [finishStatement, bind, StateT.bind, here, other, startsLine, Bool.or_true]
    rfl
  rw [eval, finished]
  refine ⟨?_, ahead, ?_⟩
  · exact passes.trans (passes.sound.drop_waiting fun d hd => (List.mem_filter.1 hd).1)
  · have leaves : outlinesOf s.source ((t :: u :: us).map tokenLeaf)
        = (t :: u :: us).map leafOutline := by
      refine outlines_stray hs stray fun v hv => ?_
      rw [tokens, ← List.cons_append]
      exact List.mem_append_left _ hv
    rw [outlines_made passes.sound, outlinesOf_cons, outlinesOf_nil, List.append_nil, shown, leaves,
      salvage_stray]
    rfl

/-- A single stray token takes the word behind it with it. -/
theorem malformed_alone (tokens : s.tokens = t :: w :: ws) (stray : t.IsStray)
    (word : w.kind = .identifier) : ∃ form form' os more,
      Draft.outlines s.source (malformed t s).1 = [.node form (.node form' os :: more)]
        ∧ 2 ≤ os.length := by
  have trivia : w.isTrivia = false := by simp [Token.isTrivia, Token.Kind.isTrivia, word]
  have ahead : (next s).2.tokens = w :: ws := by
    rw [next_snd tokens, Stream.settle]
    simp [trivia]
  have accepted : statementRestStep true w = some false := by simp [statementRestStep, word]
  obtain ⟨others, s₂, rest⟩ : ∃ (others : List Token) (s₂ : Stream), skipStatementRest (next s).2
      = ((w :: others).map tokenLeaf, s₂) := by
    refine ⟨(takeSteps statementRestStep false ws).2.1.filter Token.isSignificant,
      (collect statementRestStep true (next s).2).2, ?_⟩
    simp [skipStatementRest, bind, StateT.bind, collect, ahead, takeSteps, trivia, accepted,
      Token.isSignificant]
    rfl
  obtain ⟨passes, eval, shown⟩ := malformed_eq hs tokens rest
  have first : Draft.outlines s.source (tokenLeaf t) = [leafOutline t] := by
    have shown : outlinesOf s.source ([t].map tokenLeaf) = [t].map leafOutline :=
      outlines_stray hs (by simpa using stray) (by simp [tokens])
    simpa using shown
  obtain ⟨text, second⟩ : ∃ text, Draft.outlines s.source (tokenLeaf w)
      = [.node ⟨Kind.identifier, true, none, text⟩ []] :=
    ⟨_, by simp only [tokenLeaf, word]; exact outlines_leaf _ _ _ _⟩
  obtain ⟨more, s', closed, eq⟩ := finishStatement_shape passes.sound
    [(errorNode ((t :: w :: others).map tokenLeaf) s₂).1]
  rw [eval, eq, outlines_made closed, List.singleton_append, outlinesOf_cons, shown,
    List.singleton_append]
  refine ⟨_, _, _, _, rfl, ?_⟩
  have identifier : (Kind.identifier == errorKind) = false := by decide
  simp [first, second, leafOutline, Outline.salvage, identifier]

end Items

/-- The first item of a block that starts with a stray token. -/
theorem blockOf_stray {lines : List (List Char)} {t : Token} {rest : List Token}
    (tokens : (Stream.inBlock lines).tokens = t :: rest) (stray : t.IsStray) :
    let item := malformed t (.inBlock lines)
    item.2.Sound ∧ blockOf lines = restOfBlock topLevel routeBrace
      (blockStart routeBrace :: (place [] item.1 item.2).1) (place [] item.1 item.2).2 := by
  intro item
  have outside : t.kind ≠ .rBrace := by
    rcases stray with kind | kind | kind | kind <;> simp [kind]
  have noMarkup : ((Stream.inBlock lines).tokens.head?.map Token.kind == some .lt) = false := by
    rcases stray with kind | kind | kind | kind <;> simp [tokens, kind]
  have read : blockItem topLevel (.inBlock lines) = item := by
    have eval : blockItem topLevel (.inBlock lines)
        = (if (Stream.inBlock lines).tokens.head?.map Token.kind == some .lt then markup
          else topLevel.statement) (.inBlock lines) := rfl
    rw [eval, noMarkup]
    exact statement_stray tokens stray 62
  have sound := (blockItem_lossless topLevel_lossless tokens (inBlock_sound lines)
    solid_nil).1.passes.sound
  rw [read] at sound
  have opened : isOpened routeBrace [blockStart routeBrace] := ⟨[], rfl⟩
  refine ⟨sound, ?_⟩
  rw [blockOf, restOfBlock, repeatUntil_eq (blockStep_advancing topLevel_lossless routeBrace) opened
    (inBlock_sound lines), blockStep_item tokens outside, read, place_eq]
  rfl

section Lines

variable {garbage line : List Char} (stray : StrayLine garbage) (following : WordLine line)
include stray following

/-- The tokens of the block, those of the second line behind those of the first. -/
theorem inBlock_stray : ∃ g gs l ls, Token.all garbage = g :: gs
    ∧ (∀ u ∈ gs, u.newlineBefore = false) ∧ l.kind = .identifier ∧ l.newlineBefore = true
    ∧ Token.allFrom (16 + (Text.size garbage + 1)) true (upToClose [line]) = l :: ls
    ∧ (∀ u ∈ l :: ls, u.isSignificant)
    ∧ (Stream.inBlock [garbage, line]).tokens
      = g.shift 16 :: (gs.map (Token.shift 16) ++ l :: ls) := by
  let behind := 16 + (Text.size garbage + 1)
  obtain ⟨g, gs, first⟩ := List.exists_cons_of_ne_nil stray.nonempty
  obtain ⟨l, head, word⟩ := Option.map_eq_some_iff.1 following.word
  obtain ⟨ls, second⟩ := List.head?_eq_some_iff.1 head
  have significant (t : Token) (ht : t ∈ Token.all garbage) : t.isSignificant :=
    stray_significant (stray.stray t ht)
  obtain ⟨_, sameLine⟩ := Token.all_newlines stray.oneLine first (significant g (by simp [first]))
  obtain ⟨startsLine, _⟩ :=
    Token.all_newlines following.oneLine second (following.significant l (by simp [second]))
  let close : Token := ⟨.rBrace, ['}'], behind + Text.size line + 1, true⟩
  have later : Token.allFrom behind true (upToClose [line])
      = l.shift behind :: (ls.map (Token.shift behind) ++ [close]) := by
    rw [upToClose, Token.allFrom_line following.oneLine following.significant, allFrom_close, second]
    rfl
  have onward : ∀ u ∈ l.shift behind :: (ls.map (Token.shift behind) ++ [close]),
      u.isSignificant := by
    intro u hu
    rw [← List.cons_append, ← List.map_cons, ← second] at hu
    rcases List.mem_append.1 hu with inLine | ends
    · obtain ⟨v, hv, rfl⟩ := List.mem_map.1 inLine
      exact following.significant v hv
    · obtain rfl := List.mem_singleton.1 ends
      rfl
  have all : Token.allFrom 16 true (upToClose [garbage, line])
      = g.shift 16 :: (gs.map (Token.shift 16)
        ++ l.shift behind :: (ls.map (Token.shift behind) ++ [close])) := by
    have cut := Token.allFrom_line stray.oneLine significant 16 (upToClose [line])
    rw [Nat.add_assoc, later, first] at cut
    exact cut
  have plain : ∀ t ∈ Token.allFrom 16 true (upToClose [garbage, line]), t.isSignificant := by
    intro t ht
    rw [all, ← List.cons_append, ← List.map_cons, ← first] at ht
    rcases List.mem_append.1 ht with here | there
    · obtain ⟨u, hu, rfl⟩ := List.mem_map.1 here
      exact significant u hu
    · exact onward t there
  refine ⟨g, gs, l.shift behind, _, first, sameLine, word, startsLine, later, onward, ?_⟩
  rw [inBlock_eq plain, all]

/-- Behind two stray tokens or more a line is read as if it were the first of the block. -/
theorem closes_stray (long : 2 ≤ (Token.all garbage).length)
    (plain : ¬ (Tree.ofScript (inRoute [line])).HasMarkup) {os : List Outline}
    (alone : Closes [line] os) : Closes [garbage, line] (strayOutline garbage :: os) := by
  obtain ⟨g, gs, l, ls, first, sameLine, word, startsLine, later, significant, tokens⟩ :=
    inBlock_stray stray following
  have strays : ∀ u ∈ g.shift 16 :: gs.map (Token.shift 16), u.IsStray := by
    intro u hu
    rw [← List.map_cons, ← first] at hu
    obtain ⟨v, hv, rfl⟩ := List.mem_map.1 hu
    exact stray.stray v hv
  have some_more : gs.map (Token.shift 16) ≠ [] := by
    intro nothing
    simp [first, List.map_eq_nil_iff.1 nothing] at long
  have sameLine' : ∀ u ∈ gs.map (Token.shift 16), u.newlineBefore = false := by
    intro u hu
    obtain ⟨v, hv, rfl⟩ := List.mem_map.1 hu
    exact sameLine v hv
  have start := inBlock_sound [garbage, line]
  obtain ⟨passes, behind, outline⟩ := malformed_line start tokens strays some_more sameLine'
    (significant l (by simp)) startsLine (by simp [word])
  obtain ⟨sound, read⟩ := blockOf_stray tokens (strays _ (by simp))
  let item := malformed (g.shift 16) (.inBlock [garbage, line])
  have placed : item.2.Passes (place [] item.1 item.2).2 :=
    sound.drop_waiting fun d hd => (List.mem_filter.1 hd).1
  have ahead : (place [] item.1 item.2).2.tokens
      = Token.allFrom (16 + (Text.size garbage + 1)) true (upToClose [line]) := by
    rw [later]
    exact behind
  have onward : ∀ t ∈ (place [] item.1 item.2).2.tokens, t.isSignificant := by
    intro t ht
    rw [ahead, later] at ht
    exact significant t ht
  have closes := closes_of_lines read (passes.trans placed) ahead onward plain alone
  have source : (Stream.inBlock [garbage, line]).source = inRoute [garbage, line] := rfl
  have shown : (g.shift 16 :: gs.map (Token.shift 16)).map leafOutline
      = (Token.all garbage).map leafOutline := by
    rw [← List.map_cons, ← first, List.map_map]
    rfl
  rw [source] at outline
  rw [outlinesOf_place sound, outlinesOf_nil, List.nil_append, outline, shown] at closes
  exact closes

/-- A single stray token is not a malformed statement of its own. -/
theorem not_closes_stray (short : (Token.all garbage).length < 2) (os : List Outline) :
    ¬ Closes [garbage, line] (strayOutline garbage :: os) := by
  obtain ⟨g, gs, l, ls, first, _, word, _, _, _, tokens⟩ := inBlock_stray stray following
  have single : gs = [] := by
    rw [first, List.length_cons] at short
    exact List.eq_nil_of_length_eq_zero (by omega)
  subst single
  have isStray : (g.shift 16).IsStray := stray.stray g (by simp [first])
  obtain ⟨form, form', below, others, outline, many⟩ :=
    malformed_alone (inBlock_sound [garbage, line]) tokens isStray word
  obtain ⟨sound, read⟩ := blockOf_stray tokens isStray
  obtain ⟨head, more, s', structural, frame⟩ := restOfBlock_frame topLevel routeBrace
    (place [] (malformed (g.shift 16) (.inBlock [garbage, line])).1
      (malformed (g.shift 16) (.inBlock [garbage, line])).2).2
  obtain ⟨o, first_node⟩ : ∃ o, outlines (inRoute [garbage, line]) head = [o] := by
    obtain ⟨tag, children⟩ := head
    have structural : tag.extra = false := structural
    rw [outlines_node, if_neg (by simp [structural])]
    exact ⟨_, rfl⟩
  have source : (Stream.inBlock [garbage, line]).source = inRoute [garbage, line] := rfl
  rw [source] at outline
  obtain ⟨waiting, _, items_eq, _, _⟩ := items_inRoute [garbage, line]
  intro closes
  rw [Closes, outline_ofScript, items_eq, read, frame, outlinesOf_cons, outlinesOf_append,
    outlinesOf_place sound, outlinesOf_nil, outline, first_node] at closes
  have items := (Rose.node.inj closes).2
  have block := (List.cons.inj (Rose.node.inj (List.cons.inj items).1).2).2
  have statements := (List.cons.inj (Rose.node.inj (List.cons.inj block).1).2).2
  have error := (List.cons.inj (Rose.node.inj (List.cons.inj statements).1).2).1
  have children : below = (Token.all garbage).map leafOutline := (Rose.node.inj error).2
  rw [children, List.length_map] at many
  omega

end Lines

end Script

namespace Tree

open Script

/-- A line behind a line of stray tokens is read as if it stood alone if, and only if, there are at
least two of them. -/
theorem ofScript_stray {garbage line : List Char} {statements : List Outline}
    (stray : StrayLine garbage) (following : WordLine line)
    (plain : ¬ (ofScript (inRoute [line])).HasMarkup)
    (alone : (ofScript (inRoute [line])).outline = routeOutline statements) :
    (ofScript (inRoute [garbage, line])).outline
        = routeOutline (strayOutline garbage :: statements)
      ↔ 2 ≤ (Token.all garbage).length := by
  constructor
  · intro closes
    by_contra short
    exact not_closes_stray stray following (by omega) statements closes
  · exact fun long => closes_stray stray following long plain alone

/-- The outline of the statement `drop;`. -/
def dropOutline : Outline :=
  .node ⟨Kind.statement, true, none, none⟩
    [.node ⟨Kind.coreFunction, true, none, none⟩
        [.node ⟨"drop", false, none, some "drop".toList⟩ []],
      .node ⟨";", false, none, some [';']⟩ []]

theorem ofScript_stray_pair :
    (ofScript (inRoute ["),".toList, "drop;".toList])).outline
      = routeOutline [strayOutline "),".toList, dropOutline] := by
  have noMarkup : ¬ (ofScript (inRoute ["drop;".toList])).HasMarkup :=
    Tree.not_hasMarkup (by decide)
  have alone : (ofScript (inRoute ["drop;".toList])).outline = routeOutline [dropOutline] := by
    decide +kernel
  exact (ofScript_stray (by decide) (by decide) noMarkup alone).2 (by decide)

/-- A closing parenthesis on a line of its own takes the word of the next line with it. -/
theorem ofScript_stray_single :
    StrayLine [')'] ∧ WordLine "drop;".toList
      ∧ (ofScript (inRoute ["drop;".toList])).outline = routeOutline [dropOutline]
      ∧ (ofScript (inRoute [[')'], "drop;".toList])).outline
        ≠ routeOutline [strayOutline [')'], dropOutline] := by
  decide +kernel

end Tree

end RouteScript
