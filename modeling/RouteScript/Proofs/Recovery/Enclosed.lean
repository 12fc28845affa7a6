import RouteScript.Proofs.Recovery.Braces
/-!
# Statements stay in their block

Expressions take no brace and no semicolon, statements whole blocks only. So a block that has not
more tokens than there are levels is read up to its own closing brace, whatever it holds.
-/
namespace RouteScript.Script

open Draft

variable {e : Tail} {p : Bool} {n depth : Nat} {s : Stream} {w : Token} {rest : List Token}

/-- The readers of a level stay in blocks that are not longer than the level is deep. -/
structure Level.Stays (depth : Nat) (inner : Level) : Prop where
  statement : ∀ {e p n s}, n < depth → (∀ w rest, s.tokens = w :: rest → w.kind ≠ .rBrace) →
    Script.Stays e p false n s inner.statement
  expression : ∀ {e p n s}, n ≤ depth → Script.Stays e p p n s inner.expression
  operand : ∀ {e p n s}, n ≤ depth → Script.Stays e p p n s inner.operand

/-- A token of a kind that no statement ends with. -/
theorem onward_of_kind {kind : Token.Kind} (known : w.kind = kind)
    (onward : isBlockOrEnd ⟨kind, [], 0, false⟩ = false) : isBlockOrEnd w = false := by
  subst known
  exact onward

section Productions

variable {inner : Level} (lossless : inner.Lossless) (h : inner.Stays depth)

section Expressions

include h

theorem argument_stays (short : n ≤ depth) (children : List Draft) :
    Stays e p p n s (argument inner children) := by
  refine .bind (h.expression short) fun out => ?_
  cases out with
  | ok value => exact .pure _
  | error consumed =>
    have stops (t : Token) (ends : isBlockOrEnd t) : (!endsArgument t) = false := by
      simp only [isBlockOrEnd, Bool.or_eq_true, beq_iff_eq] at ends
      rcases ends with (kind | kind) | kind <;> simp [endsArgument, kind]
    refine .bind (collectWhile_stays stops) fun rest => .peekKind fun w _ _ => ?_
    split
    · exact .pure _
    · exact .bind (.errorNodes _) fun _ => .pure _

theorem argumentStep_stays (short : n ≤ depth) (children : List Draft) :
    Stays e p p n s (argumentStep inner children) := by
  refine .bind (argument_stays h short children) fun out => ?_
  cases out with
  | none => exact .pure _
  | some children =>
    refine .peekKind fun w rest tokens => ?_
    split
    · rename_i comma
      exact .nextLeaf tokens (onward_of_kind (Option.some.inj comma) rfl) fun _ => .pure _
    · rename_i closes
      exact .nextLeaf tokens (onward_of_kind (Option.some.inj closes) rfl)
        fun _ => .bind (.node _ _) fun _ => .pure _
    · exact .pure _

theorem argumentList_stays (short : n ≤ depth + 1) (tokens : s.tokens = w :: rest)
    (opens : w.kind = .lParen) : Stays e p p n s (argumentList inner) := by
  refine .nextLeaf tokens (onward_of_kind opens rfl) fun fewer => .isAt (fun u us tokens closes => ?_)
    ?_
  · exact .nextLeaf tokens (onward_of_kind closes rfl) fun _ => .bind (.node _ _) fun _ => .pure _
  · exact .repeatUntil (fun children => argumentStep_stays h (by omega) children) _

theorem call_stays (short : n ≤ depth + 1) (tokens : s.tokens = w :: rest)
    (opens : w.kind = .lParen) (name : Draft) : Stays e p p n s (call inner name) := by
  refine .bind (argumentList_stays h short tokens opens) fun out => ?_
  cases out with
  | ok arguments => exact .bind (.node _ _) fun _ => .pure _
  | error consumed => exact .pure _

theorem parenthesized_stays (short : n ≤ depth + 1) (tokens : s.tokens = w :: rest)
    (opens : w.kind = .lParen) : Stays e p p n s (parenthesized inner) := by
  refine .nextLeaf tokens (onward_of_kind opens rfl) fun fewer => ?_
  refine .bind (h.expression (by omega)) fun out => ?_
  cases out with
  | error consumed => exact .pure _
  | ok value =>
    refine .isAt (fun u us tokens closes => ?_) (.pure _)
    exact .nextLeaf tokens (onward_of_kind closes rfl) fun _ => .bind (.node _ _) fun _ => .pure _

theorem primary_stays (short : n ≤ depth + 1) : Stays e p p n s (primary inner) := by
  refine .peek fun w rest tokens => ?_
  dsimp only
  split
  · rename_i opens
    refine .bind (parenthesized_stays h short tokens opens) fun out => ?_
    cases out <;> exact .pure _
  · -- there is no variable in a block whose braces match
    rename_i sign
    intro inside
    have plain := (inside.step tokens (onward_of_kind sign rfl)).1
    simp [Token.isPlain, sign] at plain
  · rename_i string
    exact .next tokens (onward_of_kind string rfl) fun _ => .pure _
  · rename_i number
    exact .next tokens (onward_of_kind number rfl) fun _ => .pure _
  · rename_i name
    refine .next tokens (onward_of_kind name rfl) fun fewer =>
      .isAt (fun u us tokens opens => ?_) (.pure _)
    exact call_stays h (by omega) tokens opens _
  · exact .pure _

theorem unary_stays (short : n ≤ depth + 1) : Stays e p p n s (unary inner) := by
  refine .peek fun w rest tokens => .peekSecondKind fun following => ?_
  split
  · rename_i operator
    have onward : isBlockOrEnd w = false := by
      simp only [isUnaryOperator, Bool.or_eq_true, Bool.and_eq_true, beq_iff_eq] at operator
      rcases operator with ((kind | kind) | kind) | ⟨⟨kind, _⟩, _⟩ <;>
        exact onward_of_kind kind rfl
    refine .next tokens onward fun fewer => .bind (h.operand (by omega)) fun out => ?_
    cases out with
    | ok value => exact .bind (.node _ _) fun _ => .pure _
    | error consumed => exact .pure _
  · exact primary_stays h short

omit h in
theorem chainStep_stays {operand : Reader Outcome}
    (h : ∀ {m s}, m ≤ n → Stays e p p m s operand) (precedence : Nat) (left : Draft) :
    Stays e p p n s (chainStep operand precedence left) := by
  refine .peek fun w rest tokens => ?_
  dsimp only
  split
  · exact .pure _
  · rename_i binds
    have onward : isBlockOrEnd w = false := by
      simp only [isBlockOrEnd, Bool.or_eq_false_iff, beq_eq_false_iff_ne]
      refine ⟨⟨?_, ?_⟩, ?_⟩ <;> intro kind <;> simp [kind, precedence?] at binds
    refine .next tokens onward fun fewer => .bind (h (Nat.le_of_lt fewer)) fun out => ?_
    cases out with
    | ok right => exact .bind (.node _ _) fun _ => .pure _
    | error consumed => exact .pure _

omit h in
theorem chain_stays {operand : Reader Outcome} (h : ∀ {m s}, m ≤ n → Stays e p p m s operand)
    (levels : Nat) : Stays e p p n s (chain operand levels) := by
  induction levels generalizing n s with
  | zero => exact h (Nat.le_refl n)
  | succ levels ih =>
    refine .bind (ih h) fun out => ?_
    cases out with
    | error consumed => exact .pure _
    | ok left =>
      exact .repeatUntil (fun left => chainStep_stays
        (fun le => ih fun le' => h (Nat.le_trans le' le)) _ left) left

theorem binary_stays (short : n ≤ depth + 1) : Stays e p p n s (binary inner) :=
  chain_stays (fun le => unary_stays h (Nat.le_trans le short)) tightest

theorem assignment_stays (short : n ≤ depth + 1) : Stays e p p n s (assignment inner) := by
  refine .bind (binary_stays h short) fun out => ?_
  cases out with
  | error consumed => exact .pure _
  | ok left =>
    refine .isAt (fun w rest tokens sign => ?_) (.pure _)
    refine .nextLeaf tokens (onward_of_kind sign rfl) fun fewer => ?_
    refine .bind (h.expression (by omega)) fun out => ?_
    cases out with
    | ok right => exact .bind (.node _ _) fun _ => .pure _
    | error consumed => exact .bind (.errorNodes _) fun _ => .bind (.node _ _) fun _ => .pure _

end Expressions

theorem skipStatementRest_stays : Stays e p p n s skipStatementRest := by
  have stops (first : Bool) (t : Token) (ends : isBlockOrEnd t) : statementRestStep first t = none := by
    simp only [isBlockOrEnd, Bool.or_eq_true, beq_iff_eq] at ends
    rcases ends with (kind | kind) | kind <;> simp [statementRestStep, kind]
  exact .bind (collect_stays true stops) fun _ => .pure _

theorem finishStatement_stays (children : List Draft) :
    Stays e p false n s (finishStatement children) := by
  refine .peek fun w rest tokens => ?_
  dsimp only
  split
  · rename_i semicolon
    exact .nextSemicolon tokens (by simpa using semicolon) (.node _ _)
  · split
    · exact .settle (.node _ _)
    · exact .bind skipStatementRest_stays fun _ => .bind (.errorNodes _) fun _ =>
        .bind .optionalSemicolon fun _ => .node _ _

section Blocks

include h

/-- In a block whose braces match no item is markup. -/
theorem blockItem_stays (short : n < depth) (open' : ∀ w rest, s.tokens = w :: rest →
    w.kind ≠ .rBrace) : Stays e p false n s (blockItem inner) := by
  refine .isAt (fun w rest tokens opens => ?_) (h.statement short open')
  intro inside
  have plain := (inside.step tokens (onward_of_kind opens rfl)).1
  simp [Token.isPlain, opens] at plain

include lossless

/-- A block is read up to its closing brace and ends there. -/
theorem restOfBlock_stays (short : n < depth) (opening : Token) (front : List Draft)
    (inside : Inside e false n s) :
    ∃ more s', restOfBlock inner opening (blockStart opening :: front) s
        = (blockStart opening :: (more ++ [.leaf Kind.blockEnd true e.close.start e.close.stop]), s')
      ∧ Ready e.rest s' := by
  have closes : Gives (restOfBlock inner opening (blockStart opening :: front)) s fun ds s' =>
      Ready e.rest s' ∧ ∃ more, ds = blockStart opening ::
        (more ++ [.leaf Kind.blockEnd true e.close.start e.close.stop]) := by
    refine gives_repeatUntil (blockStep_advancing lossless opening)
      (fun ds s' => Inside e false n s' ∧ ∃ front, ds = blockStart opening :: front)
      (fun ds s' opened _ ⟨inside, front, eq⟩ => ?_) ⟨front, rfl⟩ inside.sound ⟨inside, front, rfl⟩
    subst eq
    obtain ⟨w, rest, tokens⟩ := inside.head
    by_cases closing : w.kind = .rBrace
    · obtain ⟨rfl, taken, sound, waiting, behind⟩ := inside.stepClose tokens closing
      unfold Gives
      rw [blockStep_close tokens closing, taken]
      have nothing : s'.waiting = [] := waiting
      refine ⟨⟨?_, ?_, behind⟩, front, ?_⟩
      · exact (sound.drop_waiting fun d hd => (List.mem_filter.1 hd).1).sound
      · simp [place, nothing]
      · simp [place, nothing]
    · have stays := blockItem_stays h short (p := false) (e := e) (s := s') fun u us eq => by
        obtain ⟨rfl, rfl⟩ := List.cons.inj (tokens.symm.trans eq)
        exact closing
      have idle : Stays e false false n (blockItem inner s').2
        (place (blockStart opening :: front) (blockItem inner s').1) := .idle (.place _ _)
      unfold Gives
      rw [blockStep_item tokens closing]
      exact ⟨idle (stays inside), _, by rw [place_eq, List.cons_append]⟩
  obtain ⟨ready, more, eq⟩ := closes
  exact ⟨more, _, Prod.ext eq rfl, ready⟩

theorem compound_stays (short : n ≤ depth) (tokens : s.tokens = w :: rest)
    (opens : w.kind = .lBrace) : Stays e p false n s (compound inner) := by
  intro inside
  obtain ⟨taken, e', m, fewer, block, behind⟩ := inside.stepOpen tokens opens
  obtain ⟨more, s', eq, ready⟩ :=
    restOfBlock_stays lossless h (by omega) w [] block
  have eval : compound inner s = node Kind.compoundStatement
      (blockStart w :: (more ++ [.leaf Kind.blockEnd true e'.close.start e'.close.stop])) s' := by
    simp only [compound, bind, StateT.bind, taken]
    unfold restOfBlock at eq
    rw [eq]
  rw [eval]
  exact Stays.node _ _ (behind s' ready)

theorem body_stays (short : n < depth) (field : String) : Stays e true false n s (body inner field) := by
  refine .pending fun noClose => .peekKind fun w rest tokens => ?_
  split
  · contradiction
  · rename_i opens
    exact .bind (compound_stays lossless h (Nat.le_of_lt short) tokens (Option.some.inj opens))
      fun _ => .pure _
  · exact .bind (h.statement short noClose) fun _ => .pure _

omit lossless in
theorem condition_stays (short : n ≤ depth + 1) : Stays e p p n s (condition inner) := by
  refine .isAt (fun w rest tokens opens => ?_) ?_
  · refine .bind (parenthesized_stays h short tokens opens) fun out => ?_
    cases out with
    | ok group => exact .pure _
    | error consumed =>
      exact .bind (collect_stays false fun _ t ends => by simp [closingParenStep, ends])
        fun _ => .bind (.errorNode _) fun _ => .pure _
  · exact .bind (collectWhile_stays fun t ends => by simp [ends]) fun _ => .errorNodes _

theorem ifStatement_stays (short : n ≤ depth) (tokens : s.tokens = w :: rest)
    (control : w.isControl) : Stays e p false n s (ifStatement inner) := by
  refine .nextControl tokens control fun fewer => ?_
  refine .bind (condition_stays h (by omega)) fun test => ?_
  refine .bind (body_stays lossless h (by omega) _) fun consequence => ?_
  refine .isAtWord (fun u us tokens kind word => ?_) (.node _ _)
  refine .nextControl tokens (by simp [Token.isControl, kind, word]) fun fewer' => ?_
  exact .bind (body_stays lossless h (by omega) _) fun _ => .node _ _

theorem whileStatement_stays (short : n ≤ depth) (tokens : s.tokens = w :: rest)
    (control : w.isControl) : Stays e p false n s (whileStatement inner) := by
  refine .nextControl tokens control fun fewer => ?_
  refine .bind (condition_stays h (by omega)) fun test => ?_
  exact .bind (body_stays lossless h (by omega) _) fun _ => .node _ _

theorem switchStatement_stays (short : n ≤ depth) (tokens : s.tokens = w :: rest)
    (word : w.kind = .identifier) : Stays e p false n s (switchStatement inner) := by
  refine .nextKeyword tokens (onward_of_kind word rfl) fun fewer => ?_
  refine .bind (condition_stays h (by omega)) fun test => ?_
  refine .isAt (fun u us tokens opens => ?_) ?_
  · exact .bind (compound_stays lossless h (by omega) tokens opens) fun _ => .node _ _
  · exact .settle (.bind skipStatementRest_stays fun _ => .bind (.errorNodes _) fun _ => .node _ _)

omit lossless

theorem returnStatement_stays (short : n ≤ depth) (tokens : s.tokens = w :: rest)
    (word : w.kind = .identifier) : Stays e p p n s (returnStatement inner) := by
  refine .nextKeyword tokens (onward_of_kind word rfl) fun fewer => .peek fun u us tokens => ?_
  dsimp only
  split
  · exact .node _ _
  · refine .bind (h.expression (by omega)) fun out => ?_
    cases out with
    | ok value => exact .node _ _
    | error consumed => exact .bind (.errorNodes _) fun _ => .node _ _

theorem caseStatement_stays (short : n ≤ depth) (tokens : s.tokens = w :: rest)
    (word : w.kind = .identifier) : Stays e p p n s (caseStatement inner) := by
  refine .isAtWord (fun _ _ _ _ _ => ?_) ?_
  · exact .nextKeyword tokens (onward_of_kind word rfl) fun _ =>
      .bind (.optionalLeaf rfl) fun _ => .node _ _
  · refine .nextKeyword tokens (onward_of_kind word rfl) fun fewer => ?_
    refine .bind (binary_stays h (by omega)) fun out => ?_
    cases out with
    | ok value => exact .bind (.optionalLeaf rfl) fun _ => .node _ _
    | error consumed =>
      exact .bind (.errorNodes _) fun _ => .bind (.optionalLeaf rfl) fun _ => .node _ _

include lossless

theorem wordStatement_stays (short : n ≤ depth) (tokens : s.tokens = w :: rest)
    (word : w.kind = .identifier) {following : Option Token.Kind} {read : Reader Draft}
    (found : wordStatement? inner w.word following = some read) : Stays e p false n s read := by
  have control (text : String) (same : (w.word == text) = true)
      (known : text = "if" ∨ text = "while") : w.isControl := by
    have same : w.word = text := by simpa using same
    rcases known with rfl | rfl <;> simp [Token.isControl, word, same]
  unfold wordStatement? at found
  repeat' split at found
  all_goals cases found
  · rename_i same
    exact .bind (ifStatement_stays lossless h short tokens (control _ same (.inl rfl)))
      fun _ => .node _ _
  · exact .bind (switchStatement_stays lossless h short tokens word) fun _ => .node _ _
  · rename_i same
    exact .bind (whileStatement_stays lossless h short tokens (control _ same (.inr rfl)))
      fun _ => .node _ _
  · exact .settle (.bind (caseStatement_stays h short tokens word) fun _ => .node _ _)
  · exact .settle (.bind (caseStatement_stays h short tokens word) fun _ => .node _ _)
  · exact .bind (returnStatement_stays h short tokens word) fun _ => finishStatement_stays _
  · exact .nextKeyword tokens (onward_of_kind word rfl) fun _ => .bind (.node _ _)
      fun _ => finishStatement_stays _

theorem expressionStatement_stays (short : n ≤ depth) (tokens : s.tokens = w :: rest)
    (onward : isBlockOrEnd w = false) : Stays e p false n s (expressionStatement inner) := by
  have finished {m : Nat} {s : Stream} (consumed : List Draft) : Stays e p false m s
      (do finishStatement [← errorNode (consumed ++ (← skipStatementRest))]) :=
    .bind skipStatementRest_stays fun _ => .bind (.errorNode _) fun _ => finishStatement_stays _
  have untouched (sound : s.Sound) : Gives inner.expression s fun out s' =>
      out = .error [] → s'.tokens = s.tokens := by
    refine Gives.mono (lossless.expression s sound solid_nil) fun out s' ⟨conserves, _⟩
      nothing => ?_
    subst nothing
    exact conserves.conserves.tokens_eq sound rfl
  refine .bindGives untouched (h.expression short) fun out same => ?_
  cases out with
  | ok value => exact finishStatement_stays _
  | error consumed =>
    dsimp only
    split
    · rename_i empty
      rw [List.isEmpty_iff.1 empty] at same
      exact .nextLeaf ((same rfl).trans tokens) onward fun _ => finished _
    · exact finished consumed

theorem statement_stays (short : n ≤ depth)
    (open' : ∀ w rest, s.tokens = w :: rest → w.kind ≠ .rBrace) :
    Stays e p false n s (statement inner) := by
  refine .peek fun w rest tokens => .peekSecondKind fun following => ?_
  split
  · rename_i read found
    split at found
    · rename_i word
      exact wordStatement_stays lossless h short tokens (by simpa using word) found
    · contradiction
  · split
    · rename_i opens
      exact .bind (compound_stays lossless h short tokens opens) fun _ => .node _ _
    · rename_i semicolon
      exact .nextSemicolon tokens semicolon (.node _ _)
    · rename_i noBlock noEnd
      have onward : isBlockOrEnd w = false := by
        simp only [isBlockOrEnd, Bool.or_eq_false_iff, beq_eq_false_iff_ne]
        exact ⟨⟨noBlock, open' w rest tokens⟩, noEnd⟩
      exact expressionStatement_stays lossless h short tokens onward

end Blocks

end Productions

theorem level_stays (depth : Nat) : (level depth).Stays depth := by
  induction depth with
  | zero =>
    -- without levels regions are flat lists, and an empty one ends right here
    have region {e : Tail} {p : Bool} {n : Nat} {s : Stream} (short : n ≤ 0) : Stays e p p n s
        (do return .error (← skipNestedRegion) : Reader Outcome) := by
      rintro ⟨ts, wellBraced, fewer, ready⟩
      obtain rfl : ts = [] := List.eq_nil_of_length_eq_zero (by omega)
      have ended : s.tokens = e.close :: e.rest := ready.tokens
      have refused : nestedRegionStep ⟨0, false⟩ e.close = none := by
        simp [nestedRegionStep, e.closes]
      have trivia : e.close.isTrivia = false := by
        simp [Token.isTrivia, Token.Kind.isTrivia, e.closes]
      have nothing : (skipNestedRegion s).2 = s := by
        change { s with waiting := _, tokens := _ } = s
        rw [ended]
        simp [takeSteps, refused, trivia, ← ended]
      change Inside e p n (skipNestedRegion s).2
      rw [nothing]
      exact ⟨[], wellBraced, fewer, ready⟩
    exact ⟨fun short => absurd short (Nat.not_lt_zero _), region, region⟩
  | succ depth ih =>
    have lossless := level_lossless depth
    exact ⟨fun short => statement_stays lossless ih (Nat.le_of_lt_succ short),
      assignment_stays ih, unary_stays ih⟩

end RouteScript.Script
