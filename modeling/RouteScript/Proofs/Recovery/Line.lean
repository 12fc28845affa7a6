import RouteScript.Proofs.Recovery.Parted
import RouteScript.Proofs.Lossless.Statement
/-!
# Statements stop at the semicolon

Whatever stands in a line, every reader of a statement, its recovery included, takes no token behind
the semicolon. The levels below it are as many as there are tokens in the line, so the readers of
regions that are nested too deeply are never reached.
-/
namespace RouteScript.Script

open Draft

variable {e : Tails} {n depth : Nat} {s t : Stream} {w : Token} {rest : List Token}

/-- A group that is open ends before a semicolon. -/
theorem group_refuses {opening closing : Token.Kind} {ts : List Token} (line : IsLine ts) (g : Group)
    (started : g.started) : Refuses (Group.step opening closing) g ts := by
  induction line generalizing g with
  | last t semicolon => simp [Refuses, Group.step, started, semicolon]
  | cons _ _ _ ih =>
    intro g' accepts
    apply ih
    unfold Group.step at accepts
    split at accepts
    · contradiction
    · split at accepts
      · cases accepts
        rfl
      · split at accepts <;> cases accepts <;> rfl

theorem balanced_agrees {opening closing : Token.Kind} (tokens : s.tokens = w :: rest)
    (opens : w.kind = opening) (inside : opening ≠ .semicolon) :
    Agrees e n s t (balanced opening closing) := by
  intro parted
  have refuses (ts behind : List Token) (line : IsLine ts) (ahead : s.tokens = ts ++ behind) :
      Refuses (Group.step opening closing) ⟨0, false, false⟩ ts := by
    obtain ⟨u, ts, rfl⟩ := List.exists_cons_of_ne_nil line.nonempty
    obtain rfl : w = u := (List.cons.inj (tokens.symm.trans ahead)).1
    have first : Group.step opening closing ⟨0, false, false⟩ w = some ⟨1, true, false⟩ := by
      simp [Group.step, opens]
    intro g' accepts
    obtain rfl : (⟨1, true, false⟩ : Group) = g' := Option.some.inj (first.symm.trans accepts)
    cases line with
    | last _ semicolon => exact absurd (opens.symm.trans semicolon) inside
    | cons _ _ tail => exact group_refuses tail _ rfl
  obtain ⟨same, later⟩ := parted.collect refuses
  let start : Group := ⟨0, false, false⟩
  have eval (s : Stream) : balanced opening closing s
      = if (collect (Group.step opening closing) start s).1.1.closed then
          (some (collect (Group.step opening closing) start s).1.2,
            (collect (Group.step opening closing) start s).2)
        else (none, s) := rfl
  rw [eval, eval, same]
  split
  · exact ⟨rfl, .inl later⟩
  · exact ⟨rfl, .inl parted⟩

theorem index_agrees (tokens : s.tokens = w :: rest) (opens : w.kind = .lBracket) :
    Agrees e n s t index := by
  refine .bind (balanced_agrees tokens opens (by simp)) fun taken => ?_
  split
  · exact .bind (.node _ _) fun _ => .pure _
  · exact .pure _

theorem variableParts_agrees (className : Token) (opening : Draft) (inner : List Draft)
    (closing : Draft) : Agrees e n s t (variableParts className opening inner closing) := by
  unfold variableParts
  split
  · exact .bind (.node _ _) fun _ => .node _ _
  · exact .bind (.node _ _) fun _ => .node _ _

theorem pseudoContent_agrees (tokens : s.tokens = w :: rest) (name : w.kind = .identifier) :
    Agrees e n s t pseudoContent := by
  refine .next tokens (by simp [name]) fun _ => .isAdjacent (fun u us tokens opens => ?_) ?_
  · refine .bind (balanced_agrees tokens opens (by simp)) fun taken => ?_
    split
    · refine .bind (variableParts_agrees _ _ _ _) fun parts => ?_
      refine .isAdjacent (fun u us tokens opens => ?_) ?_
      · exact .bind (index_agrees tokens opens) fun _ => .bind (.node _ _) fun _ => .pure _
      · exact .bind (.node _ _) fun _ => .pure _
    · exact .pure _
  · exact .bind (.node _ _) fun _ => .pure _

theorem transformationStep_agrees (children : List Draft) :
    Agrees e n s t (transformationStep children) := by
  refine .peekKind fun w rest tokens inLine => ?_
  split
  · rename_i opens
    exact absurd (Option.some.inj opens) inLine.lBrace
  · rename_i opens
    refine .bind (index_agrees tokens (Option.some.inj opens)) fun taken => ?_
    split <;> exact .pure _
  · exact .pure _

theorem pvarExpression_agrees (dollar : Token) (tokens : s.tokens = w :: rest)
    (opens : w.kind = .lParen) : Agrees e n s t (pvarExpression dollar) := by
  refine .next tokens (by simp [opens]) fun _ => ?_
  refine .isAdjacent (fun u us tokens name => ?_) (.pure _)
  refine .bindGives (fun sound => pseudoContent_lossless _ sound solid_nil)
    (pseudoContent_agrees tokens name) fun out ⟨_, solid, _⟩ => ?_
  cases out with
  | error consumed => exact .pure _
  | ok content =>
    have nodes : Solid [.leaf "$(" false dollar.start w.stop, content] := by
      simpa [Outcome.held, solids_leaf (show "$(" ≠ Kind.xml by decide)] using solid
    refine .bind (.repeatUntil transformationStep_rounds.advancing
      (fun children _ => transformationStep_agrees children) ⟨trivial, nodes⟩) fun out => ?_
    split
    · exact .pure _
    · refine .isAt (fun u us tokens closes => ?_) (.pure _)
      exact .nextLeaf tokens (by simp [closes]) fun _ => .bind (.node _ _) fun _ => .pure _

theorem pseudoVariable_agrees (tokens : s.tokens = w :: rest) (sign : w.kind = .dollar) :
    Agrees e n s t pseudoVariable := by
  refine .next tokens (by simp [sign]) fun _ => .isAdjacent (fun u us tokens opens => ?_) ?_
  · exact pvarExpression_agrees w tokens opens
  · refine .isAdjacent (fun u us tokens name => ?_) (.pure _)
    refine .bind (pseudoContent_agrees tokens name) fun out => ?_
    split
    · exact .bind (.node _ _) fun _ => .pure _
    · exact .pure _

/-- The readers of a level agree in lines that are not longer than the level is deep. -/
structure Level.Agrees (e : Tails) (depth : Nat) (inner : Level) : Prop where
  statement : ∀ {n s t}, n < depth → Script.Agrees e n s t inner.statement True
  expression : ∀ {n s t}, n ≤ depth → Script.Agrees e n s t inner.expression
  operand : ∀ {n s t}, n ≤ depth → Script.Agrees e n s t inner.operand

section Productions

variable {inner : Level} (lossless : inner.Lossless) (h : inner.Agrees e depth)

section Expressions

include h

theorem argument_agrees (short : n ≤ depth) (children : List Draft) :
    Agrees e n s t (argument inner children) := by
  refine .bind (h.expression short) fun out => ?_
  cases out with
  | ok value => exact .pure _
  | error consumed =>
    refine .bind (collectWhile_agrees fun t semicolon => by simp [endsArgument, semicolon])
      fun rest => .peekKind fun w _ _ _ => ?_
    split
    · exact .pure _
    · exact .bind (.errorNodes _) fun _ => .pure _

theorem argumentStep_agrees (short : n ≤ depth) (children : List Draft) :
    Agrees e n s t (argumentStep inner children) := by
  refine .bind (argument_agrees h short children) fun out => ?_
  cases out with
  | none => exact .pure _
  | some children =>
    refine .peekKind fun w rest tokens _ => ?_
    split
    · rename_i comma
      have inside : w.kind ≠ .semicolon := by simp [Option.some.inj comma]
      exact .nextLeaf tokens inside fun _ => .pure _
    · rename_i closes
      have inside : w.kind ≠ .semicolon := by simp [Option.some.inj closes]
      exact .nextLeaf tokens inside fun _ => .bind (.node _ _) fun _ => .pure _
    · exact .pure _

include lossless

theorem argumentList_agrees (short : n ≤ depth + 1) (tokens : s.tokens = w :: rest)
    (opens : w.kind = .lParen) : Agrees e n s t (argumentList inner) := by
  refine .nextLeaf tokens (by simp [opens]) fun fewer => .isAt (fun u us tokens closes => ?_) ?_
  · exact .nextLeaf tokens (by simp [closes]) fun _ => .bind (.node _ _) fun _ => .pure _
  · exact .repeatUntil (argumentStep_rounds lossless).advancing
      (fun children _ => argumentStep_agrees h (by omega) children) ⟨trivial, by simp⟩

theorem call_agrees (short : n ≤ depth + 1) (tokens : s.tokens = w :: rest)
    (opens : w.kind = .lParen) (name : Draft) : Agrees e n s t (call inner name) := by
  refine .bind (argumentList_agrees lossless h short tokens opens) fun out => ?_
  cases out with
  | ok arguments => exact .bind (.node _ _) fun _ => .pure _
  | error consumed => exact .pure _

omit lossless in
theorem parenthesized_agrees (short : n ≤ depth + 1) (tokens : s.tokens = w :: rest)
    (opens : w.kind = .lParen) : Agrees e n s t (parenthesized inner) := by
  refine .nextLeaf tokens (by simp [opens]) fun fewer => ?_
  refine .bind (h.expression (by omega)) fun out => ?_
  cases out with
  | error consumed => exact .pure _
  | ok value =>
    refine .isAt (fun u us tokens closes => ?_) (.pure _)
    exact .nextLeaf tokens (by simp [closes]) fun _ => .bind (.node _ _) fun _ => .pure _

theorem primary_agrees (short : n ≤ depth + 1) : Agrees e n s t (primary inner) := by
  refine .peek fun w rest tokens _ => ?_
  dsimp only
  split
  · rename_i opens
    refine .bind (parenthesized_agrees h short tokens opens) fun out => ?_
    cases out <;> exact .pure _
  · rename_i sign
    exact pseudoVariable_agrees tokens sign
  · rename_i string
    exact .next tokens (by simp [string]) fun _ => .pure _
  · rename_i number
    exact .next tokens (by simp [number]) fun _ => .pure _
  · rename_i name
    refine .next tokens (by simp [name]) fun fewer => .isAt (fun u us tokens opens => ?_) (.pure _)
    exact call_agrees lossless h (by omega) tokens opens _
  · exact .pure _

theorem unary_agrees (short : n ≤ depth + 1) : Agrees e n s t (unary inner) := by
  refine .head fun w us vs left right _ => ?_
  by_cases ended : w.kind = .semicolon
  · have eval {s : Stream} {us : List Token} (tokens : s.tokens = w :: us) :
        unary inner s = (pure (.error []) : Reader Outcome) s := by
      simp [unary, peek, peekSecondKind, primary, isUnaryOperator, ended, tokens, bind, StateT.bind]
    exact .ofEq (eval left) (eval right) (.pure _)
  · refine .peek fun u rest tokens _ => ?_
    obtain ⟨rfl, rfl⟩ := List.cons.inj (left.symm.trans tokens)
    refine .peekSecondKind left ended fun following => ?_
    split
    · refine .next left ended fun fewer => .bind (h.operand (by omega)) fun out => ?_
      cases out with
      | ok value => exact .bind (.node _ _) fun _ => .pure _
      | error consumed => exact .pure _
    · exact primary_agrees lossless h short

omit lossless h in
theorem chainStep_agrees {operand : Reader Outcome}
    (h : ∀ {m s t}, m ≤ n → Agrees e m s t operand) (precedence : Nat) (left : Draft) :
    Agrees e n s t (chainStep operand precedence left) := by
  refine .peek fun w rest tokens _ => ?_
  dsimp only
  split
  · exact .pure _
  · rename_i binds
    have inside : w.kind ≠ .semicolon := by
      intro semicolon
      simp [semicolon, precedence?] at binds
    refine .next tokens inside fun fewer => .bind (h (Nat.le_of_lt fewer)) fun out => ?_
    cases out with
    | ok right => exact .bind (.node _ _) fun _ => .pure _
    | error consumed => exact .pure _

omit lossless h in
theorem chain_agrees {operand : Reader Outcome} (lossless : ∀ s, Lossless s [] operand Outcome.held)
    (h : ∀ {m s t}, m ≤ n → Agrees e m s t operand) (levels : Nat) :
    Agrees e n s t (chain operand levels) := by
  induction levels generalizing n s t with
  | zero => exact h (Nat.le_refl n)
  | succ levels ih =>
    refine .bindGives (fun sound => chain_lossless lossless levels _ sound solid_nil) (ih h)
      fun out ⟨_, solid, _⟩ => ?_
    cases out with
    | error consumed => exact .pure _
    | ok left =>
      have rounds := chainStep_rounds (chain_lossless lossless levels) (tightest - levels)
      exact .repeatUntil rounds.advancing
        (fun left _ => chainStep_agrees (fun le => ih fun le' => h (Nat.le_trans le' le)) _ left)
        ⟨trivial, solid⟩

theorem binary_agrees (short : n ≤ depth + 1) : Agrees e n s t (binary inner) :=
  chain_agrees (unary_lossless lossless)
    (fun le => unary_agrees lossless h (Nat.le_trans le short)) tightest

theorem assignment_agrees (short : n ≤ depth + 1) : Agrees e n s t (assignment inner) := by
  refine .bind (binary_agrees lossless h short) fun out => ?_
  cases out with
  | error consumed => exact .pure _
  | ok left =>
    refine .isAt (fun w rest tokens sign => ?_) (.pure _)
    refine .nextLeaf tokens (by simp [sign]) fun fewer => ?_
    refine .bind (h.expression (by omega)) fun out => ?_
    cases out with
    | ok right => exact .bind (.node _ _) fun _ => .pure _
    | error consumed => exact .bind (.errorNodes _) fun _ => .bind (.node _ _) fun _ => .pure _

end Expressions

section Statements

omit lossless h

theorem skipStatementRest_agrees : Agrees e n s t skipStatementRest :=
  .bind (collect_agrees true fun _ t semicolon => by simp [statementRestStep, semicolon])
    fun _ => .pure _

theorem finishStatement_agrees (children : List Draft) :
    Agrees e n s t (finishStatement children) True := by
  refine .peek fun w rest tokens _ => ?_
  dsimp only
  split
  · rename_i semicolon
    exact .nextLeafEnds tokens (by simpa using semicolon) (.idle (.node _ _))
  · split
    · exact .node _ _
    · refine .bind skipStatementRest_agrees fun _ => .bind (.errorNodes _) fun _ => ?_
      exact .bindEnds .optionalSemicolon (fun _ => .node _ _)
        fun _ => ⟨trivial, fun _ => .idle (.node _ _)⟩

include h

theorem blockItem_agrees (short : n < depth) : Agrees e n s t (blockItem inner) True := by
  refine .head fun w us vs left _ inLine => .isAt (fun u rest tokens opens => ?_) ?_
  · obtain ⟨rfl, _⟩ := List.cons.inj (left.symm.trans tokens)
    exact absurd opens inLine.lt
  · exact h.statement short

theorem body_agrees (short : n < depth) (field : String) :
    Agrees e n s t (body inner field) True := by
  refine .peekKind fun w rest tokens inLine => ?_
  split
  · contradiction
  · rename_i opens
    exact absurd (Option.some.inj opens) inLine.lBrace
  · exact .bindEnds (h.statement short) (fun _ => .pure _)
      fun _ => ⟨trivial, fun _ => .idle (.pure _)⟩

theorem condition_agrees (short : n ≤ depth + 1) : Agrees e n s t (condition inner) := by
  refine .isAt (fun w rest tokens opens => ?_) ?_
  · refine .bind (parenthesized_agrees h short tokens opens) fun out => ?_
    cases out with
    | ok group => exact .pure _
    | error consumed =>
      refine .bind (collect_agrees false fun _ t semicolon => ?_) fun _ =>
        .bind (.errorNode _) fun _ => .pure _
      simp [closingParenStep, isBlockOrEnd, semicolon]
  · exact .bind (collectWhile_agrees fun t semicolon => by simp [isBlockOrEnd, semicolon])
      fun _ => .errorNodes _

theorem ifStatement_agrees (short : n ≤ depth) (tokens : s.tokens = w :: rest)
    (word : w.kind = .identifier) : Agrees e n s t (ifStatement inner) True := by
  refine .nextKeyword tokens (by simp [word]) fun fewer => ?_
  refine .bind (condition_agrees h (by omega)) fun test => ?_
  exact .bindEnds (body_agrees h (by omega) _) (fun _ => .isAtElse (.node _ _))
    fun _ => ⟨trivial, fun _ => .isAtElse (.idle (.node _ _))⟩

theorem whileStatement_agrees (short : n ≤ depth) (tokens : s.tokens = w :: rest)
    (word : w.kind = .identifier) : Agrees e n s t (whileStatement inner) True := by
  refine .nextKeyword tokens (by simp [word]) fun fewer => ?_
  refine .bind (condition_agrees h (by omega)) fun test => ?_
  exact .bindEnds (body_agrees h (by omega) _) (fun _ => .node _ _)
    fun _ => ⟨trivial, fun _ => .idle (.node _ _)⟩

theorem switchStatement_agrees (short : n ≤ depth) (tokens : s.tokens = w :: rest)
    (word : w.kind = .identifier) : Agrees e n s t (switchStatement inner) := by
  refine .nextKeyword tokens (by simp [word]) fun fewer => ?_
  refine .bind (condition_agrees h (by omega)) fun test => ?_
  refine .head fun u us vs left _ inLine => .isAt (fun v rest tokens opens => ?_) ?_
  · obtain ⟨rfl, _⟩ := List.cons.inj (left.symm.trans tokens)
    exact absurd opens inLine.lBrace
  · exact .bind skipStatementRest_agrees fun _ => .bind (.errorNodes _) fun _ => .node _ _

theorem returnStatement_agrees (short : n ≤ depth) (tokens : s.tokens = w :: rest)
    (word : w.kind = .identifier) : Agrees e n s t (returnStatement inner) := by
  refine .nextKeyword tokens (by simp [word]) fun fewer => .peek fun u us tokens _ => ?_
  dsimp only
  split
  · exact .node _ _
  · refine .bind (h.expression (by omega)) fun out => ?_
    cases out with
    | ok value => exact .node _ _
    | error consumed => exact .bind (.errorNodes _) fun _ => .node _ _

include lossless

theorem caseStatement_agrees (short : n ≤ depth) (tokens : s.tokens = w :: rest)
    (word : w.kind = .identifier) : Agrees e n s t (caseStatement inner) := by
  refine .isAtWord fun isDefault => .nextKeyword tokens (by simp [word]) fun fewer => ?_
  split
  · exact .bind (.optionalLeaf (by simp)) fun _ => .node _ _
  · refine .bind (binary_agrees lossless h (by omega)) fun out => ?_
    cases out with
    | ok value => exact .bind (.optionalLeaf (by simp)) fun _ => .node _ _
    | error consumed =>
      exact .bind (.errorNodes _) fun _ => .bind (.optionalLeaf (by simp)) fun _ => .node _ _

theorem wordStatement_agrees (short : n ≤ depth) (tokens : s.tokens = w :: rest)
    (word : w.kind = .identifier) {text : String} {following : Option Token.Kind}
    {read : Reader Draft} (found : wordStatement? inner text following = some read) :
    Agrees e n s t read True := by
  have statement {r : Reader Draft} (hr : Agrees e n s t r True) :
      Agrees e n s t (do node Kind.statement [← r]) True :=
    .bindEnds hr (fun _ => .node _ _) fun _ => ⟨trivial, fun _ => .idle (.node _ _)⟩
  unfold wordStatement? at found
  repeat' split at found
  all_goals cases found
  · exact statement (ifStatement_agrees h short tokens word)
  · exact .bind (switchStatement_agrees h short tokens word) fun _ => .node _ _
  · exact statement (whileStatement_agrees h short tokens word)
  · exact .bind (caseStatement_agrees lossless h short tokens word) fun _ => .node _ _
  · exact .bind (caseStatement_agrees lossless h short tokens word) fun _ => .node _ _
  · exact .bind (returnStatement_agrees h short tokens word) fun _ => finishStatement_agrees _
  · exact .nextKeyword tokens (by simp [word]) fun _ => .bind (.node _ _)
      fun _ => finishStatement_agrees _

theorem expressionStatement_agrees (short : n ≤ depth) (tokens : s.tokens = w :: rest)
    (inside : w.kind ≠ .semicolon) : Agrees e n s t (expressionStatement inner) True := by
  have finished {n : Nat} {s t : Stream} (consumed : List Draft) : Agrees e n s t
      (do finishStatement [← errorNode (consumed ++ (← skipStatementRest))]) True :=
    .bind skipStatementRest_agrees fun _ => .bind (.errorNode _) fun _ => finishStatement_agrees _
  have untouched (sound : s.Sound) : Gives inner.expression s fun out s' =>
      out = .error [] → s'.tokens = s.tokens := by
    refine Gives.mono (lossless.expression s sound solid_nil) fun out s' ⟨conserves, _⟩
      nothing => ?_
    subst nothing
    exact conserves.conserves.tokens_eq sound rfl
  refine .bindGives untouched (h.expression short) fun out same => ?_
  cases out with
  | ok value => exact finishStatement_agrees _
  | error consumed =>
    dsimp only
    split
    · rename_i empty
      rw [List.isEmpty_iff.1 empty] at same
      exact .nextLeaf ((same rfl).trans tokens) inside fun _ => finished _
    · exact finished consumed

theorem statement_agrees (short : n ≤ depth) : Agrees e n s t (statement inner) True := by
  refine .head fun w us vs left right inLine => ?_
  by_cases ended : w.kind = .semicolon
  · have eval {s : Stream} {us : List Token} (tokens : s.tokens = w :: us) :
        statement inner s = (nextLeaf >>= fun leaf => node Kind.statement leaf) s := by
      simp [statement, peek, peekSecondKind, ended, tokens, bind, StateT.bind]
    exact .ofEq (eval left) (eval right) (.nextLeafEnds left ended (.idle (.node _ _)))
  · refine .peek fun u rest tokens _ => ?_
    obtain ⟨rfl, rfl⟩ := List.cons.inj (left.symm.trans tokens)
    refine .peekSecondKind left ended fun following => ?_
    split
    · rename_i read found
      split at found
      · rename_i word
        exact wordStatement_agrees lossless h short left (by simpa using word) found
      · contradiction
    · split
      · rename_i opens
        exact absurd opens inLine.lBrace
      · rename_i semicolon
        exact absurd semicolon ended
      · exact expressionStatement_agrees lossless h short left ended

end Statements

end Productions

theorem level_agrees (e : Tails) (depth : Nat) : (level depth).Agrees e depth := by
  induction depth with
  | zero =>
    have nowhere {α : Type} {x : Reader α} {n : Nat} {s t : Stream} (none : n ≤ 0) :
        Agrees e n s t x := by
      rintro ⟨ts, line, short, _⟩
      have some_token := List.length_pos_iff.2 line.nonempty
      omega
    exact ⟨fun short => absurd short (Nat.not_lt_zero _), nowhere, nowhere⟩
  | succ depth ih =>
    have lossless := level_lossless depth
    exact ⟨fun short => statement_agrees lossless ih (Nat.le_of_lt_succ short),
      assignment_agrees lossless ih, unary_agrees lossless ih⟩

end RouteScript.Script
