import RouteScript.Proofs.Program.Expression
import RouteScript.Proofs.Alike.Statement
/-!
# Printed statements

Statements are read as they were printed. A block is read by a loop, so what is followed is how the
children of an open block grow.
-/
namespace RouteScript.Script

open Draft Outline Program

variable {β : Type} {a : List Char} {p : Option Nat} {s : Stream} {l : Token.Look}
  {ls mid rest : List Token.Look} {o o' : Outline} {os os' : List Outline} {k : Nat}
  {newline adjacent newline' adjacent' : Bool} {post : Draft → Prop}

theorem finish_parses {d : Draft} (shows : Shows a [d] [o]) :
    Parses a p (⟨.semicolon, [';'], newline, adjacent⟩ :: ls) s (finishStatement [d]) ls
      (Shows a [·] [finished o]) := by
  refine .peek fun t seen => ?_
  have semicolon : (t.kind == .semicolon) = true := by simp [seen.kind]
  dsimp only
  rw [if_pos semicolon]
  exact .bind (nextLeaf_parses (by simp)) fun _ last =>
    (shows.append last).node (by simp) (by decide)

theorem expressionStatement_parses {inner : Level}
    (h : Parses a p ls s inner.expression (⟨.semicolon, [';'], newline, adjacent⟩ :: rest)
      (Yields a o)) :
    Parses a p ls s (expressionStatement inner) rest (Shows a [·] [finished (wrapped o)]) := by
  refine .bind h fun out yields => ?_
  obtain ⟨d, rfl, shows⟩ := yields
  exact finish_parses shows.wrap

/-- A statement that is no instruction of its own. -/
theorem statement_expression {inner : Level}
    (free : l.kind = .identifier →
      wordStatement? inner (String.ofList l.text) (ls.head?.map Token.Look.kind) = none)
    (noBlock : l.kind ≠ .lBrace) (nonempty : l.kind ≠ .semicolon)
    (h : Parses a p (l :: ls) s (expressionStatement inner) rest post) :
    Parses a p (l :: ls) s (statement inner) rest post := by
  refine .peek fun t seen => .peekSecondKind ?_
  have noWord : (if t.kind == .identifier then
      wordStatement? inner t.word (ls.head?.map Token.Look.kind) else none) = none := by
    rw [seen.kind, seen.word]
    split
    · rename_i identifier
      exact free (by simpa using identifier)
    · rfl
  rw [noWord]
  dsimp only
  rw [seen.kind]
  split
  · rename_i brace
    exact absurd brace noBlock
  · rename_i semicolon
    exact absurd semicolon nonempty
  · exact h

/-- A statement that starts with an instruction. -/
theorem statement_word {inner : Level} {text : String} {read : Reader Draft}
    (word : wordStatement? inner text (ls.head?.map Token.Look.kind) = some read)
    (h : Parses a p (⟨.identifier, text.toList, newline, adjacent⟩ :: ls) s read rest post) :
    Parses a p (⟨.identifier, text.toList, newline, adjacent⟩ :: ls) s (statement inner) rest
      post := by
  refine .peek fun t seen => .peekSecondKind ?_
  have same : (t.kind == .identifier) = true := by simp [seen.kind]
  rw [if_pos same, seen.word, String.ofList_toList, word]
  exact h

theorem assignment_parses
    (left : ∀ {p s}, Parses a p ls s (unary (level k)) (⟨.assign, ['='], newline, adjacent⟩ :: mid)
      (Yields a o))
    (right : ∀ {p s}, Parses a p mid s (level k).expression rest (Yields a o')) :
    Parses a p ls s (level (k + 1)).expression rest (Yields a (nodeOf Kind.assignment
      [labelled Field.left o, sign .assign, labelled Field.right (wrapped o')])) := by
  have operand {p s} : Parses a p ls s (binary (level k)) _ (Yields a o) :=
    chain_extend (unary_lossless (level_lossless k)) (Nat.zero_le tightest)
      (fun _ _ _ _ hl => by cases hl; simp [precedence?]) left
  refine .bind operand fun out yields => ?_
  obtain ⟨d, rfl, shows⟩ := yields
  refine .isAt_yes (.bind (nextLeaf_parses (by simp)) fun _ equals => .bind right
    fun out yields => ?_)
  obtain ⟨d', rfl, shows'⟩ := yields
  have children := ((shows.withField Field.left).cons equals).append
    (shows'.wrap.withField Field.right)
  exact .bind (children.node (by simp) (by decide)) fun d shows => .pure ⟨d, rfl, shows⟩

section Instructions

variable {inner : Level} {read : Reader Draft}

theorem finished_parses
    (h : Parses a p ls s read (⟨.semicolon, [';'], newline, adjacent⟩ :: rest)
      (Shows a [·] [o])) :
    Parses a p ls s (do finishStatement [← read]) rest (Shows a [·] [finished o]) :=
  .bind h fun _ shows => finish_parses shows

theorem statementNode_parses (h : Parses a p ls s read rest (Shows a [·] [o])) :
    Parses a p ls s (do node Kind.statement [← read]) rest
      (Shows a [·] [nodeOf Kind.statement [o]]) :=
  .bind h fun _ shows => shows.node (by simp) (by decide)

theorem coreFunction_parses {text : String} (known : Vocabulary.anonymousKind? text = some text) :
    Parses a p (⟨.identifier, text.toList, newline, adjacent⟩ :: ls) s
      (do node Kind.coreFunction (← nextKeyword)) ls
      (Shows a [·] [nodeOf Kind.coreFunction [keyword text]]) :=
  .bind (nextKeyword_parses known rfl) fun _ shows => shows.node (by simp) (by decide)

/-- A return without a value. -/
theorem return_parses :
    Parses a p (⟨.identifier, "return".toList, newline, adjacent⟩
      :: ⟨.semicolon, [';'], newline', adjacent'⟩ :: ls) s (returnStatement inner)
      (⟨.semicolon, [';'], newline', adjacent'⟩ :: ls)
      (Shows a [·] [nodeOf Kind.returnStatement [keyword "return"]]) := by
  refine .bind (nextKeyword_parses rfl rfl) fun word shows => .peek fun t seen => ?_
  have ends : (t.newlineBefore || t.kind == .semicolon || t.kind == .rBrace) = true := by
    simp [seen.kind]
  dsimp only
  rw [if_pos ends]
  exact shows.node (by simp) (by decide)

/-- A return with a value on the same line. -/
theorem returnValue_parses
    (first : l.newlineBefore = false ∧ l.kind ≠ .semicolon ∧ l.kind ≠ .rBrace)
    (h : ∀ {p s}, Parses a p (l :: ls) s inner.expression rest (Yields a o)) :
    Parses a p (⟨.identifier, "return".toList, newline, adjacent⟩ :: l :: ls) s
      (returnStatement inner) rest
      (Shows a [·] [nodeOf Kind.returnStatement [keyword "return", wrapped o]]) := by
  refine .bind (nextKeyword_parses rfl rfl) fun word shows => .peek fun t seen => ?_
  have goes : ¬ (t.newlineBefore || t.kind == .semicolon || t.kind == .rBrace) = true := by
    simp [seen.kind, seen.newlineBefore, first]
  dsimp only
  rw [if_neg goes]
  refine .bind h fun out yields => ?_
  obtain ⟨d, rfl, value⟩ := yields
  exact (shows.append value.wrap).node (by simp) (by decide)

/-- The label of a case. -/
theorem case_parses {text : List Char} :
    Parses a p (⟨.identifier, "case".toList, newline, adjacent⟩ :: ⟨.string, text, false, adjacent'⟩
      :: ⟨.colon, [':'], newline', true⟩ :: ls) s (caseStatement (level k)) ls
      (Shows a [·] [nodeOf Kind.caseStatement [keyword "case",
        labelled Field.value (wrapped (leaf Kind.string text)), sign .colon]]) := by
  refine .isAtWord (.bind (nextKeyword_parses rfl rfl) fun word shows => ?_)
  have value {p s} : Parses a p (⟨.string, text, false, adjacent'⟩
      :: ⟨.colon, [':'], newline', true⟩ :: ls) s (binary (level k)) _
      (Yields a (leaf Kind.string text)) :=
    chain_extend (unary_lossless (level_lossless k)) (Nat.zero_le tightest)
      (fun _ _ _ _ hl => by cases hl; simp [precedence?])
      (unary_parses (by simp [Leads]) (literal_parses (.inl rfl)))
  refine .bind value fun out yields => ?_
  obtain ⟨d, rfl, label⟩ := yields
  refine .bind (optionalLeaf_yes (l := ⟨.colon, [':'], newline', true⟩) (by simp))
    fun colon last => ?_
  exact ((shows.append (label.wrap.withField Field.value)).append last).node (by simp) (by decide)

theorem condition_parses
    (h : ∀ {p s}, Parses a p ls s inner.expression (⟨.rParen, [')'], newline', adjacent'⟩ :: rest)
      (Yields a o)) :
    Parses a p (⟨.lParen, ['('], newline, adjacent⟩ :: ls) s (condition inner) rest
      (Shows a · [Program.condition o]) := by
  refine .isAt_yes (.bind (parenthesized_parses h) fun out gets => ?_)
  obtain ⟨d, rfl, shows⟩ := gets
  exact .pure (shows.withField Field.condition)

theorem body_parses {field : String}
    (h : ∀ {p s}, Parses a p (⟨.lBrace, ['{'], newline, adjacent⟩ :: ls) s (compound inner) rest
      (Shows a [·] [o])) :
    Parses a p (⟨.lBrace, ['{'], newline, adjacent⟩ :: ls) s (body inner field) rest
      (Shows a · [labelled field o]) :=
  .peekKind (.bind h fun _ shows => .pure (shows.withField field))

end Instructions

/-- Reading some looks adds children of these outlines to a block that is open. -/
structure Runs (a : List Char) (k : Nat) (opening : Token) (ls mid : List Token.Look)
    (os : List Outline) : Prop where
  grow : ∀ {rest p s post os₀ children}, isOpened opening children → Gathers a children os₀ →
    (∀ {p s} children', isOpened opening children' → Gathers a children' (os₀ ++ os) →
      Parses a p mid s (repeatUntil (blockStep (level k) opening) id children') rest post) →
    Parses a p ls s (repeatUntil (blockStep (level k) opening) id children) rest post

namespace Runs

variable {opening : Token}

theorem refl : Runs a k opening ls ls [] :=
  ⟨fun opened gathers hk => hk _ opened (by simpa using gathers)⟩

theorem trans (h : Runs a k opening ls mid os) (h' : Runs a k opening mid rest os') :
    Runs a k opening ls rest (os ++ os') :=
  ⟨fun opened gathers hk => h.grow opened gathers fun _ opened gathers =>
    h'.grow opened gathers fun _ opened gathers => hk _ opened (by rwa [← List.append_assoc])⟩

/-- One statement. -/
theorem one (first : l.kind ≠ .rBrace ∧ l.kind ≠ .lt)
    (h : ∀ {p s}, Parses a p (l :: ls) s (level k).statement mid (Shows a [·] [o])) :
    Runs a k opening (l :: ls) mid [o] := by
  refine ⟨fun {rest p s post os₀ children} opened gathers hk => ?_⟩
  have item {p s} : Parses a p (l :: ls) s (blockItem (level k)) mid (Shows a [·] [o]) :=
    .isAt_no (without_cons first.2) h
  have once : Parses a p (l :: ls) s (blockStep (level k) opening children) mid fun out =>
      ∃ children', out = .inl children' ∧ isOpened opening children'
        ∧ Gathers a children' (os₀ ++ [o]) := by
    refine .peekKind ?_
    simp only [List.head?_cons, Option.map_some]
    split
    · contradiction
    · rename_i brace
      exact absurd (Option.some.inj brace) first.1
    refine .bind item fun d shows => .bind (gathers.place shows) fun children' placed => ?_
    obtain ⟨gathers, more, rfl⟩ := placed
    obtain ⟨front, rfl⟩ := opened
    exact .pure ⟨_, rfl, ⟨_, rfl⟩, gathers⟩
  exact .round (blockStep_advancing (level_lossless k) opening) opened once
    fun children' ⟨opened, gathers⟩ => hk children' opened gathers

end Runs

theorem compound_parses
    (runs : ∀ opening, Runs a k opening ls (⟨.rBrace, ['}'], newline', adjacent'⟩ :: rest) os) :
    Parses a p (⟨.lBrace, ['{'], newline, adjacent⟩ :: ls) s (compound (level k)) rest
      (Shows a [·] [block os]) := by
  refine .next fun opening seen => ?_
  have brace : Shows a [.leaf Kind.blockStart true opening.start opening.stop]
      [leaf Kind.blockStart ['{']] := seen.named Kind.blockStart (by decide) (by decide)
  have loop {p s} : Parses a p ls s (repeatUntil (blockStep (level k) opening) id
      [.leaf Kind.blockStart true opening.start opening.stop]) rest
      (Gathers a · (leaf Kind.blockStart ['{'] :: os ++ [leaf Kind.blockEnd ['}']])) := by
    refine (runs opening).grow ⟨[], rfl⟩ (brace.gathers (by simp)) fun children opened gathers => ?_
    refine .finish (blockStep_advancing (level_lossless k) opening) opened ?_
    refine .peekKind (.next fun close seen => ?_)
    have brace : Shows a [.leaf Kind.blockEnd true close.start close.stop]
        [leaf Kind.blockEnd ['}']] := seen.named Kind.blockEnd (by decide) (by decide)
    exact .bind (gathers.place brace) fun children' placed => .pure ⟨_, rfl, placed.1⟩
  exact .bind loop fun children gathers => gathers.node (by decide)

/-- The looks do not begin with `else`. -/
def Fresh (ls : List Token.Look) : Prop :=
  (ls.head?.any fun l => l.kind == .identifier && String.ofList l.text == "else") = false

section Control

variable {inner : Level}
  (test : ∀ {p s}, Parses a p ls s (condition inner) mid (Shows a · [o]))
include test

theorem if_parses
    (consequence : ∀ {p s}, Parses a p mid s (body inner Field.consequence) rest (Shows a · [o']))
    (fresh : Fresh rest) :
    Parses a p (⟨.identifier, "if".toList, newline, adjacent⟩ :: ls) s (ifStatement inner) rest
      (Shows a [·] [nodeOf Kind.ifStatement [keyword "if", o, o']]) := by
  refine .bind (nextKeyword_parses rfl rfl) fun word shows => ?_
  refine .bind test fun condition tested => .bind consequence fun block taken => .isAtWord ?_
  rw [show (rest.head?.any fun l => l.kind == .identifier && String.ofList l.text == "else") = false
    from fresh]
  exact ((shows.append tested).append taken).node (by simp) (by decide)

theorem ifElse_parses {behind : List Token.Look} {alternative : Outline}
    (consequence : ∀ {p s}, Parses a p mid s (body inner Field.consequence)
      (⟨.identifier, "else".toList, newline', adjacent'⟩ :: behind) (Shows a · [o']))
    (otherwise : ∀ {p s}, Parses a p behind s (body inner Field.alternative) rest
      (Shows a · [alternative])) :
    Parses a p (⟨.identifier, "if".toList, newline, adjacent⟩ :: ls) s (ifStatement inner) rest
      (Shows a [·] [nodeOf Kind.ifStatement [keyword "if", o, o', keyword "else", alternative]]) := by
  refine .bind (nextKeyword_parses rfl rfl) fun word shows => ?_
  refine .bind test fun condition tested => .bind consequence fun block taken => .isAtWord ?_
  refine .bind (nextKeyword_parses rfl rfl) fun word shows' => .bind otherwise fun block taken' => ?_
  exact ((((shows.append tested).append taken).append shows').append taken').node (by simp)
    (by decide)

theorem while_parses
    (block : ∀ {p s}, Parses a p mid s (body inner Field.body) rest (Shows a · [o'])) :
    Parses a p (⟨.identifier, "while".toList, newline, adjacent⟩ :: ls) s (whileStatement inner) rest
      (Shows a [·] [nodeOf Kind.whileStatement [keyword "while", o, o']]) := by
  refine .bind (nextKeyword_parses rfl rfl) fun word shows => ?_
  refine .bind test fun condition tested => .bind block fun block taken => ?_
  exact ((shows.append tested).append taken).node (by simp) (by decide)

end Control

theorem switch_parses {inner : Level}
    (test : ∀ {p s}, Parses a p ls s (condition inner)
      (⟨.lBrace, ['{'], newline', adjacent'⟩ :: mid) (Shows a · [o]))
    (block : ∀ {p s}, Parses a p (⟨.lBrace, ['{'], newline', adjacent'⟩ :: mid) s (compound inner)
      rest (Shows a [·] [o'])) :
    Parses a p (⟨.identifier, "switch".toList, newline, adjacent⟩ :: ls) s (switchStatement inner)
      rest (Shows a [·] [nodeOf Kind.switchStatement
        [keyword "switch", o, labelled Field.body o']]) := by
  refine .bind (nextKeyword_parses rfl rfl) fun word shows => ?_
  refine .bind test fun condition tested => .isAt_yes (.bind block fun block taken => ?_)
  exact ((shows.append tested).append (taken.withField Field.body)).node (by simp) (by decide)

section Printed

variable {bits : List Bit} {indent : Nat}

theorem fresh_bits (s : Stmt) (fresh : Fresh (Bit.looks true false bits)) :
    Fresh (Bit.looks true false (s.bits indent bits)) := by
  cases s with
  | call function arguments =>
    have other : (String.ofList function.text == "else") = false := by
      simpa using not_keyword function.free "else" (by decide)
    exact other
  | branch test consequence alternative => cases alternative <;> rfl
  | back code => cases code <;> rfl
  | comment text => exact fresh
  | _ => rfl

theorem fresh_bitsAll (ss : List Stmt) (fresh : Fresh (Bit.looks true false bits)) :
    Fresh (Bit.looks true false (Stmt.bitsAll indent ss bits)) := by
  induction ss with
  | nil => exact fresh
  | cons s ss ih => exact fresh_bits s ih

/-- The condition in parentheses before a block. -/
theorem printedCondition_parses {test : Expr} (enough : test.nesting ≤ k) :
    Parses a p (Bit.looks false false (.sign .lParen
      :: test.bits (.sign .rParen :: .space :: opening bits))) s (condition (level (k + 1)))
      (Bit.looks false false (opening bits)) (Shows a · [Program.condition test.outline]) :=
  condition_parses (printed_parses enough rfl)

/-- The block that stands behind a condition, or behind `else`. -/
theorem printedBlock_parses {lines : List Bit}
    (runs : ∀ opening, Runs a k opening (Bit.looks true false lines)
      (Bit.looks true false (closing indent bits)) os) :
    Parses a p (Bit.looks false false (opening lines)) s (compound (level k))
      (Bit.looks false true bits) (Shows a [·] [block os]) :=
  compound_parses runs

theorem assign_parses (scope : Scope) (name : Name) {value : Expr} (enough : value.nesting ≤ k)
    {bits : List Bit} :
    Parses a p (Bit.looks newline adjacent (scope.bits name (.space :: .sign .assign :: .space
      :: value.bits (ending bits)))) s (level (k + 3)).statement (Bit.looks true false bits)
      (Shows a [·] [Program.assignment scope name value.outline]) := by
  have left {p s} : Parses a p (Bit.looks newline adjacent (scope.bits name (.space
      :: .sign .assign :: .space :: value.bits (ending bits)))) s (unary (level (k + 1))) _
      (Yields a (scope.outline name)) :=
    unary_parses (by simp [Leads]) (primary_variable (Scope.parses scope name
      (without_cons (by simp))))
  exact statement_expression (by simp) (by simp) (by simp)
    (expressionStatement_parses (assignment_parses left (printed_parses enough rfl)))

/-- A word that is no keyword is no instruction of its own. -/
theorem wordStatement?_of_free {inner : Level} {text : List Char}
    (free : String.ofList text ∉ Vocabulary.keywords) (following : Option Token.Kind) :
    wordStatement? inner (String.ofList text) following = none := by
  have other := not_keyword free
  unfold wordStatement?
  simp [other "if" (by decide), other "switch" (by decide), other "while" (by decide),
    other "case" (by decide), other "default" (by decide), other "return" (by decide),
    other "drop" (by decide), other "exit" (by decide), other "break" (by decide),
    Vocabulary.coreActions]

theorem callStatement_parses {text : List Char}
    (free : String.ofList text ∉ Vocabulary.keywords)
    (h : ∀ {p s}, Parses a p (⟨.lParen, ['('], newline', adjacent'⟩ :: ls) s
      (argumentList (level (k + 1))) (⟨.semicolon, [';'], false, true⟩ :: rest) (Gets a o)) :
    Parses a p (⟨.identifier, text, newline, adjacent⟩ :: ⟨.lParen, ['('], newline', adjacent'⟩
      :: ls) s (level (k + 3)).statement rest (Shows a [·] [finished (wrapped (nodeOf Kind.call
        [labelled Field.function (wrapped (leaf Kind.identifier text)),
          labelled Field.arguments o]))]) := by
  exact statement_expression (fun _ => wordStatement?_of_free free _) (by simp) (by simp)
    (expressionStatement_parses (expression_parses (closed_cons (by simp [precedence?]))
      (unary_parses (leads_of_free free) (primary_call h))))

/-- An action without arguments. -/
theorem action_parses {inner : Level} {text : String} (action : text ∈ Vocabulary.coreActions) :
    Parses a p (⟨.identifier, text.toList, newline, adjacent⟩
      :: ⟨.semicolon, [';'], newline', adjacent'⟩ :: ls) s (statement inner) ls
      (Shows a [·] [Program.action text]) := by
  have known : Vocabulary.anonymousKind? text = some text ∧
      wordStatement? inner text (some .semicolon)
        = some (do finishStatement [← node Kind.coreFunction (← nextKeyword)]) := by
    simp only [Vocabulary.coreActions, List.mem_cons, List.not_mem_nil, or_false] at action
    rcases action with rfl | rfl | rfl
    all_goals exact ⟨by decide, by simp [wordStatement?, Vocabulary.coreActions]⟩
  exact statement_word known.2 (finished_parses (coreFunction_parses known.1))

/-- The name of a route in parentheses. -/
theorem routeArgument_parses (name : Name) {bits : List Bit} :
    Parses a p (Bit.looks newline adjacent (.sign .lParen :: .word name.text :: .sign .rParen
      :: bits)) s (argumentList (level (k + 1))) (Bit.looks false true bits)
      (Gets a (nodeOf Kind.argumentList
        [sign .lParen, wrapped (identifier name), sign .rParen])) := by
  refine argumentList_parses (without_cons (by simp)) fun opening first => ?_
  have word {p s} : Parses a p (Bit.looks false true (.word name.text :: .sign .rParen :: bits)) s
      (level (k + 1)).expression _ (Yields a (identifier name)) :=
    expression_parses (closed_sign rfl bits)
      (unary_parses (leads_of_free name.free) (primary_word (without_cons (by simp))))
  exact .finish (argumentStep_rounds (level_lossless (k + 1))).advancing ⟨trivial, first.solid⟩
    (argumentStep_stops first word)

mutual

theorem statement_runs : ∀ (s : Stmt) {k indent : Nat} {bits : List Bit} {opening : Token},
    s.nesting ≤ k → Fresh (Bit.looks true false bits) →
      Runs a (k + 3) opening (Bit.looks true false (s.bits indent bits))
        (Bit.looks true false bits) s.outlines
  | .assign scope name value, k, _, _, _, enough, _ =>
    .one (by simp) (assign_parses scope name enough)
  | .call function arguments, k, _, _, _, enough, _ => by
    simp only [Stmt.nesting] at enough
    have values : ∀ e ∈ arguments, Readable a k e := readable_all arguments (by omega)
    exact .one (by simp) (callStatement_parses function.free (argumentList_bits values))
  | .branch test consequence none, k, indent, bits, opening, enough, fresh => by
    simp only [Stmt.nesting] at enough
    obtain ⟨k, rfl⟩ : ∃ j, k = j + 1 := ⟨k - 1, by omega⟩
    have lines (opening : Token) : Runs a (k + 3) opening (Bit.looks true false
        (Stmt.bitsAll (indent + 1) consequence (closing indent (.newline :: bits)))) _ _ :=
      statements_run consequence (by omega) rfl
    exact .one (by simp) (statement_word rfl (statementNode_parses
      (if_parses (printedCondition_parses (by omega))
        (body_parses (printedBlock_parses lines)) fresh)))
  | .branch test consequence (some alternative), k, indent, bits, opening, enough, fresh => by
    simp only [Stmt.nesting] at enough
    obtain ⟨k, rfl⟩ : ∃ j, k = j + 1 := ⟨k - 1, by omega⟩
    have lines (opening : Token) : Runs a (k + 3) opening (Bit.looks true false
        (Stmt.bitsAll (indent + 1) consequence (closing indent (.space :: .word "else".toList
          :: .space :: Program.opening (Stmt.bitsAll (indent + 1) alternative
            (closing indent (.newline :: bits))))))) _ _ :=
      statements_run consequence (by omega) rfl
    have lines' (opening : Token) : Runs a (k + 3) opening (Bit.looks true false
        (Stmt.bitsAll (indent + 1) alternative (closing indent (.newline :: bits)))) _ _ :=
      statements_run alternative (by omega) rfl
    exact .one (by simp) (statement_word rfl (statementNode_parses
      (ifElse_parses (printedCondition_parses (by omega)) (body_parses (printedBlock_parses lines))
        (body_parses (printedBlock_parses lines')))))
  | .loop test body, k, indent, bits, opening, enough, fresh => by
    simp only [Stmt.nesting] at enough
    obtain ⟨k, rfl⟩ : ∃ j, k = j + 1 := ⟨k - 1, by omega⟩
    have lines (opening : Token) : Runs a (k + 3) opening (Bit.looks true false
        (Stmt.bitsAll (indent + 1) body (closing indent (.newline :: bits)))) _ _ :=
      statements_run body (by omega) rfl
    exact .one (by simp) (statement_word rfl (statementNode_parses
      (while_parses (printedCondition_parses (by omega))
        (body_parses (printedBlock_parses lines)))))
  | .switch subject cases, k, indent, bits, opening, enough, fresh => by
    simp only [Stmt.nesting] at enough
    obtain ⟨k, rfl⟩ : ∃ j, k = j + 1 := ⟨k - 1, by omega⟩
    have lines (opening : Token) : Runs a (k + 3) opening (Bit.looks true false
        (Stmt.bitsCases (indent + 1) cases (closing indent (.newline :: bits)))) _ _ :=
      cases_run cases (by omega)
    exact .one (by simp) (statement_word rfl (statementNode_parses
      (switch_parses (printedCondition_parses (by omega)) (printedBlock_parses lines))))
  | .routeCall name, k, indent, bits, opening, enough, fresh =>
    .one (by simp) (callStatement_parses (by decide) (routeArgument_parses name))
  | .drop, _, _, _, _, _, _ => .one (by simp) (action_parses (by decide))
  | .exit, _, _, _, _, _, _ => .one (by simp) (action_parses (by decide))
  | .back none, _, _, _, _, _, _ =>
    .one (by simp) (statement_word rfl (finished_parses return_parses))
  | .back (some code), k, _, _, _, _, _ =>
    .one (by simp) (statement_word rfl (finished_parses
      (returnValue_parses (by simp) (printed_parses (e := .number code) (Nat.zero_le _) rfl))))
  | .comment _, _, _, _, _, _, _ => .refl

theorem statements_run : ∀ (ss : List Stmt) {k indent : Nat} {bits : List Bit} {opening : Token},
    Stmt.nestingAll ss ≤ k → Fresh (Bit.looks true false bits) →
      Runs a (k + 3) opening (Bit.looks true false (Stmt.bitsAll indent ss bits))
        (Bit.looks true false bits) (Stmt.outlinesAll ss)
  | [], _, _, _, _, _, _ => .refl
  | s :: ss, k, _, _, _, enough, fresh => by
    simp only [Stmt.nestingAll] at enough
    exact (statement_runs s (by omega) (fresh_bitsAll ss fresh)).trans
      (statements_run ss (by omega) fresh)

theorem cases_run : ∀ (cases : List (Quotable × List Stmt)) {k indent : Nat} {bits : List Bit}
    {opening : Token}, Stmt.nestingCases cases ≤ k →
      Runs a (k + 3) opening (Bit.looks true false (Stmt.bitsCases indent cases bits))
        (Bit.looks true false bits) (Stmt.outlinesCases cases)
  | [], _, _, _, _, _ => .refl
  | (label, body) :: cases, k, indent, bits, opening, enough => by
    simp only [Stmt.nestingCases] at enough
    have head : Runs a (k + 3) opening (Bit.looks true false
        (Stmt.bitsCases indent ((label, body) :: cases) bits)) _ _ :=
      .one (by simp) (statement_word rfl
        (statementNode_parses case_parses))
    have lines : Runs a (k + 3) opening (Bit.looks true false (Stmt.bitsAll (indent + 1) body
        (.margin (indent + 1) :: .word "break".toList
          :: ending (Stmt.bitsCases indent cases bits)))) _ _ :=
      statements_run body (by omega) rfl
    have last : Runs a (k + 3) opening (Bit.looks true false (.margin (indent + 1)
        :: .word "break".toList :: ending (Stmt.bitsCases indent cases bits))) _ _ :=
      .one (by simp) (action_parses (by decide))
    exact (head.trans lines).trans (last.trans (cases_run cases (by omega)))

end

end Printed

end RouteScript.Script
