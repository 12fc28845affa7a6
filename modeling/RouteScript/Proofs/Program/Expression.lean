import RouteScript.Proofs.Program.Variable
import RouteScript.Proofs.Lossless.Statement
/-!
# Printed expressions

Expressions are read as they were printed, as long as there are more nestings left than they have.
-/
namespace RouteScript.Script

open Draft Outline Program

variable {a : List Char} {p : Option Nat} {s : Stream} {ls mid rest : List Token.Look}
  {o o' : Outline}

/-- An expression node around a node of this outline. -/
def Wraps (a : List Char) (o : Outline) (c : Draft) : Prop := ∃ d, c = wrap d ∧ Shows a [d] [o]

section Chain

variable {operand : Reader Outcome}

theorem chainStep_stops {precedence : Nat} (left : Draft)
    (stops : ∀ l, rest.head? = some l → precedence? l.kind ≠ some precedence) :
    Parses a p rest s (chainStep operand precedence left) rest
      fun out => ∃ result, out = .inr result ∧ result = .ok left := by
  cases rest with
  | nil => exact .peek_nil (.pure ⟨_, rfl, rfl⟩)
  | cons l rest =>
    refine .peek fun t seen => ?_
    have other : (precedence? t.kind != some precedence) = true := by
      simpa [seen.kind] using stops l rfl
    dsimp only
    rw [other]
    exact .pure ⟨_, rfl, rfl⟩

/-- An operator of the precedence that is looked for, with the operand behind it. -/
theorem chainStep_goes {l : Token.Look} {precedence : Nat} {left : Draft}
    (binds : precedence? l.kind = some precedence) (shows : Shows a [left] [o])
    (right : ∀ {p s}, Parses a p mid s operand rest (Yields a o')) :
    Parses a p (l :: mid) s (chainStep operand precedence left) rest
      fun out => ∃ c, out = .inl c ∧ Wraps a (nodeOf Kind.binary [labelled Field.left o,
        labelled Field.operator l.outline, labelled Field.right (wrapped o')]) c := by
  have plain : l.kind ≠ .unterminatedString ∧ l.kind ≠ .unknown := by
    constructor <;> intro kind <;> simp [kind, precedence?] at binds
  refine .peek fun t seen => ?_
  have same : (precedence? t.kind != some precedence) = false := by simp [seen.kind, binds]
  dsimp only
  rw [same]
  refine .next fun _ _ => .bind right fun out yields => ?_
  obtain ⟨d, rfl, shows'⟩ := yields
  have children := (shows.withField Field.left).cons
    (((seen.tokenLeaf plain).withField Field.operator).cons (shows'.wrap.withField Field.right))
  exact .bind (children.node (by simp) (by decide)) fun d shows => .pure ⟨_, rfl, d, rfl, shows⟩

variable (lossless : ∀ s, Lossless s [] operand Outcome.held)
include lossless

/-- Looser operators do not matter where none of them follows. -/
theorem chain_extend {n m : Nat} (le : n ≤ m)
    (stops : ∀ i, n ≤ i → i < m →
      ∀ l, rest.head? = some l → precedence? l.kind ≠ some (tightest - i))
    (h : Parses a p ls s (chain operand n) rest (Yields a o)) :
    Parses a p ls s (chain operand m) rest (Yields a o) := by
  induction m, le using Nat.le_induction with
  | base => exact h
  | succ m le ih =>
    refine .bind (ih fun i low high => stops i low (Nat.lt_succ_of_lt high)) fun out yields => ?_
    obtain ⟨d, rfl, shows⟩ := yields
    have advancing := (chainStep_rounds (chain_lossless lossless m) (tightest - m)).advancing
    refine .finish advancing ⟨trivial, shows.wrap.solid⟩ ?_
    refine (chainStep_stops _ (stops m le (Nat.lt_succ_self m))).mono fun out last => ?_
    obtain ⟨result, rfl, rfl⟩ := last
    exact ⟨_, rfl, d, rfl, shows⟩

/-- One operator between two operands. -/
theorem chain_binary {l : Token.Look} (binds : (precedence? l.kind).isSome)
    (left : ∀ {p s}, Parses a p ls s operand (l :: mid) (Yields a o))
    (right : ∀ {p s}, Parses a p mid s operand rest (Yields a o'))
    (stops : ∀ l, rest.head? = some l → precedence? l.kind = none) :
    Parses a p ls s (chain operand tightest) rest (Yields a (nodeOf Kind.binary
      [labelled Field.left (wrapped o), labelled Field.operator l.outline,
        labelled Field.right (wrapped o')])) := by
  obtain ⟨precedence, binds⟩ := Option.isSome_iff_exists.1 binds
  have bounds : 1 ≤ precedence ∧ precedence ≤ tightest := by
    unfold precedence? at binds
    split at binds <;> cases binds <;> decide
  -- the operator is taken by the loop of its own precedence, which is the first to see it
  obtain ⟨levels, rfl⟩ : ∃ levels, precedence = tightest - levels :=
    ⟨tightest - precedence, by omega⟩
  have fewer : levels < tightest := by omega
  have nothing (i : Nat) (l : Token.Look) (hl : rest.head? = some l) :
      precedence? l.kind ≠ some (tightest - i) := by simp [stops l hl]
  refine chain_extend lossless fewer (fun i _ _ => nothing i) ?_
  refine .bind (chain_extend lossless (Nat.zero_le levels) (fun i _ high l' hl' => ?_) left)
    fun out yields => ?_
  · cases hl'
    rw [binds]
    simp only [ne_eq, Option.some.injEq]
    omega
  obtain ⟨d, rfl, shows⟩ := yields
  have advancing := (chainStep_rounds (chain_lossless lossless levels)
    (tightest - levels)).advancing
  have inner {p s} : Parses a p mid s (chain operand levels) rest (Yields a o') :=
    chain_extend lossless (Nat.zero_le levels) (fun i _ _ => nothing i) right
  refine .round advancing ⟨trivial, shows.wrap.solid⟩ (chainStep_goes binds shows.wrap inner)
    fun c wraps => ?_
  obtain ⟨d, rfl, shows⟩ := wraps
  refine .finish advancing ⟨trivial, shows.wrap.solid⟩ ?_
  refine (chainStep_stops _ (nothing levels)).mono fun out last => ?_
  obtain ⟨result, rfl, rfl⟩ := last
  exact ⟨_, rfl, d, rfl, shows⟩

end Chain

/-- Nothing that could go on with an expression stands next. -/
def Closed (ls : List Token.Look) : Prop := ∀ l, ls.head? = some l →
  precedence? l.kind = none ∧ l.kind ≠ .assign ∧ l.kind ≠ .lParen ∧ l.kind ≠ .lBracket

/-- Signs behind an expression. -/
def isStop : Token.Kind → Bool
  | .rParen | .comma | .semicolon | .colon => true
  | _ => false

theorem closed_sign {kind : Token.Kind} (stop : isStop kind) (bits : List Bit) :
    Closed (Bit.looks false true (.sign kind :: bits)) := by
  cases kind <;> first
    | contradiction
    | rintro _ ⟨rfl⟩
      simp [precedence?]

theorem closed_cons {l : Token.Look} (h : precedence? l.kind = none ∧ l.kind ≠ .assign
    ∧ l.kind ≠ .lParen ∧ l.kind ≠ .lBracket) : Closed (l :: ls) := by
  rintro _ ⟨rfl⟩
  exact h

/-- A token that begins an operand and is no operator. -/
def Leads (l : Token.Look) : Prop := l.kind ≠ .bang ∧ l.kind ≠ .minus ∧ l.kind ≠ .tilde
  ∧ (l.kind = .identifier → String.ofList l.text ≠ "defined")

theorem leads_of_free {text : List Char} {newline adjacent : Bool}
    (free : String.ofList text ∉ Vocabulary.keywords) :
    Leads ⟨.identifier, text, newline, adjacent⟩ :=
  ⟨by simp, by simp, by simp, fun _ => not_keyword free "defined" (by decide)⟩

section Productions

variable {inner : Level} {l : Token.Look} {newline adjacent newline' adjacent' : Bool}
  {children : List Draft} {os : List Outline}

theorem unary_parses {post : Outcome → Prop} (leads : Leads l)
    (h : Parses a p (l :: ls) s (primary inner) rest post) :
    Parses a p (l :: ls) s (unary inner) rest post := by
  refine .peek fun t seen => .peekSecondKind ?_
  have operand : isUnaryOperator t (ls.head?.map Token.Look.kind) = false := by
    obtain ⟨bang, minus, tilde, word⟩ := leads
    unfold isUnaryOperator
    rw [seen.kind, seen.word]
    by_cases identifier : l.kind = .identifier
    · simp [identifier, word identifier]
    · simp [bang, minus, tilde, identifier]
  rw [operand]
  exact h

theorem literal_parses (literal : l.kind = .string ∨ l.kind = .number) :
    Parses a p (l :: ls) s (primary inner) ls (Yields a l.outline) := by
  refine .peek fun t seen => ?_
  have plain : l.kind ≠ .unterminatedString ∧ l.kind ≠ .unknown := by
    rcases literal with kind | kind <;> simp [kind]
  have result : Yields a l.outline (.ok (wrap (tokenLeaf t))) := ⟨_, rfl, seen.tokenLeaf plain⟩
  dsimp only
  rw [seen.kind]
  rcases literal with kind | kind
  · rw [kind]
    exact .next fun _ _ => .pure result
  · rw [kind]
    exact .next fun _ _ => .pure result

theorem parenthesized_parses
    (h : ∀ {p s}, Parses a p ls s inner.expression (⟨.rParen, [')'], newline', adjacent'⟩ :: rest)
      (Yields a o)) :
    Parses a p (⟨.lParen, ['('], newline, adjacent⟩ :: ls) s (parenthesized inner) rest
      (Gets a (nodeOf Kind.parenthesized [sign .lParen, wrapped o, sign .rParen])) := by
  refine .bind (nextLeaf_parses (by simp)) fun opening first => .bind h fun out yields => ?_
  obtain ⟨d, rfl, shows⟩ := yields
  refine .isAt_yes (.bind (nextLeaf_parses (by simp)) fun closing last => ?_)
  have children := (first.append shows.wrap).append last
  exact .bind (children.node (by simp) (by decide)) fun d shows => .pure ⟨d, rfl, shows⟩

theorem primary_parenthesized
    (h : ∀ {p s}, Parses a p ls s inner.expression (⟨.rParen, [')'], newline', adjacent'⟩ :: rest)
      (Yields a o)) :
    Parses a p (⟨.lParen, ['('], newline, adjacent⟩ :: ls) s (primary inner) rest
      (Yields a (nodeOf Kind.parenthesized [sign .lParen, wrapped o, sign .rParen])) := by
  refine .peek fun t seen => ?_
  dsimp only
  rw [seen.kind]
  refine .bind (parenthesized_parses h) fun out gets => ?_
  obtain ⟨d, rfl, shows⟩ := gets
  exact .pure ⟨d, rfl, shows⟩

theorem primary_variable {post : Outcome → Prop}
    (h : Parses a p (⟨.dollar, ['$'], newline, adjacent⟩ :: ls) s pseudoVariable rest post) :
    Parses a p (⟨.dollar, ['$'], newline, adjacent⟩ :: ls) s (primary inner) rest post := by
  refine .peek fun t seen => ?_
  dsimp only
  rw [seen.kind]
  exact h

theorem argument_parses (shows : Shows a children os)
    (h : Parses a p ls s inner.expression rest (Yields a o)) :
    Parses a p ls s (argument inner children) rest
      fun out => ∃ ds, out = some ds ∧ Shows a ds (os ++ [wrapped o]) := by
  refine .bind h fun out yields => ?_
  obtain ⟨d, rfl, value⟩ := yields
  exact .pure ⟨_, rfl, shows.append value.wrap⟩

theorem argumentStep_goes (shows : Shows a children os)
    (h : Parses a p ls s inner.expression (⟨.comma, [','], newline, adjacent⟩ :: rest)
      (Yields a o)) :
    Parses a p ls s (argumentStep inner children) rest
      fun out => ∃ ds, out = .inl ds ∧ Shows a ds (os ++ [wrapped o, sign .comma]) := by
  refine .bind (argument_parses shows h) fun out taken => ?_
  obtain ⟨ds, rfl, shows⟩ := taken
  refine .peekKind (.bind (nextLeaf_parses (by simp)) fun comma last => .pure ⟨_, rfl, ?_⟩)
  have children := shows.append last
  rwa [List.append_assoc] at children

theorem argumentStep_stops (shows : Shows a children os)
    (h : Parses a p ls s inner.expression (⟨.rParen, [')'], newline, adjacent⟩ :: rest)
      (Yields a o)) :
    Parses a p ls s (argumentStep inner children) rest fun out => ∃ result, out = .inr result
      ∧ Gets a (nodeOf Kind.argumentList (os ++ [wrapped o, sign .rParen])) result := by
  refine .bind (argument_parses shows h) fun out taken => ?_
  obtain ⟨ds, rfl, shows⟩ := taken
  refine .peekKind (.bind (nextLeaf_parses (by simp)) fun closing last => ?_)
  have children := shows.append last
  rw [List.append_assoc] at children
  exact .bind (children.node (by simp) (by decide)) fun d shows => .pure ⟨_, rfl, d, rfl, shows⟩

theorem call_parses {name : Draft} {function : Outline} (named : Shows a [name] [function])
    (h : Parses a p ls s (argumentList inner) rest (Gets a o)) :
    Parses a p ls s (call inner name) rest (Yields a (nodeOf Kind.call
      [labelled Field.function (wrapped function), labelled Field.arguments o])) := by
  refine .bind h fun out gets => ?_
  obtain ⟨d, rfl, arguments⟩ := gets
  have children := (named.wrap.withField Field.function).cons (arguments.withField Field.arguments)
  exact .bind (children.node (by simp) (by decide)) fun d shows => .pure ⟨d, rfl, shows⟩

theorem primary_call {text : List Char}
    (h : ∀ {p s}, Parses a p (⟨.lParen, ['('], newline', adjacent'⟩ :: ls) s (argumentList inner)
      rest (Gets a o)) :
    Parses a p (⟨.identifier, text, newline, adjacent⟩ :: ⟨.lParen, ['('], newline', adjacent'⟩
      :: ls) s (primary inner) rest (Yields a (nodeOf Kind.call
        [labelled Field.function (wrapped (leaf Kind.identifier text)),
          labelled Field.arguments o])) := by
  refine .peek fun t seen => ?_
  dsimp only
  rw [seen.kind]
  exact .next fun _ _ => .isAt_yes (call_parses (seen.tokenLeaf (by simp)) h)

theorem primary_word {text : List Char} (noCall : Without .lParen ls) :
    Parses a p (⟨.identifier, text, newline, adjacent⟩ :: ls) s (primary inner) ls
      (Yields a (leaf Kind.identifier text)) := by
  refine .peek fun t seen => ?_
  dsimp only
  rw [seen.kind]
  exact .next fun _ _ => .isAt_no noCall (.pure ⟨_, rfl, seen.tokenLeaf (by simp)⟩)

theorem argumentList_empty :
    Parses a p (⟨.lParen, ['('], newline, adjacent⟩ :: ⟨.rParen, [')'], newline', adjacent'⟩
      :: ls) s (argumentList inner) ls
      (Gets a (nodeOf Kind.argumentList [sign .lParen, sign .rParen])) := by
  refine .bind (nextLeaf_parses (by simp)) fun opening first => .isAt_yes ?_
  refine .bind (nextLeaf_parses (by simp)) fun closing last => ?_
  exact .bind ((first.append last).node (by simp) (by decide)) fun d shows => .pure ⟨d, rfl, shows⟩

theorem argumentList_parses (some_argument : Without .rParen ls)
    (h : ∀ {p s} opening, Shows a opening [sign .lParen] →
      Parses a p ls s (repeatUntil (argumentStep inner) .error opening) rest (Gets a o)) :
    Parses a p (⟨.lParen, ['('], newline, adjacent⟩ :: ls) s (argumentList inner) rest
      (Gets a o) :=
  .bind (nextLeaf_parses (by simp)) fun opening first => .isAt_no some_argument (h opening first)

theorem expression_parses {k : Nat} (closed : Closed rest)
    (h : Parses a p ls s (unary (level k)) rest (Yields a o)) :
    Parses a p ls s (level (k + 1)).expression rest (Yields a o) := by
  have whole : Parses a p ls s (binary (level k)) rest (Yields a o) :=
    chain_extend (unary_lossless (level_lossless k)) (Nat.zero_le tightest)
      (fun i _ _ l hl => by simp [(closed l hl).1]) h
  refine .bind whole fun out yields => ?_
  obtain ⟨d, rfl, shows⟩ := yields
  exact .isAt_no (fun l hl => (closed l hl).2.1) (.pure ⟨d, rfl, shows⟩)

theorem binaryExpression_parses {k : Nat} {l : Token.Look} (binds : (precedence? l.kind).isSome)
    (left : ∀ {p s}, Parses a p ls s (unary (level k)) (l :: mid) (Yields a o))
    (right : ∀ {p s}, Parses a p mid s (unary (level k)) rest (Yields a o')) (closed : Closed rest) :
    Parses a p ls s (level (k + 1)).expression rest (Yields a (nodeOf Kind.binary
      [labelled Field.left (wrapped o), labelled Field.operator l.outline,
        labelled Field.right (wrapped o')])) := by
  refine .bind (chain_binary (unary_lossless (level_lossless k)) binds left right
    fun l hl => (closed l hl).1) fun out yields => ?_
  obtain ⟨d, rfl, shows⟩ := yields
  exact .isAt_no (fun l hl => (closed l hl).2.1) (.pure ⟨d, rfl, shows⟩)

end Productions

theorem Operator.outline_sign (operator : Operator) (newline adjacent : Bool) :
    (⟨operator.kind, (operator.kind.spelling?.getD "").toList, newline, adjacent⟩ :
      Token.Look).outline = sign operator.kind := by
  obtain ⟨kind, binary⟩ := operator
  cases kind <;> first | contradiction | rfl

theorem looks_operator (operator : Operator) (bits : List Bit) :
    Bit.looks false true (.space :: .sign operator.kind :: .space :: bits)
      = ⟨operator.kind, (operator.kind.spelling?.getD "").toList, false, false⟩
        :: Bit.looks false true (.space :: bits) := by
  obtain ⟨kind, binary⟩ := operator
  cases kind <;> first | contradiction | rfl

/-- The printed expression is read as an operand where so many nestings are left. -/
def Readable (a : List Char) (k : Nat) (e : Expr) : Prop :=
  ∀ {bits : List Bit} {newline adjacent : Bool}, Without .lParen (Bit.looks false true bits) →
    Without .lBracket (Bit.looks false true bits) → ∀ {p s},
      Parses a p (Bit.looks newline adjacent (e.bits bits)) s (unary (level k))
        (Bit.looks false true bits) (Yields a e.outline)

theorem Readable.expression {k : Nat} {e : Expr} (h : Readable a k e) {bits : List Bit}
    {newline adjacent : Bool} (closed : Closed (Bit.looks false true bits)) :
    Parses a p (Bit.looks newline adjacent (e.bits bits)) s (level (k + 1)).expression
      (Bit.looks false true bits) (Yields a e.outline) :=
  expression_parses closed
    (h (fun l hl => (closed l hl).2.2.1) fun l hl => (closed l hl).2.2.2)

theorem readable_binary {k : Nat} {left right : Expr} (hl : Readable a k left)
    (hr : Readable a k right) (operator : Operator) :
    Readable a (k + 1) (.binary left operator right) := by
  intro bits newline adjacent _ _ p s
  have apart (kind : Token.Kind) (other : precedence? kind = none) :
      Without kind (Bit.looks false true (.space :: .sign operator.kind :: .space
        :: right.bits (.sign .rParen :: bits))) := by
    rw [looks_operator]
    refine without_cons fun same => ?_
    have binds := operator.binary
    simp [show operator.kind = kind from same, other] at binds
  have first {p s} : Parses a p (Bit.looks false true (left.bits (.space :: .sign operator.kind
      :: .space :: right.bits (.sign .rParen :: bits)))) s (unary (level k)) _
      (Yields a left.outline) := hl (apart .lParen rfl) (apart .lBracket rfl)
  have second {p s} : Parses a p (Bit.looks false false (right.bits (.sign .rParen :: bits))) s
      (unary (level k)) _ (Yields a right.outline) :=
    hr (without_cons (by simp)) (without_cons (by simp))
  rw [looks_operator] at first
  have whole {p s} := binaryExpression_parses (p := p) (s := s) operator.binary first second
    (closed_cons (by simp [precedence?]))
  simp only [Operator.outline_sign] at whole
  exact unary_parses (by simp [Leads]) (primary_parenthesized whole)

theorem without_rParen (e : Expr) (es : List Expr) {bits : List Bit} {newline adjacent : Bool} :
    Without .rParen (Bit.looks newline adjacent (Expr.bitsAll (e :: es) bits)) := by
  have first (bits : List Bit) : Without .rParen (Bit.looks newline adjacent (e.bits bits)) := by
    cases e with
    | builtin name argument => cases argument <;> exact without_cons (by simp)
    | _ => exact without_cons (by simp)
  cases es with
  | nil => exact first bits
  | cons e' es => exact first _

/-- Arguments are read up to the closing parenthesis. -/
theorem arguments_parse {k : Nat} {e : Expr} {es : List Expr} (h : ∀ e' ∈ e :: es, Readable a k e')
    {bits : List Bit} {newline adjacent : Bool} {children : List Draft} {os : List Outline}
    (shows : Shows a children os) :
    Parses a p (Bit.looks newline adjacent (Expr.bitsAll (e :: es) (.sign .rParen :: bits))) s
      (repeatUntil (argumentStep (level (k + 1))) .error children) (Bit.looks false true bits)
      (Gets a (nodeOf Kind.argumentList (os ++ Expr.outlines (e :: es) ++ [sign .rParen]))) := by
  have advancing := (argumentStep_rounds (level_lossless (k + 1))).advancing
  induction es generalizing e newline adjacent children os p s with
  | nil =>
    have value : Parses a p (Bit.looks newline adjacent (e.bits (.sign .rParen :: bits))) s _ _ _ :=
      Readable.expression (h e (by simp)) (closed_sign rfl bits)
    rw [List.append_assoc]
    exact .finish advancing ⟨trivial, shows.solid⟩ (argumentStep_stops shows value)
  | cons e' es ih =>
    have value : Parses a p (Bit.looks newline adjacent (e.bits (.sign .comma :: .space
        :: Expr.bitsAll (e' :: es) (.sign .rParen :: bits)))) s _ _ _ :=
      Readable.expression (h e (by simp)) (closed_sign rfl _)
    refine .round advancing ⟨trivial, shows.solid⟩ (argumentStep_goes shows value)
      fun ds shows => ?_
    have whole : os ++ Expr.outlines (e :: e' :: es) ++ [sign .rParen]
        = os ++ [wrapped e.outline, sign .comma] ++ Expr.outlines (e' :: es) ++ [sign .rParen] := by
      simp [Expr.outlines]
    rw [whole]
    exact ih (fun e' he' => h e' (List.mem_cons_of_mem _ he')) shows

/-- Arguments in parentheses. -/
theorem argumentList_bits {k : Nat} {arguments : List Expr} (h : ∀ e ∈ arguments, Readable a k e)
    {bits : List Bit} {newline adjacent : Bool} :
    Parses a p (Bit.looks newline adjacent (.sign .lParen
      :: Expr.bitsAll arguments (.sign .rParen :: bits))) s (argumentList (level (k + 1)))
      (Bit.looks false true bits) (Gets a (nodeOf Kind.argumentList
        (sign .lParen :: Expr.outlines arguments ++ [sign .rParen]))) := by
  cases arguments with
  | nil => exact argumentList_empty
  | cons e es =>
    exact argumentList_parses (without_rParen e es) fun _ first => arguments_parse h first

theorem readable_call {k : Nat} {arguments : List Expr} (h : ∀ e ∈ arguments, Readable a k e)
    (function : Name) : Readable a (k + 1) (.call function arguments) := by
  intro bits newline adjacent _ _ p s
  exact unary_parses (leads_of_free function.free) (primary_call (argumentList_bits h))

mutual

theorem readable : ∀ (e : Expr) {k : Nat}, e.nesting ≤ k → Readable a k e
  | .number value, k, _ => fun _ _ _ _ => unary_parses (by simp [Leads]) (literal_parses (.inr rfl))
  | .string value, k, _ => fun _ _ _ _ => unary_parses (by simp [Leads]) (literal_parses (.inl rfl))
  | .userVariable scope name, k, _ => fun _ noIndex _ _ =>
    unary_parses (by simp [Leads]) (primary_variable (Scope.parses scope name noIndex))
  | .builtin name none, k, _ => fun noArgument noIndex _ _ =>
    unary_parses (by simp [Leads]) (primary_variable (builtin_parses name none noArgument noIndex))
  | .builtin name (some argument), k, _ => fun noArgument noIndex _ _ =>
    unary_parses (by simp [Leads])
      (primary_variable (builtin_parses name (some argument) noArgument noIndex))
  | .binary left operator right, k, enough => by
    simp only [Expr.nesting] at enough
    obtain ⟨k, rfl⟩ : ∃ j, k = j + 1 := ⟨k - 1, by omega⟩
    exact readable_binary (readable left (by omega)) (readable right (by omega)) operator
  | .call function arguments, k, enough => by
    simp only [Expr.nesting] at enough
    obtain ⟨k, rfl⟩ : ∃ j, k = j + 1 := ⟨k - 1, by omega⟩
    exact readable_call (readable_all arguments (by omega)) function

theorem readable_all : ∀ (es : List Expr) {k : Nat}, Expr.nestingAll es ≤ k →
    ∀ e ∈ es, Readable a k e
  | [], _, _ => by simp
  | e :: es, k, enough => by
    simp only [Expr.nestingAll] at enough
    exact List.forall_mem_cons.2 ⟨readable e (by omega), readable_all es (by omega)⟩

end

/-- An expression before a sign that ends it. -/
theorem printed_parses {e : Expr} {k : Nat} (enough : e.nesting ≤ k) {kind : Token.Kind}
    (stop : isStop kind) {bits : List Bit} {newline adjacent : Bool} :
    Parses a p (Bit.looks newline adjacent (e.bits (.sign kind :: bits))) s
      (level (k + 1)).expression (Bit.looks false true (.sign kind :: bits)) (Yields a e.outline) :=
  Readable.expression (readable e enough) (closed_sign stop bits)

end RouteScript.Script
