import RouteScript.Proofs.Bodies.Faults
import RouteScript.Proofs.Program.Items
/-!
# Bodies with and without braces

The body of `if`, `else` and `while` is a block or a single statement. Either is read at the same
depth of nesting, so braces around a body are the only difference that they make in the tree.
-/
namespace RouteScript

open Token (Look)

namespace Script

/-- Looks that are read as a statement, whatever stands behind them. -/
structure IsStatement (k : Nat) (ls : List Look) (o : Outline) : Prop where
  first : ∃ l rest, ls = l :: rest ∧ l.kind ∉ [.lBrace, .rBrace, .lt]
  reads : ∀ {a p s rest},
    Parses a p (ls ++ rest) s (level k).statement rest (Shows a [·] [o])

/-- Looks that are read as an expression before a closing parenthesis. -/
def IsTest (k : Nat) (ls : List Look) (o : Outline) : Prop :=
  ∀ {a p s rest newline adjacent},
    Parses a p (ls ++ ⟨.rParen, [')'], newline, adjacent⟩ :: rest) s (level k).expression
      (⟨.rParen, [')'], newline, adjacent⟩ :: rest) (Yields a o)

/-- The looks of a word with a condition behind it. -/
def Heads (word : String) (k : Nat) (test : Outline) (ls : List Look) : Prop :=
  ∃ newline adjacent newline' adjacent' newline'' adjacent'' inside, IsTest k inside test ∧
    ls = ⟨.identifier, word.toList, newline, adjacent⟩ :: ⟨.lParen, ['('], newline', adjacent'⟩
      :: (inside ++ [⟨.rParen, [')'], newline'', adjacent''⟩])

/-- The looks of a body, in braces or without them. -/
def Encloses (fenced : Bool) (statement : List Look → Prop) (ls : List Look) : Prop :=
  if fenced then ∃ newline adjacent newline' adjacent' inside, statement inside ∧
    ls = ⟨.lBrace, ['\x7b'], newline, adjacent⟩
      :: (inside ++ [⟨.rBrace, ['\x7d'], newline', adjacent'⟩])
  else statement ls

end Script

open Script Outline

/-- A statement as far as it is made with `if`, `else` and `while`; of each body it is known whether
it stands in braces. -/
inductive Body where
  | plain (statement : Outline)
  | branch (test : Outline) (fenced : Bool) (body : Body)
  | choice (test : Outline) (fenced : Bool) (body : Body) (fenced' : Bool) (otherwise : Body)
  | loop (test : Outline) (fenced : Bool) (body : Body)

namespace Body

/-- The node of a body, in braces or without them. -/
def enclose (fenced : Bool) (o : Outline) : Outline := if fenced then Program.block [o] else o

def outline : Body → Outline
  | plain statement => statement
  | branch test fenced body =>
    nodeOf Kind.statement [nodeOf Kind.ifStatement [keyword "if", Program.condition test,
      labelled Field.consequence (enclose fenced body.outline)]]
  | choice test fenced body fenced' otherwise =>
    nodeOf Kind.statement [nodeOf Kind.ifStatement [keyword "if", Program.condition test,
      labelled Field.consequence (enclose fenced body.outline), keyword "else",
      labelled Field.alternative (enclose fenced' otherwise.outline)]]
  | loop test fenced body =>
    nodeOf Kind.statement [nodeOf Kind.whileStatement [keyword "while", Program.condition test,
      labelled Field.body (enclose fenced body.outline)]]

/-- An `else` right behind the statement would belong to it. -/
def isOpen : Body → Bool
  | plain _ => false
  | branch _ _ _ => true
  | choice _ _ _ fenced' otherwise => !fenced' && otherwise.isOpen
  | loop _ fenced body => !fenced && body.isOpen

/-- The looks of a statement that is read at some depth. -/
def Spelled : Body → Nat → List Look → Prop
  | plain statement, k, ls => IsStatement k ls statement
  | branch test fenced body, k + 1, ls => ∃ head inside, ls = head ++ inside ∧
    Heads "if" k test head ∧ Encloses fenced (body.Spelled k) inside
  | choice test fenced body fenced' otherwise, k + 1, ls =>
    ∃ head inside newline adjacent behind,
      ls = head ++ (inside ++ ⟨.identifier, "else".toList, newline, adjacent⟩ :: behind) ∧
      Heads "if" k test head ∧ Encloses fenced (body.Spelled k) inside ∧
      Encloses fenced' (otherwise.Spelled k) behind ∧ (body.isOpen → fenced)
  | loop test fenced body, k + 1, ls => ∃ head inside, ls = head ++ inside ∧
    Heads "while" k test head ∧ Encloses fenced (body.Spelled k) inside
  | _, 0, _ => False

section Spelling

variable {test : Outline} {fenced fenced' : Bool} {body otherwise : Body} {k : Nat}
  {head inside behind : List Look} {newline adjacent newline' adjacent' : Bool}
  {statement : List Look → Prop}

theorem encloses_bare (h : statement inside) : Encloses false statement inside := h

theorem encloses_braces (h : statement inside) : Encloses true statement
    (⟨.lBrace, ['\x7b'], newline, adjacent⟩
      :: (inside ++ [⟨.rBrace, ['\x7d'], newline', adjacent'⟩])) :=
  ⟨_, _, _, _, _, h, rfl⟩

theorem spelled_branch (heads : Heads "if" k test head)
    (encloses : Encloses fenced (body.Spelled k) inside) :
    (branch test fenced body).Spelled (k + 1) (head ++ inside) :=
  ⟨_, _, rfl, heads, encloses⟩

theorem spelled_choice (heads : Heads "if" k test head)
    (encloses : Encloses fenced (body.Spelled k) inside) (closed : body.isOpen → fenced)
    (encloses' : Encloses fenced' (otherwise.Spelled k) behind) :
    (choice test fenced body fenced' otherwise).Spelled (k + 1)
      (head ++ (inside ++ ⟨.identifier, "else".toList, newline, adjacent⟩ :: behind)) :=
  ⟨_, _, _, _, _, rfl, heads, encloses, encloses', closed⟩

theorem spelled_loop (heads : Heads "while" k test head)
    (encloses : Encloses fenced (body.Spelled k) inside) :
    (loop test fenced body).Spelled (k + 1) (head ++ inside) :=
  ⟨_, _, rfl, heads, encloses⟩

end Spelling

/-- A script that is a single route with the statement in its block. -/
def Written (b : Body) (text : List Char) : Prop :=
  ∃ (type : Program.RouteType) (newline adjacent newline' adjacent' newline'' adjacent'' : Bool)
    (ls : List Look), b.Spelled maxNesting ls ∧
    Token.looks none ((Token.all text).filter Token.isSignificant) =
      ⟨.identifier, type.word.toList, newline, adjacent⟩ :: ⟨.lBrace, ['\x7b'], newline', adjacent'⟩
        :: (ls ++ [⟨.rBrace, ['\x7d'], newline'', adjacent''⟩])

end Body

namespace Script

variable {a : List Char} {p : Option Nat} {s : Stream} {l : Look} {ls rest behind : List Look}
  {o test : Outline} {k : Nat} {fenced : Bool} {field : String}

/-- A body without braces. -/
theorem bareBody_parses {inner : Level} (first : l.kind ≠ .lBrace)
    (h : ∀ {p s}, Parses a p (l :: ls) s inner.statement rest (Shows a [·] [o])) :
    Parses a p (l :: ls) s (body inner field) rest (Shows a · [labelled field o]) := by
  refine .peekKind ?_
  simp only [List.head?_cons, Option.map_some]
  exact .bind h fun _ shows => .pure (shows.withField field)

/-- A block of one statement. -/
theorem singleBlock_parses {newline adjacent newline' adjacent' : Bool}
    (first : l.kind ∉ [.lBrace, .rBrace, .lt])
    (h : ∀ {p s}, Parses a p (l :: ls) s (level k).statement
      (⟨.rBrace, ['\x7d'], newline', adjacent'⟩ :: rest) (Shows a [·] [o])) :
    Parses a p (⟨.lBrace, ['\x7b'], newline, adjacent⟩ :: l :: ls) s (compound (level k)) rest
      (Shows a [·] [Program.block [o]]) := by
  simp only [List.mem_cons, List.not_mem_nil, or_false, not_or] at first
  exact compound_parses fun opening => .one first.2 h

theorem condition_of_heads {word : String} {head : List Look} (heads : Heads word k test head) :
    ∃ newline adjacent ls, head = ⟨.identifier, word.toList, newline, adjacent⟩ :: ls ∧
      ∀ {a p s behind}, Parses a p (ls ++ behind) s (condition (level k)) behind
        (Shows a · [Program.condition test]) := by
  obtain ⟨newline, adjacent, newline', adjacent', newline'', adjacent'', inside, tested, rfl⟩ :=
    heads
  refine ⟨newline, adjacent, _, rfl, fun {a p s behind} => ?_⟩
  rw [List.cons_append, List.append_assoc]
  exact condition_parses tested

theorem isTest_number {value : List Char} {newline adjacent : Bool} :
    IsTest (k + 1) [⟨.number, value, newline, adjacent⟩] (leaf Kind.number value) :=
  expression_parses (closed_cons (by simp [precedence?]))
    (unary_parses (by simp [Leads]) (literal_parses (.inr rfl)))

theorem heads_number {word : String} {value : List Char}
    {newline adjacent newline' adjacent' newline'' adjacent'' newline₃ adjacent₃ : Bool} :
    Heads word (k + 1) (leaf Kind.number value) [⟨.identifier, word.toList, newline, adjacent⟩,
      ⟨.lParen, ['('], newline', adjacent'⟩, ⟨.number, value, newline'', adjacent''⟩,
      ⟨.rParen, [')'], newline₃, adjacent₃⟩] :=
  ⟨_, _, _, _, _, _, _, isTest_number, rfl⟩

/-- An assignment to what is no variable is read without an error as well. -/
theorem isStatement_assign (name : Program.Name) {value : List Char} {newline adjacent newline'
    adjacent' newline'' adjacent'' newline₃ adjacent₃ : Bool} :
    IsStatement (k + 3) [⟨.identifier, name.text, newline, adjacent⟩,
      ⟨.assign, ['='], newline', adjacent'⟩, ⟨.number, value, newline'', adjacent''⟩,
      ⟨.semicolon, [';'], newline₃, adjacent₃⟩] (Program.finished (wrapped
        (nodeOf Kind.assignment [labelled Field.left (Program.identifier name), sign .assign,
          labelled Field.right (wrapped (leaf Kind.number value))]))) := by
  refine ⟨⟨_, _, rfl, by simp⟩, ?_⟩
  exact statement_expression (fun _ => wordStatement?_of_free name.free _) (by simp) (by simp)
    (expressionStatement_parses (assignment_parses
      (unary_parses (leads_of_free name.free) (primary_word (without_cons (by simp))))
      (expression_parses (closed_cons (by simp [precedence?]))
        (unary_parses (by simp [Leads]) (literal_parses (.inr rfl))))))

end Script

namespace Body

variable {b : Body} {a : List Char} {p : Option Nat} {s : Stream} {ls rest : List Look}
  {k : Nat} {fenced : Bool} {field : String} {text : List Char}

theorem Spelled.first (h : b.Spelled k ls) :
    ∃ l rest, ls = l :: rest ∧ l.kind ∉ [.lBrace, .rBrace, .lt] := by
  have word {text : String} {k : Nat} {test : Outline} {head behind : List Look}
      (heads : Heads text k test head) :
      ∃ l rest, head ++ behind = l :: rest ∧ l.kind ∉ [.lBrace, .rBrace, .lt] := by
    obtain ⟨_, _, _, _, _, _, _, _, rfl⟩ := heads
    exact ⟨_, _, rfl, by simp⟩
  cases b with
  | plain statement => exact IsStatement.first h
  | branch test fenced body =>
    cases k with
    | zero => exact h.elim
    | succ k =>
      obtain ⟨head, inside, rfl, heads, _⟩ := h
      exact word heads
  | choice test fenced body fenced' otherwise =>
    cases k with
    | zero => exact h.elim
    | succ k =>
      obtain ⟨head, inside, _, _, behind, rfl, heads, _⟩ := h
      exact word heads
  | loop test fenced body =>
    cases k with
    | zero => exact h.elim
    | succ k =>
      obtain ⟨head, inside, rfl, heads, _⟩ := h
      exact word heads

/-- A body is read as its statement is, whatever stands around it. -/
theorem encloses_parses
    (reads : ∀ {p s ls rest}, b.Spelled k ls → (b.isOpen → Fresh rest) →
      Parses a p (ls ++ rest) s (level k).statement rest (Shows a [·] [b.outline]))
    (h : Encloses fenced (b.Spelled k) ls) (fresh : !fenced && b.isOpen → Fresh rest) :
    Parses a p (ls ++ rest) s (body (level k) field) rest
      (Shows a · [labelled field (enclose fenced b.outline)]) := by
  cases fenced with
  | false =>
    have spelled : b.Spelled k ls := h
    obtain ⟨l, ls, rfl, first⟩ := spelled.first
    simp only [List.mem_cons, List.not_mem_nil, or_false, not_or] at first
    exact bareBody_parses first.1 (reads spelled (by simpa using fresh))
  | true =>
    obtain ⟨newline, adjacent, newline', adjacent', inside, spelled, rfl⟩ := h
    obtain ⟨l, ls, rfl, first⟩ := spelled.first
    have here {p s} : Parses a p (l :: ls ++ ⟨.rBrace, ['\x7d'], newline', adjacent'⟩ :: rest) s
        (level k).statement _ (Shows a [·] [b.outline]) := reads spelled fun _ => rfl
    rw [List.cons_append, List.append_assoc]
    exact body_parses (singleBlock_parses first here)

/-- A statement is read as it is spelled. -/
theorem Spelled.reads (h : b.Spelled k ls) (fresh : b.isOpen → Fresh rest) :
    Parses a p (ls ++ rest) s (level k).statement rest (Shows a [·] [b.outline]) := by
  induction b generalizing k p s ls rest with
  | plain statement => exact IsStatement.reads h
  | branch test fenced body ih =>
    cases k with
    | zero => exact h.elim
    | succ k =>
      obtain ⟨head, inside, rfl, heads, encloses⟩ := h
      obtain ⟨newline, adjacent, ls, rfl, tested⟩ := condition_of_heads heads
      rw [List.append_assoc, List.cons_append]
      refine statement_word rfl (statementNode_parses (if_parses tested ?_ (fresh rfl)))
      exact encloses_parses ih encloses fun _ => fresh rfl
  | choice test fenced body fenced' otherwise ih ih' =>
    cases k with
    | zero => exact h.elim
    | succ k =>
      obtain ⟨head, inside, _, _, behind, rfl, heads, encloses, encloses', closed⟩ := h
      obtain ⟨newline, adjacent, ls, rfl, tested⟩ := condition_of_heads heads
      rw [List.append_assoc, List.cons_append, List.append_assoc, List.cons_append]
      refine statement_word rfl (statementNode_parses (ifElse_parses tested
        (encloses_parses ih encloses fun opened => ?_) (encloses_parses ih' encloses' fresh)))
      obtain ⟨bare, opened⟩ := Bool.and_eq_true_iff.1 opened
      rw [closed opened] at bare
      contradiction
  | loop test fenced body ih =>
    cases k with
    | zero => exact h.elim
    | succ k =>
      obtain ⟨head, inside, rfl, heads, encloses⟩ := h
      obtain ⟨newline, adjacent, ls, rfl, tested⟩ := condition_of_heads heads
      rw [List.append_assoc, List.cons_append]
      refine statement_word rfl (statementNode_parses (while_parses tested ?_))
      exact encloses_parses ih encloses fresh

/-- The outline of a route with one statement in its block. -/
def routeOutline (type : Program.RouteType) (b : Body) : Outline :=
  nodeOf Kind.routeDefinition [labelled Field.routeType (leaf Kind.routeType type.word.toList),
    labelled Field.body (Program.block [b.outline])]

/-- A script that is written around the statement is read without errors. -/
theorem Written.listed (h : b.Written text) :
    ∃ type, Listed text (items (.ofText text)).1 [routeOutline type b] := by
  obtain ⟨type, newline, adjacent, newline', adjacent', newline'', adjacent'', ls, spelled, looks⟩ :=
    h
  obtain ⟨l, ls, rfl, first⟩ := spelled.first
  have statement {p s} : Parses text p (l :: ls ++ [⟨.rBrace, ['\x7d'], newline'', adjacent''⟩]) s
      (level maxNesting).statement _ (Shows text [·] [b.outline]) := spelled.reads fun _ => rfl
  have block {p s} : Parses text p (⟨.lBrace, ['\x7b'], newline', adjacent'⟩ ::
      (l :: ls ++ [⟨.rBrace, ['\x7d'], newline'', adjacent''⟩])) s (compound topLevel) []
      (Shows text [·] [Program.block [b.outline]]) := singleBlock_parses first statement
  have item {p s t} (seen : Seen text ⟨.identifier, type.word.toList, newline, adjacent⟩ t) :
      Parses text p _ s (topLevelItem t) [] (Shows text [·] [routeOutline type b]) :=
    wordItem_parses seen rfl (route_known type (.inr rfl)) (routeDefinition_parses block)
  have start := ahead_ofText text
  rw [looks] at start
  have all : Parses text none _ (.ofText text) items [] (Listed text · [routeOutline type b]) :=
    .round itemStep_advancing trivial (itemStep_goes ⟨rfl, List.forall_mem_nil _⟩ item)
      fun children listed => .finish itemStep_advancing trivial (itemStep_stops listed)
  exact ⟨type, (all start).1⟩

/-- The tree of a script that is written around the statement. -/
theorem Written.outline (h : b.Written text) : (Tree.ofScript text).hasError = false ∧
    ∃ type, (Tree.ofScript text).outline = nodeOf Kind.sourceFile [routeOutline type b] := by
  obtain ⟨type, listed⟩ := h.listed
  exact ⟨Tree.noError_of_listed listed, type, Tree.outline_of_listed listed⟩

end Body

end RouteScript
