import RouteScript.Script.Variable
/-!
# Expressions

Every way from an expression or statement back into another one goes through a `Level`: the readers
that stand one nesting deeper. So each production is a plain function of the level inside it.
Binary operators have nine precedences and associate to the left.
-/
namespace RouteScript.Script

/-- The readers one nesting deeper. -/
structure Level where
  statement : Reader Draft
  expression : Reader Outcome
  /-- The operand of a unary operator. -/
  operand : Reader Outcome

/-- Where the rest of a malformed argument ends. -/
def endsArgument (t : Token) : Bool :=
  t.newlineBefore || t.kind == .comma || t.kind == .rParen || t.kind == .semicolon
    || t.kind == .lBrace || t.kind == .rBrace

/-- An argument, in whatever shape; `none` if there is nothing that could be one. -/
def argument (inner : Level) (children : List Draft) : Reader (Option (List Draft)) := do
  match ← inner.expression with
  | .ok value => return some (children ++ [value])
  | .error consumed =>
    let rest ← collectWhile (fun t => !endsArgument t)
    let following ← peekKind
    if (consumed ++ rest).isEmpty && following != some .comma && following != some .rParen then
      return none
    return some (children ++ (← errorNodes (consumed ++ rest)))

/-- An argument with the comma or the parenthesis behind it. -/
def argumentStep (inner : Level) (children : List Draft) : Reader (List Draft ⊕ Outcome) := do
  match ← argument inner children with
  | none => return .inr (.error children)
  | some children =>
    match ← peekKind with
    | some .comma => return .inl (children ++ (← nextLeaf))
    | some .rParen => return .inr (.ok (← node Kind.argumentList (children ++ (← nextLeaf))))
    | _ => return .inr (.error children)

/-- Arguments in parentheses, from the opening one on. -/
def argumentList (inner : Level) : Reader Outcome := do
  let opening ← nextLeaf
  if ← isAt .rParen then
    return .ok (← node Kind.argumentList (opening ++ (← nextLeaf)))
  repeatUntil (argumentStep inner) .error opening

/-- A call of a function whose name has been taken. -/
def call (inner : Level) (name : Draft) : Reader Outcome := do
  let function := (wrap name).withField Field.function
  match ← argumentList inner with
  | .ok arguments =>
    return .ok (wrap (← node Kind.call [function, arguments.withField Field.arguments]))
  | .error consumed => return .error (function :: consumed)

def parenthesized (inner : Level) : Reader Outcome := do
  let opening ← nextLeaf
  match ← inner.expression with
  | .error consumed => return .error (opening ++ consumed)
  | .ok value =>
    if ← isAt .rParen then
      return .ok (← node Kind.parenthesized (opening ++ [value] ++ (← nextLeaf)))
    return .error (opening ++ [value])

def primary (inner : Level) : Reader Outcome := do
  match ← peek with
  | none => return .error []
  | some t =>
    match t.kind with
    | .lParen =>
      match ← parenthesized inner with
      | .ok group => return .ok (wrap group)
      | .error consumed => return .error consumed
    | .dollar => pseudoVariable
    | .string | .number =>
      let _ ← next
      return .ok (wrap (tokenLeaf t))
    | .identifier =>
      let _ ← next
      if ← isAt .lParen then call inner (tokenLeaf t) else return .ok (wrap (tokenLeaf t))
    | _ => return .error []

/-- The word `defined` is an operator only before a variable. -/
def isUnaryOperator (t : Token) (following : Option Token.Kind) : Bool :=
  t.kind == .bang || t.kind == .minus || t.kind == .tilde
    || (t.kind == .identifier && t.word == "defined" && following == some .dollar)

/-- An operand, with the operators before it. -/
def unary (inner : Level) : Reader Outcome := do
  match ← peek with
  | none => return .error []
  | some t =>
    if isUnaryOperator t (← peekSecondKind) then
      let _ ← next
      let operator := if t.kind == .identifier then keywordLeaf t else tokenLeaf t
      match ← inner.operand with
      | .ok value =>
        return .ok (wrap (← node Kind.unary
          [operator.withField Field.operator, value.withField Field.argument]))
      | .error consumed => return .error (operator :: consumed)
    else
      primary inner

/-- The tightest precedence; the loosest is one. -/
def tightest : Nat := 9

/-- How tightly a binary operator binds. -/
def precedence? : Token.Kind → Option Nat
  | .orOr => some 1
  | .andAnd => some 2
  | .pipe => some 3
  | .caret => some 4
  | .amp => some 5
  | .eq | .notEq | .regexMatch | .regexNotMatch => some 6
  | .lt | .gt | .ltEq | .gtEq => some 7
  | .plus | .minus => some 8
  | .star | .slash | .percent => some 9
  | _ => none

/-- Extends `left` by one operator of this precedence and the operand behind it. -/
def chainStep (operand : Reader Outcome) (precedence : Nat) (left : Draft) :
    Reader (Draft ⊕ Outcome) := do
  match ← peek with
  | none => return .inr (.ok left)
  | some t =>
    if precedence? t.kind != some precedence then
      return .inr (.ok left)
    let _ ← next
    let operator := tokenLeaf t
    match ← operand with
    | .ok right =>
      return .inl (wrap (← node Kind.binary
        [left.withField Field.left, operator.withField Field.operator,
          right.withField Field.right]))
    | .error consumed => return .inr (.error (left :: operator :: consumed))

/-- Operands joined by the operators of the `levels` tightest precedences. -/
def chain (operand : Reader Outcome) : Nat → Reader Outcome
  | 0 => operand
  | levels + 1 => do
    match ← chain operand levels with
    | .error consumed => return .error consumed
    | .ok left => repeatUntil (chainStep (chain operand levels) (tightest - levels)) .ok left

/-- Operands joined by binary operators. -/
def binary (inner : Level) : Reader Outcome := chain (unary inner) tightest

/-- The node inside an expression node that holds one. -/
def unwrap (d : Draft) : Draft :=
  match d.label.kind == Kind.expression, d.children with
  | true, [only] => only
  | _, _ => d

/-- An expression, which may assign to what stands left of an equals sign. -/
def assignment (inner : Level) : Reader Outcome := do
  match ← binary inner with
  | .error consumed => return .error consumed
  | .ok left =>
    if !(← isAt .assign) then
      return .ok left
    let children := (unwrap left).withField Field.left :: (← nextLeaf)
    match ← inner.expression with
    | .ok right =>
      return .ok (wrap (← node Kind.assignment (children ++ [right.withField Field.right])))
    | .error consumed =>
      let right := (← errorNodes consumed).map (Draft.withField Field.right)
      return .ok (wrap (← node Kind.assignment (children ++ right)))

end RouteScript.Script
