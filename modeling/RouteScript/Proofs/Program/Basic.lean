import RouteScript.Proofs.Alike.Rules
/-!
# Programs

The abstract syntax of routing scripts as far as it is written without recovery, its printed form,
and the outline of its tree. Words, strings and comments carry the proof that they can be read back.

A printed text is a list of bits: blanks, and tokens of known kinds. Where every token ends before
what stands behind it, scanning the text finds these tokens again.
-/
namespace RouteScript

namespace Program

/-- A word that is no keyword. -/
structure Name where
  text : List Char
  starts : text.head?.any fun c => !c.isDigit
  wordChars : text.all Token.Lexeme.isWordChar
  free : String.ofList text ∉ Vocabulary.keywords

/-- What may stand in a string without an escape. -/
structure Quotable where
  text : List Char
  plain : text.all fun c => c ≠ '"' && c ≠ '\\' && c ≠ '\n'

/-- What may stand in a block comment. -/
structure Remark where
  text : List Char
  inside : ¬ ['*', '/'] <:+: text

def digits (n : Nat) : List Char := Nat.toDigits 10 n

def Quotable.quoted (q : Quotable) : List Char := '"' :: (q.text ++ ['"'])

def Remark.comment (r : Remark) : List Char := "/* ".toList ++ r.text ++ " */".toList

/-- Where a user variable lives. -/
inductive Scope where
  | avp
  | var
  | dlgVar
  deriving DecidableEq, Repr

def Scope.word : Scope → String
  | avp => "avp"
  | var => "var"
  | dlgVar => "dlg_var"

def Scope.kind : Scope → String
  | avp => Kind.avpVar
  | var => Kind.scriptVar
  | dlgVar => Kind.dlgVar

structure Operator where
  kind : Token.Kind
  binary : (Script.precedence? kind).isSome

structure RouteType where
  word : String
  known : word ∈ Vocabulary.routeTypes

inductive Expr where
  | number (value : Nat)
  | string (value : Quotable)
  | userVariable (scope : Scope) (name : Name)
  | builtin (name : Name) (argument : Option Name)
  | binary (left : Expr) (operator : Operator) (right : Expr)
  | call (function : Name) (arguments : List Expr)

inductive Stmt where
  | assign (scope : Scope) (name : Name) (value : Expr)
  | call (function : Name) (arguments : List Expr)
  | branch (condition : Expr) (consequence : List Stmt) (alternative : Option (List Stmt))
  | loop (condition : Expr) (body : List Stmt)
  | switch (subject : Expr) (cases : List (Quotable × List Stmt))
  | routeCall (name : Name)
  | drop
  | exit
  | back (code : Option Nat)
  | comment (text : Remark)

inductive Item where
  | parameter (name : Name) (value : Nat)
  | loadModule (file : Quotable)
  | modParam (file key : Quotable) (value : Nat)
  | assign (scope : Scope) (name : Name) (value : Expr)
  | route (type : RouteType) (name : Option Name) (body : List Stmt)

end Program

/-- A whole script. -/
structure Program where
  items : List Program.Item

namespace Program

mutual

/-- How deep parentheses and call arguments are nested. -/
def Expr.nesting : Expr → Nat
  | .number _ | .string _ | .userVariable _ _ | .builtin _ _ => 0
  | .binary left _ right => 1 + max left.nesting right.nesting
  | .call _ arguments => 1 + Expr.nestingAll arguments

def Expr.nestingAll : List Expr → Nat
  | [] => 0
  | e :: es => max e.nesting (Expr.nestingAll es)

end

mutual

/-- How deep blocks, parentheses and call arguments are nested. -/
def Stmt.nesting : Stmt → Nat
  | .assign _ _ value => value.nesting
  | .call _ arguments => 1 + Expr.nestingAll arguments
  | .branch condition consequence none =>
    1 + max condition.nesting (Stmt.nestingAll consequence)
  | .branch condition consequence (some alternative) =>
    1 + max condition.nesting (max (Stmt.nestingAll consequence) (Stmt.nestingAll alternative))
  | .loop condition body => 1 + max condition.nesting (Stmt.nestingAll body)
  | .switch subject cases => 1 + max subject.nesting (Stmt.nestingCases cases)
  | .routeCall _ => 1
  | .drop | .exit | .back _ | .comment _ => 0

def Stmt.nestingAll : List Stmt → Nat
  | [] => 0
  | s :: ss => max s.nesting (Stmt.nestingAll ss)

def Stmt.nestingCases : List (Quotable × List Stmt) → Nat
  | [] => 0
  | (_, body) :: cases => max (Stmt.nestingAll body) (Stmt.nestingCases cases)

end

def Item.nesting : Item → Nat
  | .parameter _ _ | .loadModule _ => 0
  | .modParam _ _ _ => 1
  | .assign _ _ value => value.nesting
  | .route _ _ body => 1 + Stmt.nestingAll body

def Operator.code (o : Operator) : List Char := (o.kind.spelling?.getD "").toList

/-- A user variable, such as `$avp(x)`. -/
def Scope.code (scope : Scope) (name : Name) : List Char :=
  '$' :: (scope.word.toList ++ '(' :: name.text ++ [')'])

mutual

def Expr.code : Expr → List Char
  | .number value => digits value
  | .string value => value.quoted
  | .userVariable scope name => scope.code name
  | .builtin name none => '$' :: name.text
  | .builtin name (some argument) => '$' :: (name.text ++ '(' :: argument.text ++ [')'])
  | .binary left operator right =>
    '(' :: left.code ++ ' ' :: operator.code ++ ' ' :: right.code ++ [')']
  | .call function arguments => function.text ++ '(' :: Expr.codeAll arguments ++ [')']

/-- Arguments behind each other. -/
def Expr.codeAll : List Expr → List Char
  | [] => []
  | [e] => e.code
  | e :: e' :: es => e.code ++ ", ".toList ++ Expr.codeAll (e' :: es)

end

def tabs (indent : Nat) : List Char := List.replicate indent '\t'

/-- The lines of a block, which stand one step further in, between its braces. -/
def braces (indent : Nat) (lines : List Char) : List Char :=
  "\x7b\n".toList ++ lines ++ tabs indent ++ ['}']

mutual

def Stmt.code (indent : Nat) : Stmt → List Char
  | .assign scope name value =>
    tabs indent ++ scope.code name ++ " = ".toList ++ value.code ++ ";\n".toList
  | .call function arguments =>
    tabs indent ++ (Expr.call function arguments).code ++ ";\n".toList
  | .branch condition consequence none =>
    tabs indent ++ "if (".toList ++ condition.code ++ ") ".toList
      ++ braces indent (Stmt.codeAll (indent + 1) consequence) ++ ['\n']
  | .branch condition consequence (some alternative) =>
    tabs indent ++ "if (".toList ++ condition.code ++ ") ".toList
      ++ braces indent (Stmt.codeAll (indent + 1) consequence) ++ " else ".toList
      ++ braces indent (Stmt.codeAll (indent + 1) alternative) ++ ['\n']
  | .loop condition body =>
    tabs indent ++ "while (".toList ++ condition.code ++ ") ".toList
      ++ braces indent (Stmt.codeAll (indent + 1) body) ++ ['\n']
  | .switch subject cases =>
    tabs indent ++ "switch (".toList ++ subject.code ++ ") ".toList
      ++ braces indent (Stmt.codeCases (indent + 1) cases) ++ ['\n']
  | .routeCall name => tabs indent ++ "route(".toList ++ name.text ++ ");\n".toList
  | .drop => tabs indent ++ "drop;\n".toList
  | .exit => tabs indent ++ "exit;\n".toList
  | .back none => tabs indent ++ "return;\n".toList
  | .back (some code) => tabs indent ++ "return ".toList ++ digits code ++ ";\n".toList
  | .comment text => tabs indent ++ text.comment ++ ['\n']

def Stmt.codeAll (indent : Nat) : List Stmt → List Char
  | [] => []
  | s :: ss => s.code indent ++ Stmt.codeAll indent ss

def Stmt.codeCases (indent : Nat) : List (Quotable × List Stmt) → List Char
  | [] => []
  | (label, body) :: cases =>
    tabs indent ++ "case ".toList ++ label.quoted ++ ":\n".toList
      ++ Stmt.codeAll (indent + 1) body ++ tabs (indent + 1) ++ "break;\n".toList
      ++ Stmt.codeCases indent cases

end

/-- The name of a route behind its type. -/
def brackets : Option Name → List Char
  | none => []
  | some name => '[' :: name.text ++ [']']

def Item.code : Item → List Char
  | .parameter name value => name.text ++ '=' :: digits value ++ ['\n']
  | .loadModule file => "loadmodule ".toList ++ file.quoted ++ ['\n']
  | .modParam file key value =>
    "modparam(".toList ++ file.quoted ++ ", ".toList ++ key.quoted ++ ", ".toList
      ++ digits value ++ ")\n".toList
  | .assign scope name value => scope.code name ++ " = ".toList ++ value.code ++ ";\n".toList
  | .route type name body =>
    type.word.toList ++ brackets name ++ ' ' :: braces 0 (Stmt.codeAll 1 body) ++ ['\n']

end Program

namespace Outline

/-- The leaf of a word or sign that stands for itself. -/
def keyword (text : String) : Outline := .node ⟨text, false, none, some text.toList⟩ []

def sign (kind : Token.Kind) : Outline := keyword (kind.spelling?.getD "")

def leaf (kind : String) (text : List Char) : Outline := .node ⟨kind, true, none, some text⟩ []

def nodeOf (kind : String) (children : List Outline) : Outline :=
  .node ⟨kind, true, none, none⟩ children

def labelled (field : String) (o : Outline) : Outline := o.reform ({ · with field := some field })

/-- An expression node. -/
def wrapped (o : Outline) : Outline := nodeOf Kind.expression [o]

end Outline

namespace Program

open Outline

def identifier (name : Name) : Outline := leaf Kind.identifier name.text

def number (value : Nat) : Outline := leaf Kind.number (digits value)

def quotation (value : Quotable) : Outline := leaf Kind.string value.quoted

def pseudoVariable (content : Outline) : Outline :=
  nodeOf Kind.pseudoVariable [sign .dollar, nodeOf Kind.pseudoContent [content]]

def Scope.outline (scope : Scope) (name : Name) : Outline :=
  pseudoVariable (nodeOf scope.kind [keyword scope.word, sign .lParen,
    labelled Field.name (nodeOf Kind.variableName [identifier name]), sign .rParen])

/-- A call of a function, whose arguments are separated by commas. -/
def callOutline (function : Name) (arguments : List Outline) : Outline :=
  nodeOf Kind.call [labelled Field.function (wrapped (identifier function)),
    labelled Field.arguments (nodeOf Kind.argumentList
      (sign .lParen :: arguments ++ [sign .rParen]))]

mutual

/-- What an expression node has in it. -/
def Expr.outline : Expr → Outline
  | .number value => Program.number value
  | .string value => quotation value
  | .userVariable scope name => scope.outline name
  | .builtin name none => pseudoVariable (identifier name)
  | .builtin name (some argument) =>
    pseudoVariable (nodeOf Kind.pvarCall [labelled Field.pvarClass (identifier name), sign .lParen,
      labelled Field.argument (nodeOf Kind.pvarArgument [identifier argument]), sign .rParen])
  | .binary left operator right =>
    nodeOf Kind.parenthesized [sign .lParen,
      wrapped (nodeOf Kind.binary [labelled Field.left (wrapped left.outline),
        labelled Field.operator (sign operator.kind),
        labelled Field.right (wrapped right.outline)]),
      sign .rParen]
  | .call function arguments => callOutline function (Expr.outlines arguments)

def Expr.outlines : List Expr → List Outline
  | [] => []
  | [e] => [wrapped e.outline]
  | e :: e' :: es => wrapped e.outline :: sign .comma :: Expr.outlines (e' :: es)

end

/-- A statement that ends with a semicolon. -/
def finished (o : Outline) : Outline := nodeOf Kind.statement [o, sign .semicolon]

def assignment (scope : Scope) (name : Name) (value : Outline) : Outline :=
  finished (wrapped (nodeOf Kind.assignment [labelled Field.left (scope.outline name),
    sign .assign, labelled Field.right (wrapped value)]))

def block (children : List Outline) : Outline :=
  nodeOf Kind.compoundStatement
    (leaf Kind.blockStart ['{'] :: children ++ [leaf Kind.blockEnd ['}']])

def condition (o : Outline) : Outline :=
  labelled Field.condition (nodeOf Kind.parenthesized [sign .lParen, wrapped o, sign .rParen])

def action (text : String) : Outline := finished (nodeOf Kind.coreFunction [keyword text])

mutual

/-- The node of a statement; comments have none. -/
def Stmt.outlines : Stmt → List Outline
  | .assign scope name value => [assignment scope name value.outline]
  | .call function arguments =>
    [finished (wrapped (callOutline function (Expr.outlines arguments)))]
  | .branch test consequence none =>
    [nodeOf Kind.statement [nodeOf Kind.ifStatement [keyword "if", condition test.outline,
      labelled Field.consequence (block (Stmt.outlinesAll consequence))]]]
  | .branch test consequence (some alternative) =>
    [nodeOf Kind.statement [nodeOf Kind.ifStatement [keyword "if", condition test.outline,
      labelled Field.consequence (block (Stmt.outlinesAll consequence)), keyword "else",
      labelled Field.alternative (block (Stmt.outlinesAll alternative))]]]
  | .loop test body =>
    [nodeOf Kind.statement [nodeOf Kind.whileStatement [keyword "while", condition test.outline,
      labelled Field.body (block (Stmt.outlinesAll body))]]]
  | .switch subject cases =>
    [nodeOf Kind.statement [nodeOf Kind.switchStatement [keyword "switch", condition subject.outline,
      labelled Field.body (block (Stmt.outlinesCases cases))]]]
  | .routeCall name =>
    [finished (wrapped (nodeOf Kind.call
      [labelled Field.function (wrapped (leaf Kind.identifier "route".toList)),
        labelled Field.arguments (nodeOf Kind.argumentList
          [sign .lParen, wrapped (identifier name), sign .rParen])]))]
  | .drop => [action "drop"]
  | .exit => [action "exit"]
  | .back none => [finished (nodeOf Kind.returnStatement [keyword "return"])]
  | .back (some code) =>
    [finished (nodeOf Kind.returnStatement [keyword "return", wrapped (number code)])]
  | .comment _ => []

def Stmt.outlinesAll : List Stmt → List Outline
  | [] => []
  | s :: ss => s.outlines ++ Stmt.outlinesAll ss

def Stmt.outlinesCases : List (Quotable × List Stmt) → List Outline
  | [] => []
  | (label, body) :: cases =>
    nodeOf Kind.statement [nodeOf Kind.caseStatement [keyword "case",
        labelled Field.value (wrapped (quotation label)), sign .colon]]
      :: Stmt.outlinesAll body ++ action "break" :: Stmt.outlinesCases cases

end

def Item.outline : Item → Outline
  | .parameter name value =>
    nodeOf Kind.globalAssignment [labelled Field.key (identifier name), sign .assign,
      labelled Field.value (nodeOf Kind.coreValue [number value])]
  | .loadModule file =>
    nodeOf Kind.loadModule [keyword "loadmodule", labelled Field.moduleFile (quotation file)]
  | .modParam file key value =>
    nodeOf Kind.modParam [keyword "modparam", labelled Field.arguments (nodeOf Kind.argumentList
      [sign .lParen, wrapped (quotation file), sign .comma, wrapped (quotation key),
        sign .comma, wrapped (number value), sign .rParen])]
  | .assign scope name value => assignment scope name value.outline
  | .route type none body =>
    nodeOf Kind.routeDefinition [labelled Field.routeType (leaf Kind.routeType type.word.toList),
      labelled Field.body (block (Stmt.outlinesAll body))]
  | .route type (some name) body =>
    nodeOf Kind.routeDefinition [labelled Field.routeType (leaf Kind.routeType type.word.toList),
      sign .lBracket, labelled Field.name (nodeOf Kind.routeName [identifier name]),
      sign .rBracket, labelled Field.body (block (Stmt.outlinesAll body))]

def nesting (p : Program) : Nat := (p.items.map Item.nesting).foldr max 0

/-- The printed script. -/
def code (p : Program) : List Char := p.items.flatMap Item.code

/-- The outline that the tree of the script has. -/
def outline (p : Program) : Outline := nodeOf Kind.sourceFile (p.items.map Item.outline)

end Program

open Token

inductive Bit where
  | gap (text : List Char)
  | token (kind : Token.Kind) (text : List Char)

namespace Bit

def text : Bit → List Char
  | gap text => text
  | token _ text => text

def textOf (bs : List Bit) : List Char := bs.flatMap text

/-- Before the text `behind`, a bit is what the scanner takes it for. -/
def Fits (behind : List Char) : Bit → Prop
  | gap text => ∀ c ∈ text, Scan.isGap c
  | token kind text => ∃ c rest, text = c :: rest ∧ Scan.isGap c = false
      ∧ ∀ lineStart, Lexeme.scan lineStart c (rest ++ behind) = (kind, text.length)

def AllFit : List Bit → Prop
  | [] => True
  | b :: bs => b.Fits (textOf bs) ∧ AllFit bs

/-- What a reader sees of the tokens among some bits. A line break may precede the first bit, and
the first bit may stand right behind a token. -/
def looks : Bool → Bool → List Bit → List Look
  | _, _, [] => []
  | newline, adjacent, gap text :: bs =>
    looks (newline || text.contains '\n') (adjacent && text.isEmpty) bs
  | newline, adjacent, token kind text :: bs =>
    if kind.isTrivia then looks (newline || (kind = .comment && text.contains '\n')) false bs
    else ⟨kind, text, newline, adjacent⟩ :: looks false true bs

variable {bs : List Bit}

@[simp] theorem textOf_nil : textOf [] = [] := rfl

@[simp] theorem textOf_cons (b : Bit) (bs : List Bit) : textOf (b :: bs) = b.text ++ textOf bs := rfl

/-- The scanner passes blanks, each in a round of its own. -/
theorem tokens_gap {text : List Char} (gaps : ∀ c ∈ text, Scan.isGap c) (rounds : Nat)
    (rest : List Char) (offset : Nat) (lineStart newline : Bool) :
    ∃ lineStart', Scan.tokens (text.length + rounds) ⟨text ++ rest, offset, lineStart, newline⟩
      = Scan.tokens rounds ⟨rest, offset + Text.size text, lineStart',
          newline || text.contains '\n'⟩ := by
  induction text generalizing offset lineStart newline with
  | nil => exact ⟨lineStart, by simp⟩
  | cons c text ih =>
    have first : Scan.isGap c := gaps c (by simp)
    obtain ⟨lineStart', eq⟩ := ih (fun d hd => gaps d (by simp [hd])) (offset + c.utf8Size)
      (c = '\n' || (lineStart && (c = ' ' || c = '\t'))) (newline || c = '\n')
    refine ⟨lineStart', ?_⟩
    rw [List.length_cons, Nat.add_right_comm, Scan.tokens]
    simp only [List.cons_append, first, if_true, Scan.pass]
    rw [eq]
    have total : offset + c.utf8Size + Text.size text = offset + Text.size (c :: text) := by
      simp [Nat.add_assoc]
    have broken : ((newline || decide (c = '\n')) || text.contains '\n')
        = (newline || (c :: text).contains '\n') := by
      simp [Bool.or_assoc, eq_comm]
    rw [total, broken]

/-- The scanner takes a token that fits. -/
theorem tokens_token {kind : Kind} {text rest : List Char} (fits : Fits rest (token kind text))
    (rounds offset : Nat) (lineStart newline : Bool) :
    Scan.tokens (rounds + 1) ⟨text ++ rest, offset, lineStart, newline⟩
      = ⟨kind, text, offset, newline⟩ :: Scan.tokens rounds ⟨rest, offset + Text.size text, false,
          kind.isTrivia && (newline || (kind = .comment && text.contains '\n'))⟩ := by
  obtain ⟨c, more, rfl, noGap, scan⟩ := fits
  have taken : (c :: (more ++ rest)).take (c :: more).length = c :: more := by simp
  have left : (c :: (more ++ rest)).drop (c :: more).length = rest := by simp
  rw [List.cons_append, Scan.tokens]
  simp only [noGap, Scan.token, scan, taken, Scan.beyond, left, Bool.false_eq_true, if_false]
  rfl

/-- Behind some text an offset that was not passed before is met only if the text is empty. -/
theorem beq_offset {last : Option Nat} {offset : Nat} (low : ∀ n, last = some n → n ≤ offset)
    (text : List Char) :
    (last == some (offset + Text.size text)) = ((last == some offset) && text.isEmpty) := by
  cases text with
  | nil => simp
  | cons c text =>
    have pos := c.utf8Size_pos
    have apart : last ≠ some (offset + Text.size (c :: text)) := fun eq => by
      have := low _ eq
      simp only [Text.size_cons] at this
      omega
    simpa using apart

/-- Readers see the tokens of a text as its bits tell. -/
theorem looks_tokens {rounds offset : Nat} {lineStart newline : Bool} {last : Option Nat}
    (fit : AllFit bs) (enough : (textOf bs).length ≤ rounds)
    (low : ∀ n, last = some n → n ≤ offset) :
    Token.looks last
        ((Scan.tokens rounds ⟨textOf bs, offset, lineStart, newline⟩).filter isSignificant)
      = looks newline (last == some offset) bs := by
  induction bs generalizing rounds offset lineStart newline last with
  | nil => cases rounds <;> rfl
  | cons b bs ih =>
    obtain ⟨first, others⟩ := fit
    rw [textOf_cons, List.length_append] at enough
    have onward (n : Nat) (eq : last = some n) : n ≤ offset + Text.size b.text :=
      Nat.le_trans (low n eq) (Nat.le_add_right _ _)
    cases b with
    | gap text =>
      obtain ⟨left, rfl⟩ := Nat.exists_eq_add_of_le (Nat.le_trans (Nat.le_add_right _ _) enough)
      obtain ⟨lineStart', passed⟩ := tokens_gap first left (textOf bs) offset lineStart newline
      calc Token.looks last ((Scan.tokens (text.length + left)
              ⟨text ++ textOf bs, offset, lineStart, newline⟩).filter isSignificant)
          = looks (newline || text.contains '\n') (last == some (offset + Text.size text)) bs := by
            rw [passed]
            exact ih others (Nat.le_of_add_le_add_left enough) onward
        _ = looks newline (last == some offset) (gap text :: bs) := by
            rw [beq_offset low, looks]
    | token kind text =>
      have nonempty : text ≠ [] := by
        obtain ⟨c, more, rfl, _⟩ := first
        simp
      have longer := List.length_pos_iff.2 nonempty
      simp only [Bit.text] at enough onward ⊢
      obtain ⟨left, rfl⟩ : ∃ left, rounds = left + 1 := ⟨rounds - 1, by omega⟩
      rw [textOf_cons, Bit.text, tokens_token first, looks]
      cases trivia : kind.isTrivia with
      | true =>
        rw [List.filter_cons_of_neg (by simp [isSignificant, isTrivia, trivia]),
          ih others (by omega) onward, beq_offset low, List.isEmpty_eq_false_iff.2 nonempty]
        simp
      | false =>
        rw [List.filter_cons_of_pos (by simp [isSignificant, isTrivia, trivia]), Token.looks,
          ih others (by omega) (by simp [Token.stop])]
        simp [Token.stop]

/-- Readers see the tokens of a whole text as its bits tell. -/
theorem looks_all (fit : AllFit bs) :
    Token.looks none ((Token.all (textOf bs)).filter isSignificant) = looks true false bs :=
  looks_tokens fit (Nat.le_refl _) (by simp)

end Bit

end RouteScript
