import RouteScript.Proofs.Program.Basic
/-!
# Programs as bits

Every construct of a program as the tokens and blanks it is printed with. Each token ends before
what stands behind it, so the scanner finds these tokens in the printed text.

Each function puts the bits of a construct before those that stand behind it.
-/
namespace RouteScript

namespace Bit

def sign (kind : Token.Kind) : Bit := token kind (kind.spelling?.getD "").toList

def word (text : List Char) : Bit := token .identifier text

def number (value : Nat) : Bit := token .number (Program.digits value)

def quotation (value : Program.Quotable) : Bit := token .string value.quoted

def space : Bit := gap [' ']

def newline : Bit := gap ['\n']

def margin (indent : Nat) : Bit := gap (Program.tabs indent)

@[simp] theorem text_token (kind : Token.Kind) (text : List Char) : (token kind text).text = text :=
  rfl

@[simp] theorem text_sign (kind : Token.Kind) : (sign kind).text = (kind.spelling?.getD "").toList :=
  rfl

@[simp] theorem text_word (text : List Char) : (word text).text = text := rfl

@[simp] theorem text_number (value : Nat) : (number value).text = Program.digits value := rfl

@[simp] theorem text_quotation (value : Program.Quotable) : (quotation value).text = value.quoted :=
  rfl

@[simp] theorem text_space : space.text = [' '] := rfl

@[simp] theorem text_newline : newline.text = ['\n'] := rfl

@[simp] theorem text_margin (indent : Nat) : (margin indent).text = Program.tabs indent := rfl

end Bit

namespace Program

open Bit

def Scope.bits (scope : Scope) (name : Name) (rest : List Bit) : List Bit :=
  sign .dollar :: Bit.word scope.word.toList :: sign .lParen :: Bit.word name.text
    :: sign .rParen :: rest

mutual

def Expr.bits : Expr → List Bit → List Bit
  | .number value, rest => Bit.number value :: rest
  | .string value, rest => Bit.quotation value :: rest
  | .userVariable scope name, rest => scope.bits name rest
  | .builtin name none, rest => sign .dollar :: word name.text :: rest
  | .builtin name (some argument), rest =>
    sign .dollar :: word name.text :: sign .lParen :: word argument.text :: sign .rParen :: rest
  | .binary left operator right, rest =>
    sign .lParen :: left.bits (space :: sign operator.kind :: space
      :: right.bits (sign .rParen :: rest))
  | .call function arguments, rest =>
    word function.text :: sign .lParen :: Expr.bitsAll arguments (sign .rParen :: rest)

def Expr.bitsAll : List Expr → List Bit → List Bit
  | [], rest => rest
  | [e], rest => e.bits rest
  | e :: e' :: es, rest => e.bits (sign .comma :: space :: Expr.bitsAll (e' :: es) rest)

end

/-- The end of a line that closes a statement. -/
def ending (rest : List Bit) : List Bit := sign .semicolon :: newline :: rest

def opening (rest : List Bit) : List Bit := sign .lBrace :: newline :: rest

def closing (indent : Nat) (rest : List Bit) : List Bit := margin indent :: sign .rBrace :: rest

/-- A word with a condition behind it. -/
def headed (text : String) (condition : Expr) (rest : List Bit) : List Bit :=
  word text.toList :: space :: sign .lParen
    :: condition.bits (sign .rParen :: space :: opening rest)

mutual

def Stmt.bits (indent : Nat) : Stmt → List Bit → List Bit
  | .assign scope name value, rest =>
    margin indent :: scope.bits name (space :: sign .assign :: space :: value.bits (ending rest))
  | .call function arguments, rest =>
    margin indent :: word function.text :: sign .lParen
      :: Expr.bitsAll arguments (sign .rParen :: ending rest)
  | .branch condition consequence none, rest =>
    margin indent :: headed "if" condition
      (Stmt.bitsAll (indent + 1) consequence (closing indent (newline :: rest)))
  | .branch condition consequence (some alternative), rest =>
    margin indent :: headed "if" condition
      (Stmt.bitsAll (indent + 1) consequence (closing indent
        (space :: word "else".toList :: space :: opening
          (Stmt.bitsAll (indent + 1) alternative (closing indent (newline :: rest))))))
  | .loop condition body, rest =>
    margin indent :: headed "while" condition
      (Stmt.bitsAll (indent + 1) body (closing indent (newline :: rest)))
  | .switch subject cases, rest =>
    margin indent :: headed "switch" subject
      (Stmt.bitsCases (indent + 1) cases (closing indent (newline :: rest)))
  | .routeCall name, rest =>
    margin indent :: word "route".toList :: sign .lParen :: word name.text :: sign .rParen
      :: ending rest
  | .drop, rest => margin indent :: word "drop".toList :: ending rest
  | .exit, rest => margin indent :: word "exit".toList :: ending rest
  | .back none, rest => margin indent :: word "return".toList :: ending rest
  | .back (some code), rest =>
    margin indent :: word "return".toList :: space :: Bit.number code :: ending rest
  | .comment text, rest => margin indent :: token .comment text.comment :: newline :: rest

def Stmt.bitsAll (indent : Nat) : List Stmt → List Bit → List Bit
  | [], rest => rest
  | s :: ss, rest => s.bits indent (Stmt.bitsAll indent ss rest)

def Stmt.bitsCases (indent : Nat) : List (Quotable × List Stmt) → List Bit → List Bit
  | [], rest => rest
  | (label, body) :: cases, rest =>
    margin indent :: word "case".toList :: space :: Bit.quotation label :: sign .colon :: newline
      :: Stmt.bitsAll (indent + 1) body (margin (indent + 1) :: word "break".toList
        :: ending (Stmt.bitsCases indent cases rest))

end

def Item.bits : Item → List Bit → List Bit
  | .parameter name value, rest =>
    word name.text :: sign .assign :: Bit.number value :: newline :: rest
  | .loadModule file, rest =>
    word "loadmodule".toList :: space :: Bit.quotation file :: newline :: rest
  | .modParam file key value, rest =>
    word "modparam".toList :: sign .lParen :: Bit.quotation file :: sign .comma :: space
      :: Bit.quotation key :: sign .comma :: space :: Bit.number value :: sign .rParen
      :: newline :: rest
  | .assign scope name value, rest =>
    scope.bits name (space :: sign .assign :: space :: value.bits (ending rest))
  | .route type none body, rest =>
    word type.word.toList :: space
      :: opening (Stmt.bitsAll 1 body (closing 0 (newline :: rest)))
  | .route type (some name) body, rest =>
    word type.word.toList :: sign .lBracket :: word name.text :: sign .rBracket :: space
      :: opening (Stmt.bitsAll 1 body (closing 0 (newline :: rest)))

@[simp] theorem Scope.textOf_bits (scope : Scope) (name : Name) (rest : List Bit) :
    textOf (scope.bits name rest) = scope.code name ++ textOf rest := by
  simp [Scope.bits, Scope.code, Token.Kind.spelling?]

mutual

@[simp] theorem Expr.textOf_bits : ∀ (e : Expr) (rest : List Bit),
    textOf (e.bits rest) = e.code ++ textOf rest
  | .number _, _ => rfl
  | .string _, _ => rfl
  | .userVariable scope name, rest => scope.textOf_bits name rest
  | .builtin name none, rest => by simp [Expr.bits, Expr.code, Token.Kind.spelling?]
  | .builtin name (some argument), rest => by simp [Expr.bits, Expr.code, Token.Kind.spelling?]
  | .binary left operator right, rest => by
    simp [Expr.bits, Expr.code, Operator.code, Token.Kind.spelling?, left.textOf_bits,
      right.textOf_bits]
  | .call function arguments, rest => by
    simp [Expr.bits, Expr.code, Token.Kind.spelling?, Expr.textOf_bitsAll arguments]

@[simp] theorem Expr.textOf_bitsAll : ∀ (es : List Expr) (rest : List Bit),
    textOf (Expr.bitsAll es rest) = Expr.codeAll es ++ textOf rest
  | [], _ => rfl
  | [e], rest => e.textOf_bits rest
  | e :: e' :: es, rest => by
    simp [Expr.bitsAll, Expr.codeAll, Token.Kind.spelling?, e.textOf_bits,
      Expr.textOf_bitsAll (e' :: es)]

end

@[simp] theorem textOf_ending (rest : List Bit) :
    textOf (ending rest) = ";\n".toList ++ textOf rest := by
  simp [ending, Token.Kind.spelling?]

@[simp] theorem textOf_headed (text : String) (condition : Expr) (rest : List Bit) :
    textOf (headed text condition rest)
      = text.toList ++ " (".toList ++ condition.code ++ ") \x7b\n".toList ++ textOf rest := by
  simp [headed, opening, Token.Kind.spelling?]

@[simp] theorem textOf_closing (indent : Nat) (rest : List Bit) :
    textOf (closing indent rest) = tabs indent ++ '}' :: textOf rest := by
  simp [closing, Token.Kind.spelling?]

mutual

@[simp] theorem Stmt.textOf_bits (indent : Nat) : ∀ (s : Stmt) (rest : List Bit),
    textOf (s.bits indent rest) = s.code indent ++ textOf rest
  | .assign scope name value, rest => by simp [Stmt.bits, Stmt.code, Token.Kind.spelling?]
  | .call function arguments, rest => by
    simp [Stmt.bits, Stmt.code, Expr.code, Token.Kind.spelling?]
  | .branch condition consequence none, rest => by
    simp [Stmt.bits, Stmt.code, braces, Stmt.textOf_bitsAll (indent + 1) consequence]
  | .branch condition consequence (some alternative), rest => by
    simp [Stmt.bits, Stmt.code, braces, opening, Token.Kind.spelling?,
      Stmt.textOf_bitsAll (indent + 1) consequence, Stmt.textOf_bitsAll (indent + 1) alternative]
  | .loop condition body, rest => by
    simp [Stmt.bits, Stmt.code, braces, Stmt.textOf_bitsAll (indent + 1) body]
  | .switch subject cases, rest => by
    simp [Stmt.bits, Stmt.code, braces, Stmt.textOf_bitsCases (indent + 1) cases]
  | .routeCall name, rest => by simp [Stmt.bits, Stmt.code, Token.Kind.spelling?]
  | .drop, rest => by simp [Stmt.bits, Stmt.code]
  | .exit, rest => by simp [Stmt.bits, Stmt.code]
  | .back none, rest => by simp [Stmt.bits, Stmt.code]
  | .back (some code), rest => by simp [Stmt.bits, Stmt.code]
  | .comment text, rest => by simp [Stmt.bits, Stmt.code]

@[simp] theorem Stmt.textOf_bitsAll (indent : Nat) : ∀ (ss : List Stmt) (rest : List Bit),
    textOf (Stmt.bitsAll indent ss rest) = Stmt.codeAll indent ss ++ textOf rest
  | [], _ => rfl
  | s :: ss, rest => by
    simp [Stmt.bitsAll, Stmt.codeAll, s.textOf_bits indent, Stmt.textOf_bitsAll indent ss]

@[simp] theorem Stmt.textOf_bitsCases (indent : Nat) :
    ∀ (cases : List (Quotable × List Stmt)) (rest : List Bit),
      textOf (Stmt.bitsCases indent cases rest) = Stmt.codeCases indent cases ++ textOf rest
  | [], _ => rfl
  | (label, body) :: cases, rest => by
    simp [Stmt.bitsCases, Stmt.codeCases, Token.Kind.spelling?,
      Stmt.textOf_bitsAll (indent + 1) body, Stmt.textOf_bitsCases indent cases]

end

@[simp] theorem Item.textOf_bits (i : Item) (rest : List Bit) :
    textOf (i.bits rest) = i.code ++ textOf rest := by
  unfold Item.code
  cases i with
  | parameter name value => simp [Item.bits, Token.Kind.spelling?]
  | loadModule file => simp [Item.bits]
  | modParam file key value => simp [Item.bits, Token.Kind.spelling?]
  | assign scope name value => simp [Item.bits, Token.Kind.spelling?]
  | route type name body =>
    cases name with
    | none => simp [Item.bits, brackets, opening, braces, Token.Kind.spelling?]
    | some name => simp [Item.bits, brackets, opening, braces, Token.Kind.spelling?]

/-- The bits of a whole script. -/
def bits (p : Program) : List Bit := p.items.foldr Item.bits []

theorem textOf_bits (p : Program) : textOf p.bits = p.code := by
  unfold bits code
  induction p.items with
  | nil => rfl
  | cons i items ih => simp [ih]

end Program

end RouteScript
