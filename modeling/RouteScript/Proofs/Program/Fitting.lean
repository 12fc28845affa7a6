import RouteScript.Proofs.Program.Printed
/-!
# Where printed tokens end

Every token of a printed program ends before the text behind it, so scanning the program finds its
bits again.
-/
namespace RouteScript

namespace Bit

open Token.Lexeme

/-- A word or number in front of this text does not go on in it. -/
def Apart (text : List Char) : Prop := ∀ c, text.head? = some c → isWordChar c = false

@[simp] theorem apart_cons {c : Char} {text : List Char} :
    Apart (c :: text) ↔ isWordChar c = false := by
  simp [Apart]

theorem runLength_append {p : Char → Bool} {run rest : List Char} (all : run.all p)
    (stop : ∀ c, rest.head? = some c → p c = false) : runLength p (run ++ rest) = run.length := by
  have behind : rest.takeWhile p = [] := by
    cases rest with
    | nil => rfl
    | cons c rest => simp [stop c rfl]
  rw [runLength, List.takeWhile_append_of_pos (List.all_eq_true.1 all), behind, List.append_nil]

theorem scan_wordChar {c : Char} (h : isWordChar c) (lineStart : Bool) (rest : List Char) :
    scan lineStart c rest = if c.isDigit then (.number, numberLength (c :: rest))
      else (.identifier, runLength isWordChar (c :: rest)) := by
  have bang : c ≠ '!' := by rintro rfl; contradiction
  have quote : c ≠ '"' := by rintro rfl; contradiction
  have apostrophe : c ≠ '\'' := by rintro rfl; contradiction
  unfold scan
  split
  · contradiction
  · contradiction
  · contradiction
  · contradiction
  · simp [bang, quote, apostrophe, h]

theorem isGap_wordChar {c : Char} (h : isWordChar c) : Token.Scan.isGap c = false := by
  by_contra gap
  simp only [Token.Scan.isGap, Bool.not_eq_false, Bool.or_eq_true, decide_eq_true_eq] at gap
  rcases gap with (((rfl | rfl) | rfl) | rfl) | rfl <;> contradiction

theorem numberLength_append {digits rest : List Char} (all : digits.all Char.isDigit)
    (apart : Apart rest) : numberLength (digits ++ rest) = digits.length := by
  have stop (c : Char) (h : rest.head? = some c) : c.isDigit = false := by
    by_contra digit
    have := apart c h
    rw [isWordChar_of_isDigit (by simpa using digit)] at this
    contradiction
  have noPrefix {x : Char} (letter : isWordChar x ∧ x.isDigit = false) (more : List Char) :
      digits ++ rest ≠ '0' :: x :: more := by
    intro eq
    match digits, all, eq with
    | [], _, eq =>
      have := apart '0' (by simp [show rest = '0' :: x :: more from eq])
      contradiction
    | [d], _, eq =>
      have := apart x (by simp [show rest = x :: more from (List.cons.inj eq).2])
      simp [letter.1] at this
    | d :: d' :: digits, all, eq =>
      obtain ⟨rfl, -⟩ := List.cons.inj (List.cons.inj eq).2
      simp [letter.2] at all
  unfold numberLength
  split
  · rename_i eq
    exact absurd eq (noPrefix (by decide) _)
  · rename_i eq
    exact absurd eq (noPrefix (by decide) _)
  · exact runLength_append all stop

theorem blockLength_append {text : List Char} (inside : ¬ ['*', '/'] <:+: text)
    (rest : List Char) :
    blockLength (text ++ ' ' :: '*' :: '/' :: rest) = text.length + 3 := by
  induction text with
  | nil => rfl
  | cons c text ih =>
    have later : ¬ ['*', '/'] <:+: text := fun there =>
      inside (there.trans (text.suffix_cons c).isInfix)
    have open' (more : List Char) : c :: (text ++ ' ' :: '*' :: '/' :: rest) ≠ '*' :: '/' :: more := by
      intro eq
      obtain ⟨rfl, tail⟩ := List.cons.inj eq
      cases text with
      | nil => simp at tail
      | cons d text =>
        obtain rfl : d = '/' := (List.cons.inj tail).1
        exact inside ⟨[], text, rfl⟩
    rw [List.cons_append, blockLength, ih later]
    · rw [List.length_cons]
      omega
    · rintro more rfl eq
      exact open' more (by rw [eq])

theorem stringLength_append {text : List Char}
    (plain : text.all fun c => c ≠ '"' && c ≠ '\\' && c ≠ '\n') (rest : List Char) :
    stringLength '"' (text ++ '"' :: rest) = (true, text.length + 1) := by
  induction text with
  | nil => rfl
  | cons c text ih =>
    simp only [List.all_cons, Bool.and_eq_true, decide_eq_true_eq] at plain
    obtain ⟨⟨⟨quote, backslash⟩, line⟩, others⟩ := plain
    rw [List.cons_append, stringLength, if_neg line, if_neg quote, ih (by simpa using others)]
    · rw [List.length_cons, Nat.add_comm 1]
    · rintro d more rfl
      contradiction

section Fits

variable {behind : List Char}

theorem fits_word {text : List Char} (starts : text.head?.any fun c => !c.isDigit)
    (wordChars : text.all isWordChar) (apart : Apart behind) : (word text).Fits behind := by
  cases text with
  | nil => contradiction
  | cons c text =>
    have noDigit : c.isDigit = false := by simpa using starts
    have wordChar : isWordChar c := List.all_eq_true.1 wordChars c (by simp)
    refine ⟨c, text, rfl, isGap_wordChar wordChar, fun lineStart => ?_⟩
    rw [scan_wordChar wordChar, noDigit, ← List.cons_append, runLength_append wordChars apart]
    rfl

theorem fits_name (name : Program.Name) (apart : Apart behind) : (word name.text).Fits behind :=
  fits_word name.starts name.wordChars apart

theorem fits_number (value : Nat) (apart : Apart behind) : (number value).Fits behind := by
  have all : (Program.digits value).all Char.isDigit :=
    List.all_eq_true.2 fun c hc => Nat.isDigit_of_mem_toDigits (by decide) (by decide) hc
  have nonempty : Program.digits value ≠ [] := Nat.toDigits_ne_nil
  obtain ⟨c, text, eq⟩ := List.exists_cons_of_ne_nil nonempty
  have digit : c.isDigit := List.all_eq_true.1 all c (by simp [eq])
  have wordChar := isWordChar_of_isDigit digit
  refine ⟨c, text, eq, isGap_wordChar wordChar, fun lineStart => ?_⟩
  rw [scan_wordChar wordChar, digit, ← List.cons_append, ← eq, numberLength_append all apart]
  rfl

theorem fits_quotation (value : Program.Quotable) : (quotation value).Fits behind := by
  refine ⟨'"', value.text ++ ['"'], rfl, rfl, fun lineStart => ?_⟩
  have closes := stringLength_append value.plain behind
  unfold scan
  split
  · contradiction
  · contradiction
  · contradiction
  · contradiction
  · simp [closes, Program.Quotable.quoted]
    omega

theorem fits_comment (text : Program.Remark) : (token .comment text.comment).Fits behind := by
  refine ⟨'/', '*' :: ' ' :: (text.text ++ " */".toList), ?_, rfl, fun lineStart => ?_⟩
  · simp [Program.Remark.comment]
  · have closes := blockLength_append text.inside behind
    have whole : text.text ++ " */".toList ++ behind = text.text ++ ' ' :: '*' :: '/' :: behind := by
      simp
    change (Token.Kind.comment, 2 + blockLength (' ' :: (text.text ++ " */".toList ++ behind))) = _
    rw [whole, blockLength, closes]
    · simp [Program.Remark.comment]
      omega
    · simp

/-- Signs that no character behind them changes. -/
def isClosed : Token.Kind → Bool
  | .dollar | .lParen | .rParen | .lBrace | .rBrace | .lBracket | .rBracket | .semicolon | .comma
  | .colon => true
  | _ => false

theorem fits_closed {kind : Token.Kind} (closed : isClosed kind) : (sign kind).Fits behind := by
  cases kind <;> first
    | contradiction
    | exact ⟨_, _, rfl, rfl, fun lineStart => by cases lineStart <;> cases behind <;> rfl⟩

theorem fits_spaced {kind : Token.Kind} (h : (Script.precedence? kind).isSome ∨ kind = .assign) :
    (sign kind).Fits (' ' :: behind) := by
  cases kind <;> first
    | (rcases h with h | h <;> contradiction)
    | exact ⟨_, _, rfl, rfl, fun lineStart => by cases lineStart <;> rfl⟩

/-- An equals sign right before a number. -/
theorem fits_assign (value : Nat) : (sign .assign).Fits (Program.digits value ++ behind) := by
  obtain ⟨c, text, eq⟩ := List.exists_cons_of_ne_nil (Nat.toDigits_ne_nil (n := value) (b := 10))
  have member : c ∈ Program.digits value := by simp [Program.digits, eq]
  have digit : c.isDigit := Nat.isDigit_of_mem_toDigits (by decide) (by decide) member
  have single : pair? '=' c = none := by
    unfold pair?
    split <;> first | rfl | contradiction
  refine ⟨'=', [], rfl, rfl, fun lineStart => ?_⟩
  have scanned : scan lineStart '=' (c :: (text ++ behind))
      = punctuation '=' (c :: (text ++ behind)) := by cases lineStart <;> rfl
  rw [Program.digits, eq, List.nil_append, List.cons_append, scanned]
  simp [punctuation, single, Token.Lexeme.single, Token.Kind.spelling?]

theorem fits_space : space.Fits behind := by simp [space, Fits, Token.Scan.isGap]

theorem fits_newline : newline.Fits behind := by simp [newline, Fits, Token.Scan.isGap]

theorem fits_margin (indent : Nat) : (margin indent).Fits behind := by
  intro c hc
  rw [List.eq_of_mem_replicate hc]
  rfl

theorem apart_sign {kind : Token.Kind} (known : kind.spelling?.isSome) (rest : List Bit) :
    Apart (textOf (sign kind :: rest)) := by
  cases kind <;> first
    | contradiction
    | exact apart_cons.2 rfl

theorem apart_space (rest : List Bit) : Apart (textOf (space :: rest)) := apart_cons.2 rfl

theorem apart_newline (rest : List Bit) : Apart (textOf (newline :: rest)) := apart_cons.2 rfl

end Fits

end Bit


namespace Program

open Bit

variable {rest : List Bit}

theorem Scope.allFit (scope : Scope) (name : Name) (h : AllFit rest) :
    AllFit (scope.bits name rest) := by
  have known : (Bit.word scope.word.toList).Fits
      (textOf (sign .lParen :: Bit.word name.text :: sign .rParen :: rest)) := by
    cases scope <;> exact fits_word rfl rfl (apart_sign rfl _)
  exact ⟨fits_closed rfl, known, fits_closed rfl, fits_name name (apart_sign rfl _),
    fits_closed rfl, h⟩

mutual

theorem Expr.allFit : ∀ (e : Expr) {rest : List Bit}, AllFit rest → Apart (textOf rest) →
    AllFit (e.bits rest)
  | .number value, _, h, apart => ⟨fits_number value apart, h⟩
  | .string value, _, h, _ => ⟨fits_quotation value, h⟩
  | .userVariable scope name, _, h, _ => scope.allFit name h
  | .builtin name none, _, h, apart => ⟨fits_closed rfl, fits_name name apart, h⟩
  | .builtin name (some argument), _, h, _ =>
    ⟨fits_closed rfl, fits_name name (apart_sign rfl _), fits_closed rfl,
      fits_name argument (apart_sign rfl _), fits_closed rfl, h⟩
  | .binary left operator right, rest, h, _ => by
    have behind : AllFit (right.bits (sign .rParen :: rest)) :=
      right.allFit ⟨fits_closed rfl, h⟩ (apart_sign rfl _)
    have operated : AllFit (space :: sign operator.kind :: space
        :: right.bits (sign .rParen :: rest)) :=
      ⟨fits_space, fits_spaced (.inl operator.binary),
        fits_space, behind⟩
    exact ⟨fits_closed rfl, left.allFit operated (apart_space _)⟩
  | .call function arguments, rest, h, _ =>
    ⟨fits_name function (apart_sign rfl _), fits_closed rfl,
      Expr.allFit_all arguments ⟨fits_closed rfl, h⟩ (apart_sign rfl _)⟩

theorem Expr.allFit_all : ∀ (es : List Expr) {rest : List Bit}, AllFit rest →
    Apart (textOf rest) → AllFit (Expr.bitsAll es rest)
  | [], _, h, _ => h
  | [e], _, h, apart => e.allFit h apart
  | e :: e' :: es, _, h, apart =>
    e.allFit ⟨fits_closed rfl, fits_space,
      Expr.allFit_all (e' :: es) h apart⟩ (apart_sign rfl _)

end

theorem allFit_ending (h : AllFit rest) : AllFit (ending rest) := ⟨fits_closed rfl, fits_newline, h⟩

theorem allFit_opening (h : AllFit rest) : AllFit (opening rest) :=
  ⟨fits_closed rfl, fits_newline, h⟩

theorem allFit_closing (indent : Nat) (h : AllFit rest) : AllFit (closing indent rest) :=
  ⟨fits_margin indent, fits_closed rfl, h⟩

theorem allFit_headed {text : String} (starts : text.toList.head?.any fun c => !c.isDigit)
    (wordChars : text.toList.all Token.Lexeme.isWordChar) (condition : Expr) (h : AllFit rest) :
    AllFit (headed text condition rest) :=
  ⟨fits_word starts wordChars (apart_space _), fits_space, fits_closed rfl,
    condition.allFit ⟨fits_closed rfl, fits_space, allFit_opening h⟩ (apart_sign rfl _)⟩

theorem allFit_assignment (scope : Scope) (name : Name) (value : Expr) (h : AllFit rest) :
    AllFit (scope.bits name (space :: sign .assign :: space :: value.bits (ending rest))) :=
  scope.allFit name ⟨fits_space, fits_spaced (.inr rfl), fits_space,
    value.allFit (allFit_ending h) (apart_sign rfl _)⟩

mutual

theorem Stmt.allFit (indent : Nat) : ∀ (s : Stmt) {rest : List Bit}, AllFit rest →
    AllFit (s.bits indent rest)
  | .assign scope name value, _, h => ⟨fits_margin indent, allFit_assignment scope name value h⟩
  | .call function arguments, _, h =>
    ⟨fits_margin indent, fits_name function (apart_sign rfl _), fits_closed rfl,
      Expr.allFit_all arguments ⟨fits_closed rfl, allFit_ending h⟩ (apart_sign rfl _)⟩
  | .branch condition consequence none, _, h =>
    ⟨fits_margin indent, allFit_headed rfl rfl condition
      (Stmt.allFit_all (indent + 1) consequence (allFit_closing indent ⟨fits_newline, h⟩))⟩
  | .branch condition consequence (some alternative), rest, h => by
    have second : AllFit (space :: word "else".toList :: space :: opening
        (Stmt.bitsAll (indent + 1) alternative (closing indent (newline :: rest)))) :=
      ⟨fits_space, fits_word rfl rfl (apart_space _), fits_space, allFit_opening
        (Stmt.allFit_all (indent + 1) alternative (allFit_closing indent ⟨fits_newline, h⟩))⟩
    exact ⟨fits_margin indent, allFit_headed rfl rfl condition
      (Stmt.allFit_all (indent + 1) consequence (allFit_closing indent second))⟩
  | .loop condition body, _, h =>
    ⟨fits_margin indent, allFit_headed rfl rfl condition
      (Stmt.allFit_all (indent + 1) body (allFit_closing indent ⟨fits_newline, h⟩))⟩
  | .switch subject cases, _, h =>
    ⟨fits_margin indent, allFit_headed rfl rfl subject
      (Stmt.allFit_cases (indent + 1) cases (allFit_closing indent ⟨fits_newline, h⟩))⟩
  | .routeCall name, _, h =>
    ⟨fits_margin indent, fits_word rfl rfl (apart_sign rfl _), fits_closed rfl,
      fits_name name (apart_sign rfl _), fits_closed rfl, allFit_ending h⟩
  | .drop, _, h => ⟨fits_margin indent, fits_word rfl rfl (apart_sign rfl _), allFit_ending h⟩
  | .exit, _, h => ⟨fits_margin indent, fits_word rfl rfl (apart_sign rfl _), allFit_ending h⟩
  | .back none, _, h => ⟨fits_margin indent, fits_word rfl rfl (apart_sign rfl _), allFit_ending h⟩
  | .back (some code), _, h =>
    ⟨fits_margin indent, fits_word rfl rfl (apart_space _), fits_space,
      fits_number code (apart_sign rfl _), allFit_ending h⟩
  | .comment text, _, h => ⟨fits_margin indent, fits_comment text, fits_newline, h⟩

theorem Stmt.allFit_all (indent : Nat) : ∀ (ss : List Stmt) {rest : List Bit}, AllFit rest →
    AllFit (Stmt.bitsAll indent ss rest)
  | [], _, h => h
  | s :: ss, _, h => s.allFit indent (Stmt.allFit_all indent ss h)

theorem Stmt.allFit_cases (indent : Nat) : ∀ (cases : List (Quotable × List Stmt))
    {rest : List Bit}, AllFit rest → AllFit (Stmt.bitsCases indent cases rest)
  | [], _, h => h
  | (label, body) :: cases, rest, h => by
    have others := allFit_ending (Stmt.allFit_cases indent cases h)
    have stops : AllFit (margin (indent + 1) :: word "break".toList
        :: ending (Stmt.bitsCases indent cases rest)) :=
      ⟨fits_margin _, fits_word rfl rfl (apart_sign rfl _), others⟩
    exact ⟨fits_margin indent, fits_word rfl rfl (apart_space _), fits_space, fits_quotation label,
      fits_closed rfl, fits_newline, Stmt.allFit_all (indent + 1) body stops⟩

end

theorem RouteType.fits (type : RouteType) {behind : List Char} (apart : Apart behind) :
    (Bit.word type.word.toList).Fits behind := by
  obtain ⟨text, known⟩ := type
  have plain : ∀ w ∈ Vocabulary.routeTypes, w.toList.head?.any (fun c => !c.isDigit)
      ∧ w.toList.all Token.Lexeme.isWordChar := by decide
  exact fits_word (plain text known).1 (plain text known).2 apart

theorem Item.allFit (i : Item) (h : AllFit rest) : AllFit (i.bits rest) := by
  cases i with
  | parameter name value =>
    have equals : (sign .assign).Fits (textOf (Bit.number value :: newline :: rest)) :=
      fits_assign value
    exact ⟨fits_name name (apart_sign rfl _), equals, fits_number value (apart_newline _),
      fits_newline, h⟩
  | loadModule file =>
    exact ⟨fits_word rfl rfl (apart_space _), fits_space, fits_quotation file, fits_newline, h⟩
  | modParam file key value =>
    exact ⟨fits_word rfl rfl (apart_sign rfl _), fits_closed rfl, fits_quotation file,
      fits_closed rfl, fits_space, fits_quotation key, fits_closed rfl, fits_space,
      fits_number value (apart_sign rfl _), fits_closed rfl, fits_newline, h⟩
  | assign scope name value => exact allFit_assignment scope name value h
  | route type name body =>
    have block : AllFit (opening (Stmt.bitsAll 1 body (closing 0 (newline :: rest)))) :=
      allFit_opening (Stmt.allFit_all 1 body (allFit_closing 0 ⟨fits_newline, h⟩))
    cases name with
    | none => exact ⟨type.fits (apart_space _), fits_space, block⟩
    | some name =>
      exact ⟨type.fits (apart_sign rfl _), fits_closed rfl, fits_name name (apart_sign rfl _),
        fits_closed rfl, fits_space, block⟩

theorem allFit_bits (p : Program) : AllFit p.bits := by
  unfold bits
  induction p.items with
  | nil => trivial
  | cons i items ih => exact i.allFit ih

/-- Readers see the tokens of a printed program as its bits tell. -/
theorem looks_code (p : Program) :
    Token.looks none ((Token.all p.code).filter Token.isSignificant) = looks true false p.bits := by
  rw [← p.textOf_bits]
  exact looks_all p.allFit_bits

end Program

end RouteScript
