import RouteScript.Proofs.Format.Breaks
import RouteScript.Proofs.Program.Fitting
/-!
# Shapes of tokens

`Shape` says what a token is made of: a case for each way to start one, with its kind and length. A
scan finds the one shape that stands at the head of a text. A token keeps its shape when the text
behind it is taken away, and when a line break is put there instead, unless it only ended with the
text. So no token depends on what stood around it: written one to a line, the tokens of a text are
read again as they are, comments and directives among them.
-/
namespace RouteScript.Token.Lexeme

/-- What a token that starts with `c` is made of when `rest` stands behind that character. -/
inductive Shape (lineStart : Bool) : Char → List Char → Kind → Nat → Prop
  | block (body : List Char) : Shape lineStart '/' ('*' :: body) .comment (2 + blockLength body)
  | line (body : List Char) :
      Shape lineStart '/' ('/' :: body) .comment (lineLength ('/' :: '/' :: body))
  | directive {c : Char} (opens : c = '#' ∨ lineStart ∧ c = '!') (body : List Char) :
      Shape lineStart c ('!' :: body) .directive (directiveLength false (c :: '!' :: body))
  | hash {rest : List Char} (other : rest.head? ≠ some '!') :
      Shape lineStart '#' rest .deprecatedComment (lineLength ('#' :: rest))
  | string {quote : Char} (isQuote : quote = '"' ∨ quote = '\'') (rest : List Char) :
      Shape lineStart quote rest
        (if (stringLength quote rest).1 then .string else .unterminatedString)
        (1 + (stringLength quote rest).2)
  | number {c : Char} (digit : c.isDigit) (rest : List Char) :
      Shape lineStart c rest .number (numberLength (c :: rest))
  | word {c : Char} (noDigit : c.isDigit = false) (word : isWordChar c) (rest : List Char) :
      Shape lineStart c rest .identifier (runLength isWordChar (c :: rest))
  | mark {c : Char} {rest : List Char} (noHash : c ≠ '#')
      (noComment : c = '/' → rest.head? ≠ some '*' ∧ rest.head? ≠ some '/')
      (noDirective : lineStart → c = '!' → rest.head? ≠ some '!')
      (noQuote : c ≠ '"' ∧ c ≠ '\'') (noWord : isWordChar c = false) :
      Shape lineStart c rest (punctuation c rest).1 (punctuation c rest).2

section Shape

variable {lineStart : Bool} {c : Char} {rest : List Char} {kind : Kind} {n : Nat}

theorem shape_of_scan (scanned : scan lineStart c rest = (kind, n)) :
    Shape lineStart c rest kind n := by
  unfold scan at scanned
  split at scanned
  · cases scanned
    exact .block _
  · cases scanned
    exact .line _
  · cases scanned
    exact .directive (.inl rfl) _
  · rename_i noBang
    cases scanned
    refine .hash fun bang => ?_
    obtain ⟨body, rfl⟩ := List.head?_eq_some_iff.1 bang
    exact noBang body rfl
  · rename_i noHash noBlock noLine _
    split at scanned
    · rename_i opens
      simp only [Bool.and_eq_true, decide_eq_true_eq] at opens
      obtain ⟨body, rfl⟩ := List.head?_eq_some_iff.1 opens.2
      cases scanned
      exact .directive (.inr opens.1) body
    · rename_i noDirective
      split at scanned
      · rename_i quote
        cases scanned
        exact .string (by simpa using quote) rest
      · rename_i noQuote
        split at scanned
        · rename_i digit
          cases scanned
          exact .number digit rest
        · rename_i noDigit
          split at scanned
          · rename_i word
            cases scanned
            exact .word (by simpa using noDigit) word rest
          · rename_i noWord
            obtain ⟨rfl, rfl⟩ := Prod.ext_iff.1 scanned
            refine .mark noHash (fun slash => ⟨fun star => ?_, fun slash' => ?_⟩) ?_
              (by simpa using noQuote) (by simpa using noWord)
            · obtain ⟨body, rfl⟩ := List.head?_eq_some_iff.1 star
              exact noBlock body slash rfl
            · obtain ⟨body, rfl⟩ := List.head?_eq_some_iff.1 slash'
              exact noLine body slash rfl
            · simpa using noDirective

theorem Shape.scan (h : Shape lineStart c rest kind n) : scan lineStart c rest = (kind, n) := by
  cases h with
  | block => rfl
  | line => rfl
  | directive opens body =>
    rcases opens with rfl | ⟨here, rfl⟩
    · rfl
    · rw [scan_plain (by decide) (by simp), here]
      rfl
  | hash other =>
    unfold Lexeme.scan
    split <;> simp_all
  | string isQuote rest =>
    rcases isQuote with rfl | rfl <;> rw [scan_plain (by decide) (by simp)] <;> simp
  | number digit rest => rw [Bit.scan_wordChar (isWordChar_of_isDigit digit), if_pos digit]
  | word noDigit word rest => rw [Bit.scan_wordChar word, noDigit, if_neg Bool.false_ne_true]
  | mark noHash noComment noDirective noQuote noWord =>
    have noDigit : c.isDigit = false :=
      Bool.eq_false_iff.2 fun digit => absurd (isWordChar_of_isDigit digit) (by simp [noWord])
    rw [scan_plain noHash noComment, if_neg (by simpa using noDirective),
      if_neg (by simpa using noQuote), noDigit, noWord]
    rfl

theorem Shape.pos (h : Shape lineStart c rest kind n) : 0 < n := by
  have pos := scan_pos lineStart c rest
  rwa [h.scan] at pos

end Shape

/-- What may stand behind a token in place of a text: nothing, or a line break for any text. -/
def Replaces (tail behind : List Char) : Prop :=
  tail = [] ∨ behind ≠ [] ∧ ∃ more, tail = '\n' :: more

theorem Replaces.endsLine {tail behind : List Char} (h : Replaces tail behind) :
    EndsLine tail := by
  rcases h with rfl | ⟨_, more, rfl⟩
  · exact endsLine_nil
  · exact endsLine_newline more

section Cut

variable {tail : List Char}

/-- A visible character at the head of what was cut out stood there before. -/
theorem Severs.head_take (severs : Severs tail) {d : Char} (visible : Text.isBlank d = false)
    (brace : d ≠ '{') {rest : List Char} (k : Nat)
    (head : (rest.take k ++ tail).head? = some d) : rest.head? = some d := by
  rw [severs.head_append visible brace, List.head?_take] at head
  split at head
  · contradiction
  · exact head

theorem newline_notMem_take_lineLength (text : List Char) :
    '\n' ∉ text.take (lineLength text) := by
  rw [lineLength, ← List.prefix_iff_eq_take.1 (List.takeWhile_prefix _)]
  exact fun there => by simpa using List.mem_takeWhile_imp there

theorem lineLength_le (text : List Char) : lineLength text ≤ text.length :=
  (List.takeWhile_prefix _).length_le

theorem lineLength_cut (ends : EndsLine tail) (text : List Char) :
    lineLength (text.take (lineLength text) ++ tail) = lineLength text := by
  have stops : lineLength tail = 0 := by
    rcases ends.cases with rfl | ⟨more, rfl⟩ <;> rfl
  rw [lineLength_append (newline_notMem_take_lineLength text), stops, List.length_take,
    Nat.add_zero, Nat.min_eq_left (lineLength_le text)]

theorem lineLength_cons {c : Char} (other : c ≠ '\n') (rest : List Char) :
    lineLength (c :: rest) = lineLength rest + 1 := by
  simp [lineLength, other]

theorem blockLength_cut {text : List Char}
    (replaces : Replaces tail (text.drop (blockLength text))) :
    blockLength (text.take (blockLength text) ++ tail) = blockLength text := by
  induction text with
  | nil =>
    rcases replaces with rfl | ⟨some_text, _⟩
    · rfl
    · exact absurd rfl some_text
  | cons c rest ih =>
    by_cases mark : c = '*' ∧ rest.head? = some '/'
    · obtain ⟨rfl, head⟩ := mark
      obtain ⟨more, rfl⟩ := List.head?_eq_some_iff.1 head
      rfl
    · rw [blockLength_cons, if_neg mark, Nat.add_comm 1, List.drop_succ_cons] at replaces
      rw [blockLength_cons c rest, if_neg mark, Nat.add_comm 1, List.take_succ_cons,
        List.cons_append, blockLength_cons, if_neg, ih replaces, Nat.add_comm 1]
      -- behind the star stands what stood there before, or nothing did
      rintro ⟨rfl, head⟩
      cases rest with
      | nil =>
        rcases replaces with rfl | ⟨some_text, _⟩
        · contradiction
        · exact absurd rfl some_text
      | cons d rest =>
        have long : 0 < blockLength (d :: rest) := by
          rw [blockLength_cons]
          split <;> omega
        obtain ⟨k, length⟩ := Nat.exists_eq_succ_of_ne_zero (Nat.pos_iff_ne_zero.1 long)
        rw [length] at head
        exact mark ⟨rfl, head⟩

/-- A directive ends at the end of a line. -/
theorem endsLine_drop_directiveLength (escaped : Bool) (text : List Char) :
    EndsLine (text.drop (directiveLength escaped text)) := by
  induction text generalizing escaped with
  | nil => exact endsLine_nil
  | cons c rest ih =>
    unfold directiveLength
    split
    · rename_i newline
      split
      · simpa only [Nat.add_comm 1, List.drop_succ_cons] using ih false
      · exact newline ▸ endsLine_newline rest
    · simpa only [Nat.add_comm 1, List.drop_succ_cons] using ih _

theorem directiveLength_opening {c : Char} (opens : c = '#' ∨ c = '!') (body : List Char) :
    directiveLength false (c :: '!' :: body) = directiveLength false body + 2 := by
  rcases opens with rfl | rfl <;> simp [directiveLength] <;> omega

theorem directiveLength_cut {escaped : Bool} {text : List Char}
    (replaces : Replaces tail (text.drop (directiveLength escaped text))) :
    directiveLength escaped (text.take (directiveLength escaped text) ++ tail)
      = directiveLength escaped text := by
  induction text generalizing escaped with
  | nil =>
    rcases replaces with rfl | ⟨some_text, _⟩
    · rfl
    · exact absurd rfl some_text
  | cons c rest ih =>
    by_cases newline : c = '\n'
    · subst newline
      cases escaped with
      | false =>
        rcases replaces.endsLine.cases with rfl | ⟨more, rfl⟩ <;> rfl
      | true =>
        simp only [directiveLength, if_true, Nat.add_comm 1, List.drop_succ_cons] at replaces
        simp only [directiveLength, if_true, Nat.add_comm 1, List.take_succ_cons,
          List.cons_append, ih replaces]
    · simp only [directiveLength, if_neg newline, Nat.add_comm 1, List.drop_succ_cons] at replaces
      simp only [directiveLength, if_neg newline, Nat.add_comm 1, List.take_succ_cons,
        List.cons_append, ih replaces]

theorem stringLength_cut {quote : Char} (isQuote : quote = '"' ∨ quote = '\'')
    (ends : EndsLine tail) (text : List Char) :
    stringLength quote (text.take (stringLength quote text).2 ++ tail)
      = stringLength quote text := by
  have noBackslash : '\\' ≠ quote := by rcases isQuote with rfl | rfl <;> decide
  have stops : stringLength quote tail = (false, 0) := by
    rcases ends.cases with rfl | ⟨more, rfl⟩
    · rfl
    · rw [stringLength_plain (by decide), if_pos rfl]
  fun_induction stringLength quote text with
  | case1 => exact stops
  | case2 rest =>
    rcases ends.cases with rfl | ⟨more, rfl⟩ <;> simp [stringLength, noBackslash]
  | case3 c rest other ih =>
    rw [Nat.add_comm 2, List.take_succ_cons, List.take_succ_cons, List.cons_append,
      List.cons_append, stringLength_escape other, ih, Nat.add_comm 2]
  | case4 => exact stops
  | case5 rest noEscape other =>
    rw [List.take_succ_cons, List.cons_append, stringLength_plain noBackslash.symm, if_neg other,
      if_pos rfl]
  | case6 c rest noEscape other noQuote ih =>
    rw [Nat.add_comm 1, List.take_succ_cons, List.cons_append]
    by_cases backslash : c = '\\'
    · subst backslash
      cases rest with
      | nil => rcases ends.cases with rfl | ⟨more, rfl⟩ <;> simp [stringLength, noBackslash]
      | cons d rest => exact (noEscape d rest rfl rfl).elim
    · rw [stringLength_plain backslash, if_neg other, if_neg noQuote, ih, Nat.add_comm 1]

theorem runLength_cons {p : Char → Bool} {c : Char} (here : p c) (rest : List Char) :
    runLength p (c :: rest) = runLength p rest + 1 := by
  simp [runLength, here]

theorem take_runLength (p : Char → Bool) (text : List Char) :
    text.take (runLength p text) = text.takeWhile p :=
  (List.prefix_iff_eq_take.1 (List.takeWhile_prefix p)).symm

theorem runLength_cut {p : Char → Bool} (wordChars : ∀ c, p c → isWordChar c) (severs : Severs tail)
    (text : List Char) : runLength p (text.take (runLength p text) ++ tail) = runLength p text := by
  rw [runLength_severed severs wordChars, take_runLength, runLength, List.takeWhile_takeWhile]
  simp [runLength]

theorem numberLength_cut {c : Char} (digit : c.isDigit) (severs : Severs tail) (rest : List Char) :
    numberLength (c :: rest.take (numberLength (c :: rest) - 1) ++ tail)
      = numberLength (c :: rest) := by
  have digits := runLength_cut (fun c => isWordChar_of_isDigit) severs (c :: rest)
  rw [numberLength_severed severs digit]
  rw [runLength_severed severs (fun c => isWordChar_of_isDigit)] at digits
  cases rest with
  | nil => simp
  | cons d rest =>
    by_cases hexadecimal : c = '0' ∧ (d = 'x' ∨ d = 'X')
    · have hexDigits := runLength_cut (fun c => isWordChar_of_isHexDigit) severs rest
      rw [runLength_severed severs (fun c => isWordChar_of_isHexDigit)] at hexDigits
      obtain ⟨rfl, rfl | rfl⟩ := hexadecimal <;> simp [numberLength, Nat.add_comm 2, hexDigits]
    · rw [numberLength_decimal hexadecimal]
      obtain ⟨m, length⟩ := Nat.exists_eq_succ_of_ne_zero
        (Nat.pos_iff_ne_zero.1 (runLength_pos digit (d :: rest)))
      rw [length, List.take_succ_cons] at digits
      rw [length, Nat.succ_sub_one, ← digits]
      cases m with
      | zero =>
        unfold numberLength
        split <;> simp_all
      | succ m => exact numberLength_decimal hexadecimal _

theorem punctuation_cut (severs : Severs tail) (c : Char) (rest : List Char) :
    punctuation c (rest.take ((punctuation c rest).2 - 1) ++ tail) = punctuation c rest := by
  rw [punctuation_severed severs]
  cases known : rest.head?.bind (pair? c) with
  | none => simp [punctuation, known]
  | some kind =>
    obtain ⟨d, head, pair⟩ := Option.bind_eq_some_iff.1 known
    obtain ⟨behind, rfl⟩ := List.head?_eq_some_iff.1 head
    simp [punctuation, pair]

end Cut

/-- A token cut out of its text is the same token, on a line of its own or as the last one. -/
theorem Shape.again {lineStart : Bool} {c : Char} {rest tail : List Char} {kind : Kind} {n : Nat}
    (h : Shape lineStart c rest kind n) (replaces : Replaces tail ((c :: rest).drop n)) :
    Shape true c (rest.take (n - 1) ++ tail) kind n := by
  have ends := replaces.endsLine
  have severs := ends.margin.severs
  cases h with
  | block body =>
    rw [Nat.add_comm 2] at replaces ⊢
    have shape : Shape true _ _ _ _ := .block (body.take (blockLength body) ++ tail)
    rwa [blockLength_cut replaces, Nat.add_comm 2] at shape
  | line body =>
    have shape : Shape true _ _ _ _ := .line (body.take (lineLength body) ++ tail)
    rw [lineLength_cons (by decide), lineLength_cons (by decide)] at shape ⊢
    rwa [lineLength_cut ends] at shape
  | directive opens body =>
    have sign : c = '#' ∨ c = '!' := opens.imp id And.right
    rw [directiveLength_opening sign] at replaces ⊢
    have shape : Shape true _ _ _ _ := .directive (opens.imp id fun sign => ⟨rfl, sign.2⟩)
      (body.take (directiveLength false body) ++ tail)
    rwa [directiveLength_opening sign, directiveLength_cut replaces] at shape
  | hash other =>
    rw [lineLength_cons (by decide)] at replaces ⊢
    have shape : Shape true _ (rest.take (lineLength rest) ++ tail) _ _ :=
      .hash (mt (severs.head_take (by decide) (by decide) _) other)
    rwa [lineLength_cons (by decide), lineLength_cut ends] at shape
  | string isQuote rest =>
    have shape : Shape true _ _ _ _ := .string isQuote (rest.take (stringLength c rest).2 ++ tail)
    rw [stringLength_cut isQuote ends] at shape
    rwa [Nat.add_sub_cancel_left]
  | number digit rest =>
    have shape : Shape true _ _ _ _ :=
      .number digit (rest.take (numberLength (c :: rest) - 1) ++ tail)
    rwa [← List.cons_append, numberLength_cut digit severs] at shape
  | word noDigit word rest =>
    have length := runLength_cut (fun c word => word) severs (c :: rest)
    rw [runLength_cons word] at length ⊢
    have shape : Shape true _ _ _ _ :=
      .word noDigit word (rest.take (runLength isWordChar rest) ++ tail)
    rwa [← List.cons_append, ← List.take_succ_cons, length] at shape
  | mark noHash noComment noDirective noQuote noWord =>
    have shape : Shape true c (rest.take ((punctuation c rest).2 - 1) ++ tail) _ _ :=
      .mark noHash
        (fun slash => (noComment slash).imp (mt (severs.head_take (by decide) (by decide) _))
          (mt (severs.head_take (by decide) (by decide) _)))
        (fun _ bang head => ?_) noQuote noWord
    · rwa [punctuation_cut severs] at shape
    · -- of two exclamation marks that open no directive the first one is a token of its own
      subst bang
      have alone : (punctuation '!' rest).2 = 1 := by
        simp [punctuation, severs.head_take (by decide) (by decide) _ head, pair?]
      rw [alone] at head
      exact absurd (severs '!' head) (by decide)

end RouteScript.Token.Lexeme

namespace RouteScript.Token

/-- The texts of tokens, with a line break between each and the next. -/
def onLines (ts : List Token) : List Char := ['\n'].intercalate (ts.map text)

/-- What a token is, wherever it stands. -/
def content (t : Token) : Kind × List Char := (t.kind, t.text)

@[simp] theorem onLines_nil : onLines [] = [] := rfl

@[simp] theorem onLines_singleton (t : Token) : onLines [t] = t.text := by
  simp [onLines]

theorem onLines_cons (t u : Token) (us : List Token) :
    onLines (t :: u :: us) = t.text ++ '\n' :: onLines (u :: us) := by
  simp [onLines, List.intercalate]

/-- A token cut out of its text is read again, and then what stands behind it now. -/
theorem Scan.run_cut {lineStart : Bool} {c : Char} {rest tail : List Char} {kind : Kind} {n : Nat}
    (gap : isGap c = false) (scanned : Lexeme.scan lineStart c rest = (kind, n))
    (replaces : Lexeme.Replaces tail ((c :: rest).drop n)) (offset : Nat) (newline : Bool) :
    let t : Token := ⟨kind, (c :: rest).take n, offset, newline⟩
    run ⟨t.text ++ tail, offset, true, newline⟩ = t :: run (behind t tail) := by
  have shape := Lexeme.shape_of_scan scanned
  have again := (shape.again replaces).scan
  obtain ⟨k, rfl⟩ := Nat.exists_eq_succ_of_ne_zero (Nat.pos_iff_ne_zero.1 shape.pos)
  -- only a token at the end of its text may be shorter than was counted
  have parts : ((c :: rest).take (k + 1) ++ tail).take (k + 1) = (c :: rest).take (k + 1) ∧
      ((c :: rest).take (k + 1) ++ tail).drop (k + 1) = tail := by
    rcases replaces with rfl | ⟨more, _⟩
    · rw [List.append_nil, List.take_take, Nat.min_self]
      exact ⟨rfl, List.drop_eq_nil_of_le (List.length_take_le _ _)⟩
    · have long : ((c :: rest).take (k + 1)).length = k + 1 := by
        have := List.length_pos_iff.2 more
        rw [List.length_drop] at this
        rw [List.length_take]
        omega
      exact ⟨List.take_left' long, List.drop_left' long⟩
  rw [List.take_succ_cons, List.cons_append] at parts
  rw [Nat.succ_sub_one] at again
  simp only [List.take_succ_cons, List.cons_append]
  rw [run_token gap again, parts.1, parts.2]

/-- What is ahead of a scan is read again from its tokens, written one to a line. -/
theorem Scan.run_onLines (s : Scan) (offset : Nat) (newline : Bool) :
    (run ⟨onLines (run s), offset, true, newline⟩).map content = (run s).map content := by
  generalize left : s.rest.length = m
  induction m using Nat.strongRecOn generalizing s offset newline with
  | ind m ih =>
    subst left
    obtain ⟨text, place, lineStart, newline'⟩ := s
    cases text with
    | nil => rfl
    | cons c rest =>
      by_cases gap : isGap c
      · rw [run_gap gap]
        exact ih rest.length (Nat.lt_succ_self _) _ offset newline rfl
      · rw [Bool.not_eq_true] at gap
        cases scanned : Lexeme.scan lineStart c rest with
        | mk kind n =>
          have pos := (Lexeme.shape_of_scan scanned).pos
          rw [run_token gap scanned]
          set t : Token := ⟨kind, (c :: rest).take n, place, newline'⟩
          have shorter : (behind t ((c :: rest).drop n)).rest.length < (c :: rest).length := by
            simp only [behind, List.length_drop, List.length_cons]
            omega
          have same := ih _ shorter (behind t ((c :: rest).drop n))
          have first {tail : List Char} (replaces : Lexeme.Replaces tail ((c :: rest).drop n)) :
              run ⟨t.text ++ tail, offset, true, newline⟩ =
                ⟨kind, t.text, offset, newline⟩ ::
                  run (behind ⟨kind, t.text, offset, newline⟩ tail) :=
            run_cut gap scanned replaces offset newline
          cases later : run (behind t ((c :: rest).drop n)) with
          | nil =>
            rw [onLines_singleton, ← List.append_nil t.text, first (.inl rfl)]
            rfl
          | cons u us =>
            have more : (c :: rest).drop n ≠ [] := by
              intro nothing
              rw [nothing] at later
              exact absurd later (List.cons_ne_nil u us).symm
            rw [onLines_cons, first (.inr ⟨more, _, rfl⟩), behind, run_gap (by decide), ← later]
            exact congrArg₂ List.cons rfl (same _ _ rfl)

/-- The tokens of a text, written one to a line, are read again as they are. -/
theorem all_onLines (text : List Char) :
    (all (onLines (all text))).map content = (all text).map content :=
  Scan.run_onLines ⟨text, 0, true, true⟩ 0 true

end RouteScript.Token
