import RouteScript.Proofs.Cut
/-!
# Scanning loses nothing

Every token takes at least one character, so the tokens of a text cut the whole of it; only blanks
and line breaks stand between them.
-/
namespace RouteScript.Token

namespace Lexeme

theorem isWordChar_of_isDigit {c : Char} (h : c.isDigit) : isWordChar c := by
  simp [isWordChar, Char.isAlphanum, h]

theorem runLength_pos {p : Char → Bool} {c : Char} (h : p c) (rest : List Char) :
    0 < runLength p (c :: rest) := by
  simp [runLength, h]

theorem lineLength_pos {c : Char} (h : c ≠ '\n') (rest : List Char) :
    0 < lineLength (c :: rest) := by
  simp [lineLength, h]

theorem directiveLength_pos {c : Char} (h : c ≠ '\n') (escaped : Bool) (rest : List Char) :
    0 < directiveLength escaped (c :: rest) := by
  simp only [directiveLength, h, if_false]
  omega

theorem numberLength_pos {c : Char} (h : c.isDigit) (rest : List Char) :
    0 < numberLength (c :: rest) := by
  unfold numberLength
  split
  · omega
  · omega
  · exact runLength_pos h rest

theorem punctuation_pos (c : Char) (rest : List Char) : 0 < (punctuation c rest).2 := by
  unfold punctuation
  split <;> simp

theorem punctuation_significant (c : Char) (rest : List Char) :
    (punctuation c rest).1.isTrivia = false := by
  unfold punctuation
  split
  · rename_i pair
    obtain ⟨d, _, pair⟩ := Option.bind_eq_some_iff.1 pair
    unfold pair? at pair
    split at pair <;> cases pair <;> rfl
  · unfold single
    split <;> rfl

theorem scan_pos (lineStart : Bool) (c : Char) (rest : List Char) :
    0 < (scan lineStart c rest).2 := by
  unfold scan
  split
  · exact Nat.lt_of_lt_of_le Nat.two_pos (Nat.le_add_right _ _)
  · exact lineLength_pos (c := '/') (by decide) _
  · exact directiveLength_pos (c := '#') (by decide) _ _
  · exact lineLength_pos (c := '#') (by decide) _
  · split
    · rename_i bang
      have : c = '!' := by simp_all
      exact directiveLength_pos (by simp [this]) _ _
    · split
      · exact Nat.lt_of_lt_of_le Nat.one_pos (Nat.le_add_right _ _)
      · split
        · rename_i digit
          exact numberLength_pos digit rest
        · split
          · rename_i word
            exact runLength_pos word rest
          · exact punctuation_pos c rest

end Lexeme

namespace Scan

theorem token_text (s : Scan) (c : Char) (rest : List Char) :
    (s.token c rest).text ≠ [] ∧ ∃ n, (s.token c rest).text = (c :: rest).take n := by
  have pos := Lexeme.scan_pos s.lineStart c rest
  refine ⟨?_, _, rfl⟩
  simp only [token, ne_eq, List.take_eq_nil_iff, reduceCtorEq, or_false]
  omega

/-- A token and what is left behind it are the text. -/
theorem token_append_drop (s : Scan) (c : Char) (rest : List Char) :
    (s.token c rest).text ++ (c :: rest).drop (s.token c rest).text.length = c :: rest := by
  obtain ⟨_, n, taken⟩ := s.token_text c rest
  rw [taken, List.length_take]
  rcases Nat.le_total n (c :: rest).length with le | le
  · rw [Nat.min_eq_left le, List.take_append_drop]
  · rw [Nat.min_eq_right le, List.take_of_length_le le, List.drop_length, List.append_nil]

/-- The tokens ahead cut all that is left of a text. -/
theorem tokens_cut (rounds : Nat) (s : Scan) (h : s.rest.length ≤ rounds) :
    Cut isGap ⟨s.offset, s.rest⟩ (tokens rounds s) ⟨s.offset + Text.size s.rest, []⟩ := by
  induction rounds generalizing s with
  | zero =>
    have nothing : s.rest = [] := List.length_eq_zero_iff.1 (Nat.le_zero.1 h)
    simpa [nothing, tokens] using Cut.done _
  | succ rounds ih =>
    obtain ⟨text, offset, lineStart, newline⟩ := s
    cases text with
    | nil => simpa [tokens] using Cut.done _
    | cons c rest =>
      simp only [List.length_cons, Nat.add_le_add_iff_right] at h
      simp only [tokens]
      split
      · rename_i gap
        refine .skip gap ?_
        simpa [pass, Nat.add_assoc] using ih (pass ⟨c :: rest, offset, lineStart, newline⟩ c rest) h
      · generalize here : Scan.mk (c :: rest) offset lineStart newline = s
        have nonempty := (s.token_text c rest).1
        have split := s.token_append_drop c rest
        have start : (s.token c rest).start = offset := by subst here; rfl
        generalize s.token c rest = t at nonempty split start ⊢
        have shorter : (s.beyond t).rest.length ≤ rounds := by
          have pos := List.length_pos_iff.2 nonempty
          subst here
          simp only [beyond, List.length_drop, List.length_cons]
          omega
        have tail := ih (s.beyond t) shorter
        have behind : (s.beyond t).rest = (c :: rest).drop t.text.length := by subst here; rfl
        have stop : (s.beyond t).offset = t.stop := rfl
        have total : offset + Text.size (c :: rest)
            = t.stop + Text.size ((c :: rest).drop t.text.length) := by
          rw [← start, stop.symm, ← split]
          simp [beyond, Token.stop, Nat.add_assoc]
        rw [behind, stop, ← total] at tail
        rw [← start]
        have whole := Cut.piece nonempty tail
        rw [split] at whole
        rw [start] at whole ⊢
        exact whole

end Scan

/-- The tokens of a text cut the whole of it. -/
theorem allFrom_cut (offset : Nat) (newline : Bool) (text : List Char) :
    Cut Scan.isGap ⟨offset, text⟩ (allFrom offset newline text)
      ⟨offset + Text.size text, []⟩ :=
  Scan.tokens_cut text.length ⟨text, offset, true, newline⟩ (Nat.le_refl _)

namespace Lexeme

theorem pair_spelling {c d : Char} {kind : Kind} (h : pair? c d = some kind) :
    kind.spelling? = some (String.ofList [c, d]) := by
  unfold pair? at h
  split at h <;> first | contradiction | (cases h; rfl)

theorem single_spelling {c : Char} {w : String} (h : (single c).spelling? = some w) :
    w = String.ofList [c] := by
  unfold single at h
  split at h <;> first | contradiction | (cases h; rfl)

theorem punctuation_spelling {c : Char} {rest : List Char} {w : String}
    (h : (punctuation c rest).1.spelling? = some w) :
    (c :: rest).take (punctuation c rest).2 = w.toList := by
  cases known : rest.head?.bind (pair? c) with
  | none =>
    simp only [punctuation, known] at h ⊢
    simp [single_spelling h]
  | some kind =>
    simp only [punctuation, known] at h ⊢
    obtain ⟨d, head, pair⟩ := Option.bind_eq_some_iff.1 known
    obtain ⟨behind, rfl⟩ := List.head?_eq_some_iff.1 head
    rw [pair_spelling pair] at h
    cases h
    simp

theorem scan_eq_punctuation {lineStart : Bool} {c : Char} {rest : List Char} {w : String}
    (h : (scan lineStart c rest).1.spelling? = some w) :
    scan lineStart c rest = punctuation c rest := by
  unfold scan at h ⊢
  split at h
  · contradiction
  · contradiction
  · contradiction
  · contradiction
  · split at h
    · contradiction
    · split at h
      · dsimp only at h
        split at h <;> contradiction
      · split at h
        · contradiction
        · split at h
          · contradiction
          · rename_i directive quote digit word
            rw [if_neg directive, if_neg quote, if_neg digit, if_neg word]

theorem scan_opening (lineStart : Bool) (rest : List Char) :
    scan lineStart '{' rest = (.lBrace, 1) := by
  cases rest <;> simp [scan, isWordChar, punctuation, pair?, single]

theorem scan_closing (lineStart : Bool) (rest : List Char) :
    scan lineStart '}' rest = (.rBrace, 1) := by
  cases rest <;> simp [scan, isWordChar, punctuation, pair?, single]

end Lexeme

/-- A punctuation token consists of its spelling, and only a brace token consists of a brace. -/
structure Spelled (t : Token) : Prop where
  text : ∀ w, t.kind.spelling? = some w → t.text = w.toList
  opening : t.text = ['{'] → t.kind = .lBrace
  closing : t.text = ['}'] → t.kind = .rBrace

/-- What is scanned at the start of a text is spelled so. -/
theorem spelled_of_scan {t : Token} {lineStart : Bool} {c : Char} {rest : List Char} {n : Nat}
    (scanned : Lexeme.scan lineStart c rest = (t.kind, n)) (text : t.text = (c :: rest).take n) :
    t.Spelled := by
  have first {d : Char} (h : t.text = [d]) : c = d := by
    rw [text] at h
    cases n with
    | zero => contradiction
    | succ n => exact (List.cons.inj h).1
  refine ⟨fun w h => ?_, fun h => ?_, fun h => ?_⟩
  · have known : (Lexeme.scan lineStart c rest).1.spelling? = some w := by rw [scanned, h]
    have same := Lexeme.scan_eq_punctuation known
    rw [same] at known scanned
    rw [text, ← Lexeme.punctuation_spelling known, scanned]
  · rw [first h, Lexeme.scan_opening] at scanned
    exact (congrArg Prod.fst scanned).symm
  · rw [first h, Lexeme.scan_closing] at scanned
    exact (congrArg Prod.fst scanned).symm

theorem Scan.token_spelled (s : Scan) (c : Char) (rest : List Char) : (s.token c rest).Spelled :=
  @spelled_of_scan _ s.lineStart _ _ _ rfl rfl

theorem Scan.tokens_spelled (rounds : Nat) (s : Scan) : ∀ t ∈ tokens rounds s, t.Spelled := by
  induction rounds generalizing s with
  | zero => simp [tokens]
  | succ rounds ih =>
    unfold tokens
    split
    · simp
    · split
      · exact ih _
      · exact List.forall_mem_cons.2 ⟨token_spelled s _ _, ih _⟩

theorem allFrom_spelled (offset : Nat) (newline : Bool) (text : List Char) :
    ∀ t ∈ allFrom offset newline text, t.Spelled := Scan.tokens_spelled _ _

/-- A token that is scanned at its place in the source. -/
def ScannedIn (source : List Char) (t : Token) : Prop :=
  ∃ lineStart c rest n, Spot.In source ⟨t.start, c :: rest⟩ ∧ Scan.isGap c = false ∧
    Lexeme.scan lineStart c rest = (t.kind, n) ∧ t.text = (c :: rest).take n

theorem ScannedIn.spelled {source : List Char} {t : Token} (h : t.ScannedIn source) : t.Spelled :=
  have ⟨_, _, _, _, _, _, scanned, text⟩ := h
  spelled_of_scan scanned text

theorem Scan.tokens_scanned {source : List Char} (rounds : Nat) (s : Scan)
    (inside : Spot.In source ⟨s.offset, s.rest⟩) : ∀ t ∈ tokens rounds s, t.ScannedIn source := by
  induction rounds generalizing s with
  | zero => simp [tokens]
  | succ rounds ih =>
    unfold tokens
    split
    · simp
    · rename_i c rest here
      rw [here] at inside
      split
      · exact ih _ (inside.skip [c])
      · rename_i noGap
        refine List.forall_mem_cons.2 ⟨⟨s.lineStart, c, rest, _, inside, by simpa using noGap, rfl,
          rfl⟩, ih _ ?_⟩
        rw [← s.token_append_drop c rest] at inside
        rw [beyond, here]
        exact inside.skip _

/-- All tokens from a place in the source on are scanned there. -/
theorem allFrom_scanned {source text : List Char} {offset : Nat}
    (inside : Spot.In source ⟨offset, text⟩) (newline : Bool) :
    ∀ t ∈ allFrom offset newline text, t.ScannedIn source := Scan.tokens_scanned _ _ inside

/-- A token whose characters stand in the source where the token does. -/
structure StandsIn (source : List Char) (t : Token) : Prop where
  nonempty : t.text ≠ []
  slice? : Text.slice? source t.start t.stop = some t.text
  scanned : t.ScannedIn source

theorem StandsIn.spelled {source : List Char} {t : Token} (h : t.StandsIn source) : t.Spelled :=
  h.scanned.spelled

theorem isBlank_of_isGap {c : Char} (h : Scan.isGap c) : Text.isBlank c := by
  simp only [Scan.isGap, Bool.or_eq_true, decide_eq_true_eq] at h
  rcases h with (((rfl | rfl) | rfl) | rfl) | rfl <;> decide

end RouteScript.Token
