import RouteScript.Proofs.Program.Fitting
import RouteScript.Proofs.Recovery.Lexing
import RouteScript.Route.Basic
/-!
# Words as tokens

An identifier, a number or a string is one token. In a text that is cut into tokens, an identifier
is one token wherever it starts and ends with the cut, and a word in front of a colon is cut apart
from what stands behind the colon.
-/
namespace RouteScript

namespace Token

namespace Lexeme

/-- A run that takes a whole text passes the test everywhere. -/
theorem all_of_runLength {p : Char → Bool} {text : List Char} (h : runLength p text = text.length) :
    text.all p := by
  have whole := (List.takeWhile_prefix p).eq_of_length h
  exact List.all_eq_true.2 fun c hc => List.mem_takeWhile_imp (whole ▸ hc)

/-- A weaker test passes at least as many characters. -/
theorem runLength_mono {p q : Char → Bool} (imp : ∀ c, p c → q c) (text : List Char) :
    runLength p text ≤ runLength q text := by
  induction text with
  | nil => exact Nat.le_refl _
  | cons c rest ih =>
    cases passes : p c with
    | false => simp [runLength, passes]
    | true => simpa [runLength, passes, imp c passes] using ih

/-- A number does not go on behind the word that it stands in. -/
theorem numberLength_le_word (text : List Char) :
    numberLength text ≤ runLength isWordChar text := by
  have prefixed (x : Char) (word : isWordChar x) (rest : List Char) :
      2 + runLength isHexDigit rest ≤ runLength isWordChar ('0' :: x :: rest) := by
    have digits : runLength isHexDigit rest ≤ runLength isWordChar rest :=
      runLength_mono (fun _ => isWordChar_of_isHexDigit) rest
    have zero : isWordChar '0' := by decide
    simp only [runLength, List.takeWhile_cons, zero, word, if_true, List.length_cons] at digits ⊢
    omega
  unfold numberLength
  split
  · exact prefixed 'x' (by decide) _
  · exact prefixed 'X' (by decide) _
  · exact runLength_mono (fun _ => isWordChar_of_isDigit) _

theorem all_of_numberLength {text : List Char} (h : numberLength text = text.length) :
    text.all isWordChar :=
  all_of_runLength (Nat.le_antisymm (List.takeWhile_prefix _).length_le
    (h ▸ numberLength_le_word text))

/-- Nor does any other token that starts in a word. -/
theorem scan_le_word {c : Char} (word : isWordChar c) (lineStart : Bool) (rest : List Char) :
    (scan lineStart c rest).2 ≤ runLength isWordChar (c :: rest) := by
  rw [Bit.scan_wordChar word]
  split
  · exact numberLength_le_word _
  · exact Nat.le_refl _

theorem scan_colon (lineStart : Bool) (rest : List Char) :
    scan lineStart ':' rest = (.colon, 1) := by
  cases rest <;> simp [scan, isWordChar, punctuation, pair?, single]

/-- A closed string ends with its quote. -/
theorem exists_of_closed {quote : Char} {text : List Char} {n : Nat}
    (h : stringLength quote text = (true, n)) : ∃ inner, text.take n = inner ++ [quote] := by
  fun_induction stringLength quote text generalizing n with
  | case1 => cases h
  | case2 => cases h
  | case3 c rest other ih =>
    obtain ⟨closed, rfl⟩ := Prod.mk.inj h
    obtain ⟨inner, taken⟩ := ih (Prod.ext closed rfl)
    exact ⟨'\\' :: c :: inner, by simp [Nat.add_comm 2, taken]⟩
  | case4 => cases h
  | case5 c rest =>
    cases h
    exact ⟨[], by simp_all⟩
  | case6 c rest _ _ _ ih =>
    obtain ⟨closed, rfl⟩ := Prod.mk.inj h
    obtain ⟨inner, taken⟩ := ih (Prod.ext closed rfl)
    exact ⟨c :: inner, by simp [Nat.add_comm 1, taken]⟩

end Lexeme

/-- The kind of the one token that a text consists of. -/
def single? : List Char → Option Kind
  | [] => none
  | c :: rest =>
    let (kind, length) := Lexeme.scan false c rest
    if length = (c :: rest).length then some kind else none

section Single

variable {text : List Char} {kind : Kind}

theorem single?_eq_some_iff : single? text = some kind ↔
    ∃ c rest, text = c :: rest ∧ Lexeme.scan false c rest = (kind, (c :: rest).length) := by
  cases text with
  | nil => simp [single?]
  | cons c rest =>
    simp only [single?, List.cons.injEq]
    constructor
    · intro h
      split at h
      · next whole =>
        obtain rfl := Option.some.inj h
        exact ⟨c, rest, ⟨rfl, rfl⟩, Prod.ext rfl whole⟩
      · contradiction
    · rintro ⟨_, _, ⟨rfl, rfl⟩, scanned⟩
      rw [scanned]
      simp

theorem Lexeme.punctuation_noName (c : Char) (rest : List Char) :
    (punctuation c rest).1 ∉ [Kind.identifier, .number, .string] := by
  unfold punctuation
  split
  · next pair =>
    obtain ⟨d, _, pair⟩ := Option.bind_eq_some_iff.1 pair
    unfold pair? at pair
    split at pair <;> cases pair <;> decide
  · unfold single
    split <;> decide

/-- What identifiers, numbers and strings are taken for. -/
theorem Lexeme.scan_name {lineStart : Bool} {c : Char} {rest : List Char} {n : Nat}
    (scanned : scan lineStart c rest = (kind, n))
    (name : kind ∈ [Kind.identifier, .number, .string]) :
    (kind = .identifier ∧ isWordChar c ∧ c.isDigit = false ∧
      n = runLength isWordChar (c :: rest)) ∨
      (kind = .number ∧ n = numberLength (c :: rest)) ∨
        (kind = .string ∧ Route.isQuote c ∧ stringLength c rest = (true, n - 1)) := by
  unfold scan at scanned
  split at scanned
  · cases scanned
    simp at name
  · cases scanned
    simp at name
  · cases scanned
    simp at name
  · cases scanned
    simp at name
  · split at scanned
    · cases scanned
      simp at name
    · split at scanned
      · next quote =>
        dsimp only at scanned
        split at scanned
        · next closed =>
          cases scanned
          exact .inr (.inr ⟨rfl, by simpa [Route.isQuote] using quote,
            Prod.ext closed (by simp)⟩)
        · cases scanned
          simp at name
      · split at scanned
        · cases scanned
          exact .inr (.inl ⟨rfl, rfl⟩)
        · next noDigit =>
          split at scanned
          · next word =>
            cases scanned
            exact .inl ⟨rfl, word, by simpa using noDigit, rfl⟩
          · have other := punctuation_noName c rest
            rw [scanned] at other
            exact absurd name other

theorem Lexeme.scan_identifier {lineStart : Bool} {c : Char} {rest : List Char} {n : Nat}
    (scanned : scan lineStart c rest = (.identifier, n)) :
    isWordChar c ∧ c.isDigit = false ∧ n = runLength isWordChar (c :: rest) := by
  rcases scan_name scanned (by decide) with ⟨_, taken⟩ | ⟨other, _⟩ | ⟨other, _⟩
  · exact taken
  · contradiction
  · contradiction

/-- An identifier or a number is a word. -/
theorem word_of_single? (single : single? text = some kind)
    (name : kind ∈ [Kind.identifier, .number]) :
    text ≠ [] ∧ text.all Lexeme.isWordChar := by
  obtain ⟨c, rest, rfl, scanned⟩ := single?_eq_some_iff.1 single
  have some_name : kind ∈ [Kind.identifier, .number, .string] := by
    rcases (by simpa using name : kind = .identifier ∨ kind = .number) with rfl | rfl <;> decide
  refine ⟨List.cons_ne_nil _ _, ?_⟩
  rcases Lexeme.scan_name scanned some_name with ⟨_, _, _, whole⟩ | ⟨_, whole⟩ | ⟨rfl, _⟩
  · exact Lexeme.all_of_runLength whole.symm
  · exact Lexeme.all_of_numberLength whole.symm
  · contradiction

/-- A string stands between two quotes. -/
theorem quotes_of_single? (single : single? text = some .string) :
    ∃ quote inner, Route.isQuote quote ∧ text = quote :: (inner ++ [quote]) := by
  obtain ⟨c, rest, rfl, scanned⟩ := single?_eq_some_iff.1 single
  rcases Lexeme.scan_name scanned (by decide) with ⟨other, _⟩ | ⟨other, _⟩ | ⟨_, quote, closed⟩
  · contradiction
  · contradiction
  · obtain ⟨inner, taken⟩ := Lexeme.exists_of_closed closed
    rw [List.length_cons, Nat.add_sub_cancel, List.take_length] at taken
    exact ⟨c, inner, quote, by rw [taken]⟩

/-- An identifier is a word that does not start with a digit. -/
theorem single?_eq_identifier_iff : single? text = some .identifier ↔
    ∃ c rest, text = c :: rest ∧ c.isDigit = false ∧ text.all Lexeme.isWordChar := by
  rw [single?_eq_some_iff]
  constructor
  · rintro ⟨c, rest, rfl, scanned⟩
    obtain ⟨_, noDigit, whole⟩ := Lexeme.scan_identifier scanned
    exact ⟨c, rest, rfl, noDigit, Lexeme.all_of_runLength whole.symm⟩
  · rintro ⟨c, rest, rfl, noDigit, all⟩
    have word : Lexeme.isWordChar c := (List.all_eq_true.1 all) c (by simp)
    have whole := @Bit.runLength_append _ _ [] all (by simp)
    rw [List.append_nil] at whole
    exact ⟨c, rest, rfl, by simp [Bit.scan_wordChar word, noDigit, whole]⟩

end Single

/-- What is scanned as an identifier is one by itself. -/
theorem ScannedIn.single? {source : List Char} {t : Token} (h : t.ScannedIn source)
    (kind : t.kind = .identifier) : single? t.text = some .identifier := by
  obtain ⟨_, c, rest, n, _, _, scanned, text⟩ := h
  rw [kind] at scanned
  obtain ⟨word, noDigit, rfl⟩ := Lexeme.scan_identifier scanned
  have run : t.text = (c :: rest).takeWhile Lexeme.isWordChar := by
    rw [text]
    exact (List.prefix_iff_eq_take.1 (List.takeWhile_prefix _)).symm
  refine single?_eq_identifier_iff.2 ⟨c, rest.takeWhile Lexeme.isWordChar, ?_, noDigit, ?_⟩
  · rw [run, List.takeWhile_cons_of_pos word]
  · exact run ▸ List.all_takeWhile

end Token

namespace Cut

open Token (Scan ScannedIn single?)

variable {source inner behind after : List Char} {p q : Spot} {ts : List Token} {offset stop : Nat}

theorem exists_text {gap : Char → Bool} (h : Cut gap p ts q) :
    ∃ inner, p.rest = inner ++ q.rest ∧ q.offset = p.offset + Text.size inner := by
  induction h with
  | done p => exact ⟨[], rfl, rfl⟩
  | @skip c _ _ _ _ _ _ ih =>
    obtain ⟨inner, text, size⟩ := ih
    exact ⟨c :: inner, congrArg (c :: ·) text, by simp [size, Nat.add_assoc]⟩
  | @piece t _ _ _ _ _ ih =>
    obtain ⟨inner, text, size⟩ := ih
    exact ⟨t.text ++ inner, by simpa using text, by simp [size, Token.stop, Nat.add_assoc]⟩

theorem stop_eq {gap : Char → Bool} (h : Cut gap ⟨offset, inner ++ after⟩ ts ⟨stop, after⟩) :
    stop = offset + Text.size inner := by
  obtain ⟨inner', text, size⟩ := h.exists_text
  rwa [List.append_cancel_right text]

/-- No piece stands between a place and itself. -/
theorem eq_nil {gap : Char → Bool} (h : Cut gap p ts q) (same : p.offset = q.offset) : ts = [] :=
  List.eq_nil_iff_forall_not_mem.2 fun t ht => by
    have := h.bounds t ht
    omega

/-- Where no gap stands the next token is scanned. -/
theorem exists_scan {c : Char} {rest : List Char} (h : Cut Scan.isGap ⟨offset, c :: rest⟩ ts q)
    (noGap : Scan.isGap c = false) (further : offset < q.offset)
    (inside : Spot.In source ⟨offset, c :: rest⟩) (scanned : ∀ t ∈ ts, t.ScannedIn source) :
    ∃ t us lineStart n, ts = t :: us ∧ Token.Lexeme.scan lineStart c rest = (t.kind, n) ∧
      t.text = (c :: rest).take n ∧ t.stop = offset + Text.size t.text ∧
      Cut Scan.isGap ⟨t.stop, (c :: rest).drop n⟩ us q := by
  generalize here : Spot.mk offset (c :: rest) = p at h
  cases h with
  | done =>
    subst here
    exact absurd further (Nat.lt_irrefl _)
  | skip isGap _ =>
    cases here
    exact absurd isGap (by simp [noGap])
  | @piece t behind us _ nonempty tail =>
    obtain ⟨rfl, text⟩ := Spot.mk.inj here
    obtain ⟨lineStart, c', rest', n, there, _, scan, taken⟩ := scanned t (by simp)
    obtain ⟨rfl, rfl⟩ := List.cons.inj
      (Option.some.inj (there.after?.symm.trans inside.after?) : c' :: rest' = c :: rest)
    have left : behind = (c' :: rest').drop n := by
      have both := text.symm.trans (List.take_append_drop n _).symm
      rw [taken] at both
      exact List.append_cancel_left both
    exact ⟨t, us, lineStart, n, rfl, scan, taken, rfl, left ▸ tail⟩

/-- No token starts in front of the gaps. -/
theorem past_gaps {blank rest : List Char} (h : Cut Scan.isGap ⟨offset, blank ++ rest⟩ ts q)
    (gaps : ∀ c ∈ blank, Scan.isGap c) (reach : offset + Text.size blank ≤ q.offset)
    (inside : Spot.In source ⟨offset, blank ++ rest⟩) (scanned : ∀ t ∈ ts, t.ScannedIn source) :
    Cut Scan.isGap ⟨offset + Text.size blank, rest⟩ ts q := by
  induction blank generalizing offset with
  | nil => exact h
  | cons c blank ih =>
    rw [List.cons_append] at h inside
    rw [Text.size_cons, ← Nat.add_assoc] at reach ⊢
    generalize here : Spot.mk offset (c :: (blank ++ rest)) = p at h
    cases h with
    | done =>
      subst here
      have pos := c.utf8Size_pos
      simp only at reach
      omega
    | skip _ tail =>
      cases here
      exact ih tail (fun d hd => gaps d (by simp [hd])) reach (inside.skip [c])
    | @piece t behind us _ _ _ =>
      obtain ⟨rfl, _⟩ := Spot.mk.inj here
      obtain ⟨_, c', rest', _, there, noGap, _⟩ := scanned t (by simp)
      obtain ⟨rfl, _⟩ := List.cons.inj
        (Option.some.inj (there.after?.symm.trans inside.after?) : c' :: rest' = _)
      rw [gaps c' (by simp)] at noGap
      contradiction

/-- An identifier is one token. -/
theorem identifier (h : Cut Scan.isGap ⟨offset, inner ++ after⟩ ts ⟨stop, after⟩)
    (single : single? inner = some .identifier) (inside : Spot.In source ⟨offset, inner ++ after⟩)
    (scanned : ∀ t ∈ ts, t.ScannedIn source) :
    ∃ t, ts = [t] ∧ t.kind = .identifier ∧ t.text = inner := by
  obtain ⟨c, rest, rfl, noDigit, all⟩ := Token.single?_eq_identifier_iff.1 single
  have word : Token.Lexeme.isWordChar c := List.all_eq_true.1 all c (by simp)
  have size := h.stop_eq
  have long := Text.size_pos (List.cons_ne_nil c rest)
  obtain ⟨t, us, lineStart, n, rfl, scan, text, ends, tail⟩ :=
    h.exists_scan (Bit.isGap_wordChar word) (show offset < stop by omega) inside scanned
  rw [Bit.scan_wordChar word, noDigit, if_neg Bool.false_ne_true] at scan
  obtain ⟨kind, rfl⟩ := Prod.mk.inj scan
  -- the run takes the whole word, and the cut ends with the word
  have run : t.text = (c :: rest) ++ after.takeWhile Token.Lexeme.isWordChar := by
    rw [text, ← List.takeWhile_append_of_pos (List.all_eq_true.1 all)]
    exact (List.prefix_iff_eq_take.1 (List.takeWhile_prefix _)).symm
  have low := tail.offset_le
  have nothing : after.takeWhile Token.Lexeme.isWordChar = [] := by
    by_contra some_char
    have more := Text.size_pos some_char
    rw [run, Text.size_append] at ends
    simp only at low
    omega
  rw [nothing, List.append_nil] at run
  exact ⟨t, by rw [tail.eq_nil (show t.stop = stop by rw [ends, run, size])], kind.symm, run⟩

/-- No token goes on behind the colon that follows a word. -/
theorem colon {word : List Char}
    (h : Cut Scan.isGap ⟨offset, word ++ ':' :: (behind ++ after)⟩ ts ⟨stop, after⟩)
    (all : word.all Token.Lexeme.isWordChar)
    (inside : Spot.In source ⟨offset, word ++ ':' :: (behind ++ after)⟩)
    (scanned : ∀ t ∈ ts, t.ScannedIn source) :
    ∃ front us offset', ts = front ++ us ∧ Spot.In source ⟨offset', behind ++ after⟩ ∧
      Cut Scan.isGap ⟨offset', behind ++ after⟩ us ⟨stop, after⟩ := by
  induction length : word.length using Nat.strong_induction_on generalizing offset ts word with
  | _ m ih =>
    have size : stop = offset + Text.size (word ++ ':' :: behind) := stop_eq (by simpa using h)
    have long := Text.size_pos (show word ++ ':' :: behind ≠ [] by simp)
    have further : offset < stop := by omega
    cases word with
    | nil =>
      obtain ⟨t, us, lineStart, n, rfl, scan, text, ends, tail⟩ :=
        h.exists_scan (by decide) further inside scanned
      obtain ⟨_, rfl⟩ := Prod.mk.inj ((Token.Lexeme.scan_colon lineStart _).symm.trans scan)
      have place : t.stop = offset + Text.size [':'] := by rw [ends, text]; rfl
      exact ⟨[t], us, t.stop, rfl, place ▸ inside.skip [':'], tail⟩
    | cons c more =>
      have starts : Token.Lexeme.isWordChar c := List.all_eq_true.1 all c (by simp)
      rw [List.cons_append] at h inside
      obtain ⟨t, us, lineStart, n, rfl, scan, text, ends, tail⟩ :=
        h.exists_scan (Bit.isGap_wordChar starts) further inside scanned
      rw [← List.cons_append] at text tail inside
      -- the token takes some characters of the word, and none behind it
      have some_char := Token.Lexeme.scan_pos lineStart c (more ++ ':' :: (behind ++ after))
      have within := Token.Lexeme.scan_le_word starts lineStart (more ++ ':' :: (behind ++ after))
      rw [scan] at some_char within
      rw [← List.cons_append, Bit.runLength_append all (by simp; decide)] at within
      rw [List.take_append_of_le_length within] at text
      rw [List.drop_append_of_le_length within] at tail
      have there : Spot.In source ⟨t.stop, (c :: more).drop n ++ ':' :: (behind ++ after)⟩ := by
        rw [ends, text]
        refine Spot.In.skip _ ?_
        rwa [← List.append_assoc, List.take_append_drop]
      have shorter : ((c :: more).drop n).length < m := by
        rw [List.length_drop, length]
        simp only at some_char
        omega
      have below : ((c :: more).drop n).all Token.Lexeme.isWordChar :=
        List.all_eq_true.2 fun d hd => List.all_eq_true.1 all d (List.mem_of_mem_drop hd)
      obtain ⟨front, us, offset', rfl, place, cut⟩ := ih _ shorter tail below there
        (fun u hu => scanned u (List.mem_cons_of_mem _ hu)) rfl
      exact ⟨t :: front, us, offset', rfl, place, cut⟩

end Cut

end RouteScript
