import RouteScript.Proofs.Alike.Items
import RouteScript.Proofs.Format.Stable
/-!
# Formatting keeps programs

In a plain text, of printable ASCII characters, tabs and line feeds, the blanks of the formatter and
the gaps of the scanner are the same, so that its lines are tidy. Formatting keeps its tokens then,
and its tree, in which no blanks at the end of a string show.
-/
namespace RouteScript

namespace Text

/-- Printable ASCII characters, tabs and line feeds. -/
def isPlain (c : Char) : Bool := c = '\t' || c = '\n' || (' ' ≤ c && c ≤ '~')

/-- No other characters, and no blanks behind a backslash that ends a line. -/
structure Plain (text : List Char) : Prop where
  ascii : ∀ c ∈ text, isPlain c
  backslash : ∀ line ∈ lines text,
    (trimEnd line).getLast? = some '\\' → trimEnd line = line

instance (text : List Char) : Decidable (Plain text) :=
  decidable_of_iff (text.all isPlain ∧ ∀ line ∈ lines text,
      (trimEnd line).getLast? = some '\\' → trimEnd line = line)
    ⟨fun h => ⟨List.all_eq_true.1 h.1, h.2⟩, fun h => ⟨List.all_eq_true.2 h.ascii, h.backslash⟩⟩

theorem blank_of_isPlain {c : Char} (plain : isPlain c) (blank : isBlank c) :
    c = ' ' ∨ c = '\t' ∨ c = '\n' := by
  simp [isPlain, Char.le_def, Char.ext_iff, UInt32.le_iff_toNat_le, ← UInt32.toNat_inj] at plain
  simp [isBlank, Char.le_def, Char.ext_iff, UInt32.le_iff_toNat_le, ← UInt32.toNat_inj] at blank
  simp only [Char.ext_iff, ← UInt32.toNat_inj]
  simp
  omega

theorem mem_pieces (text : List Char) : ∀ piece ∈ pieces text,
    '\n' ∉ piece.1 ∧ ∀ c ∈ piece.1, c ∈ text := by
  induction text using line_induction with
  | nil => simp [pieces]
  | last line noBreak nonempty => simp [pieces_line noBreak nonempty, noBreak]
  | line line rest noBreak ih =>
    rw [pieces_newline noBreak, List.forall_mem_cons]
    refine ⟨⟨noBreak, fun c hc => List.mem_append_left _ hc⟩, fun piece hp => ?_⟩
    obtain ⟨noBreak', inside⟩ := ih piece hp
    exact ⟨noBreak', fun c hc => List.mem_append_right _ (List.mem_cons_of_mem _ (inside c hc))⟩

end Text

namespace Token

/-- Every token starts at a character of the text that is no gap. -/
theorem Scan.exists_token (rounds : Nat) (s : Scan) : ∀ t ∈ tokens rounds s, ∃ s' c rest,
    t = token s' c rest ∧ isGap c = false ∧ c ∈ s.rest := by
  induction rounds generalizing s with
  | zero => simp [tokens]
  | succ rounds ih =>
    obtain ⟨text, offset, lineStart, newline⟩ := s
    cases text with
    | nil => simp [tokens]
    | cons c rest =>
      intro t ht
      simp only [tokens] at ht
      split at ht
      · obtain ⟨s', d, rest', eq, noGap, there⟩ := ih _ t ht
        exact ⟨s', d, rest', eq, noGap, List.mem_cons_of_mem c there⟩
      · rename_i noGap
        rcases List.mem_cons.1 ht with rfl | later
        · exact ⟨_, c, rest, rfl, by simpa using noGap, List.mem_cons_self⟩
        · obtain ⟨s', d, rest', eq, noGap, there⟩ := ih _ t later
          exact ⟨s', d, rest', eq, noGap, List.mem_of_mem_drop there⟩

theorem Scan.head?_token (s : Scan) (c : Char) (rest : List Char) :
    (s.token c rest).text.head? = some c := by
  obtain ⟨nonempty, n, text⟩ := s.token_text c rest
  rw [text] at nonempty ⊢
  cases n with
  | zero => simp at nonempty
  | succ n => rfl

theorem Lexeme.isQuote_of_unterminated {lineStart : Bool} {c : Char} {rest : List Char}
    (h : (scan lineStart c rest).1 = .unterminatedString) : Text.isQuote c := by
  have marks : (punctuation c rest).1 ≠ .unterminatedString := by
    unfold punctuation
    split
    · rename_i kind known
      obtain ⟨d, _, pair⟩ := Option.bind_eq_some_iff.1 known
      intro eq
      have spelled := pair_spelling pair
      rw [show kind = .unterminatedString from eq] at spelled
      contradiction
    · unfold single
      split <;> simp
  unfold scan at h
  split at h
  · contradiction
  · contradiction
  · contradiction
  · contradiction
  · split at h
    · contradiction
    · split at h
      · rename_i quote
        simpa [Text.isQuote] using quote
      · split at h
        · contradiction
        · split at h
          · contradiction
          · exact absurd h marks

theorem isQuote_of_unterminated {text : List Char} {t : Token} (ht : t ∈ all text)
    (kind : t.kind = .unterminatedString) : t.text.any Text.isQuote := by
  obtain ⟨s, c, rest, rfl, -⟩ := Scan.exists_token _ _ t ht
  have first := s.head?_token c rest
  obtain ⟨more, eq⟩ := List.head?_eq_some_iff.1 first
  rw [eq, List.any_cons, Lexeme.isQuote_of_unterminated kind, Bool.true_or]

theorem Resembles.see {view : View} {t u : Token} (blurred : view.blurred)
    (same : Resembles t u) (significant : t.isTrivia = false)
    (quoted : t.kind = .unterminatedString → t.text.any Text.isQuote)
    (quoted' : u.kind = .unterminatedString → u.text.any Text.isQuote) :
    view.see t.text = view.see u.text := by
  rw [View.see_eq_iff]
  rcases same.text with eq | ⟨loose, -⟩
  · exact .inl eq.symm
  · have kind : t.kind = .unterminatedString := loose.resolve_left (by simp [significant])
    exact .inr ⟨blurred, quoted kind, quoted' (same.kind.trans kind)⟩

/-- Tokens that resemble each other and touch alike look the same in a blurred view. -/
theorem looks_of_touches {view : View} (blurred : view.blurred) {ts us : List Token}
    (h : List.Forall₂ Resembles ts us) {last last' : Option Nat}
    (quoted : ∀ t ∈ ts, t.kind = .unterminatedString → t.text.any Text.isQuote)
    (quoted' : ∀ u ∈ us, u.kind = .unterminatedString → u.text.any Text.isQuote)
    (touching : touches last' us = touches last ts) :
    view.looks last (ts.filter isSignificant) = view.looks last' (us.filter isSignificant) := by
  induction h generalizing last last' with
  | nil => rfl
  | @cons t u ts us same h ih =>
    obtain ⟨here, later⟩ := List.forall_mem_cons.1 quoted
    obtain ⟨here', later'⟩ := List.forall_mem_cons.1 quoted'
    rw [List.filter_cons, List.filter_cons, same.isSignificant]
    by_cases trivia : t.isTrivia
    · rw [touches_trivia trivia, touches_trivia (same.isTrivia.trans trivia)] at touching
      simpa [isSignificant, trivia] using ih later later' touching
    · rw [Bool.not_eq_true] at trivia
      rw [touches_significant trivia, touches_significant (same.isTrivia.trans trivia),
        List.cons.injEq] at touching
      have significant : t.isSignificant = true := by simp [isSignificant, trivia]
      rw [if_pos significant, if_pos significant, View.looks_cons, View.looks_cons,
        ih later later' touching.2, same.kind, same.newlineBefore, touching.1.symm, same.kind,
        same.see blurred trivia here here']

end Token

namespace Format

open Token

theorem exists_piece (offset : Nat) (pieces : List (List Char × Bool)) :
    ∀ l ∈ linesFrom offset pieces, ∃ piece ∈ pieces,
      l.text = piece.1 ++ if piece.2 then ['\n'] else [] := by
  induction pieces generalizing offset with
  | nil => simp [linesFrom]
  | cons piece pieces ih =>
    obtain ⟨text, ended⟩ := piece
    rw [linesFrom, List.forall_mem_cons]
    refine ⟨⟨_, List.mem_cons_self, by cases ended <;> simp⟩, fun l hl => ?_⟩
    obtain ⟨piece, hp, eq⟩ := ih _ l hl
    exact ⟨piece, List.mem_cons_of_mem _ hp, eq⟩

/-- A line of a plain text is one of its lines of prose. -/
theorem body_of_plain {text : List Char} (plain : Text.Plain text) {l : Line}
    (hl : l ∈ linesFrom 0 (Text.pieces text)) :
    l.body ∈ Text.lines text ∧ ∀ c ∈ l.body, c ∈ text ∧ c ≠ '\n' := by
  obtain ⟨piece, hp, eq⟩ := exists_piece _ _ l hl
  obtain ⟨noBreak, inside⟩ := Text.mem_pieces text piece hp
  have noEnd : ∀ c ∈ piece.1, Line.isEnd c = false := by
    intro c hc
    have ascii := plain.ascii c (inside c hc)
    rw [← Bool.not_eq_true]
    intro ended
    simp only [Line.isEnd, Bool.or_eq_true, decide_eq_true_eq] at ended
    rcases ended with rfl | rfl
    · exact noBreak hc
    · exact absurd ascii (by decide)
  have body : l.body = piece.1 := by
    obtain ⟨start, _⟩ := l
    subst eq
    refine Line.body_eq (fun c hc => ?_) (fun c last => noEnd c (List.mem_of_getLast? last)) start
    split at hc
    · obtain rfl := List.mem_singleton.1 hc
      rfl
    · simp at hc
  have line : Text.line piece = piece.1 := by
    refine if_neg fun returns => ?_
    simp only [Bool.and_eq_true, decide_eq_true_eq] at returns
    exact absurd (noEnd _ (List.mem_of_getLast? returns.2)) (by decide)
  rw [body]
  exact ⟨line ▸ List.mem_map_of_mem hp,
    fun c hc => ⟨inside c hc, fun feed => noBreak (feed ▸ hc)⟩⟩

/-- The lines of a plain text are tidy. -/
theorem tidy_of_plain {text : List Char} (plain : Text.Plain text) : Tidy text := by
  refine ⟨fun t ht c head => ?_, fun l hl _ => ?_⟩
  · obtain ⟨s, d, rest, rfl, noGap, there⟩ := Scan.exists_token _ _ t ht
    rw [s.head?_token d rest, Option.some.injEq] at head
    subst head
    rw [← Bool.not_eq_true]
    intro blank
    rcases Text.blank_of_isPlain (plain.ascii d there) blank with rfl | rfl | rfl <;> contradiction
  · obtain ⟨listed, inside⟩ := body_of_plain plain hl
    refine ⟨.inr fun c hc => ?_, plain.backslash _ listed⟩
    obtain ⟨there, other⟩ := inside c (List.takeWhile_subset _ hc)
    rcases Text.blank_of_isPlain (plain.ascii c there) (List.mem_takeWhile_imp hc) with
      space | tab | feed
    · exact .inl space
    · exact .inr tab
    · exact absurd feed other

/-- Formatting keeps the tokens of a plain text but for blanks before line ends in comments,
directives and unfinished strings, its tree if there is no markup in it, and what it has formatted
before. -/
theorem format_keeps {options : Options} {text out : List Char} (plain : Text.Plain text)
    (noMarkup : ¬ (Tree.ofScript text).HasMarkup) (formatted : format options text = some out) :
    List.Forall₂ Resembles (all text) (all out)
      ∧ (Tree.ofScript out).root.sexp = (Tree.ofScript text).root.sexp
      ∧ format options out = some out := by
  obtain ⟨agree, again⟩ := agree_format (tidy_of_plain plain) formatted
  let view : View := ⟨text, out, true⟩
  have same : view.looks none ((all text).filter isSignificant)
      = view.looks none ((all out).filter isSignificant) :=
    looks_of_touches rfl agree.resembles (fun t ht => isQuote_of_unterminated ht)
      (fun u hu => isQuote_of_unterminated hu) (agree.touches none none (by simp) (by simp))
  have shown : (Tree.ofScript view.right).root.sexp = (Tree.ofScript view.left).root.sexp :=
    Tree.sexp_seen noMarkup same
  exact ⟨agree.resembles, shown, again⟩

/-- A continued directive, a comment over two lines before a brace, a comment and an unfinished
string with blanks behind them. -/
theorem format_keeps_unfinished :
    let options : Options := ⟨true, 4⟩
    let head := "#!define A \\\n\tB\nrequest_route\x7b  # one".toList
    let text := head ++ " \t\n /* two \n three */ if(1)\x7b\n$var(x) = \"a \x7b  \n".toList
      ++ "  xlog(\"\x7d\") ;  \x7d\n\x7d\n".toList
    let out := head ++ "\n    /* two\n three */ if(1)\x7b\n        $var(x) = \"a \x7b\n".toList
      ++ "        xlog(\"\x7d\") ;  \x7d\n\x7d\n".toList
    Text.Plain text ∧ ¬ (Tree.ofScript text).HasMarkup ∧ format options text = some out
      ∧ List.Forall₂ Resembles (all text) (all out)
      ∧ (Tree.ofScript out).root.sexp = (Tree.ofScript text).root.sexp
      ∧ format options out = some out := by
  intro options head text out
  have plain : Text.Plain text := by decide
  have noMarkup : ¬ (Tree.ofScript text).HasMarkup := by decide +kernel
  have formatted : format options text = some out := by decide +kernel
  exact ⟨plain, noMarkup, formatted, format_keeps plain noMarkup formatted⟩

end Format

end RouteScript
