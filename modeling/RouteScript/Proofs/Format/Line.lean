import RouteScript.Document.Format
import RouteScript.Proofs.Format.Breaks
import RouteScript.Proofs.Lossless.Markup
import Mathlib.Data.List.DropRight
/-!
# Lines and their parts

What a line is made of, the tokens that have a part on it, and the line with its indentation. A line
that was indented once has the same parts but for the blanks at its ends.
-/
namespace RouteScript

namespace Text

/-- No blank stands at either end. -/
structure Bare (text : List Char) : Prop where
  head : ∀ c, text.head? = some c → isBlank c = false
  last : ∀ c, text.getLast? = some c → isBlank c = false

theorem trimEnd_append {text blanks : List Char} (blank : ∀ c ∈ blanks, isBlank c) :
    trimEnd (text ++ blanks) = trimEnd text := by
  rw [trimEnd, List.reverse_append, List.dropWhile_append_of_pos fun c hc =>
    blank c (List.mem_reverse.1 hc), trimEnd]

theorem trimEnd_of_last {text : List Char}
    (last : ∀ c, text.getLast? = some c → isBlank c = false) : trimEnd text = text := by
  refine List.rdropWhile_eq_self_iff.2 fun nonempty blank => ?_
  have visible := last _ (List.getLast?_eq_getLast_of_ne_nil nonempty)
  exact Bool.false_ne_true (visible.symm.trans blank)

theorem last_trimEnd (text : List Char) :
    ∀ c, (trimEnd text).getLast? = some c → isBlank c = false := by
  intro c last
  have nonempty : trimEnd text ≠ [] := by
    intro nothing
    simp [nothing] at last
  rw [List.getLast?_eq_getLast_of_ne_nil nonempty] at last
  rw [← Option.some.inj last, ← Bool.not_eq_true]
  exact List.rdropWhile_last_not isBlank text nonempty

theorem head_trimStart (text : List Char) :
    ∀ c, (trimStart text).head? = some c → isBlank c = false := by
  intro c head
  have visible := List.head?_dropWhile_not isBlank text
  rw [show text.dropWhile isBlank = trimStart text from rfl, head] at visible
  simpa using visible

theorem trimEnd_split (text : List Char) :
    ∃ blanks, text = trimEnd text ++ blanks ∧ ∀ c ∈ blanks, isBlank c :=
  ⟨_, (List.rdropWhile_append_rtakeWhile (p := isBlank) (l := text)).symm,
    fun _ hc => List.mem_rtakeWhile_imp hc⟩

theorem trim_append {lead text blanks : List Char} (front : ∀ c ∈ lead, isBlank c)
    (blank : ∀ c ∈ blanks, isBlank c) (bare : Bare text) : trim (lead ++ (text ++ blanks)) = text := by
  rw [trim, trimStart, List.dropWhile_append_of_pos front]
  cases text with
  | nil =>
    have nothing : blanks.dropWhile isBlank = [] := List.dropWhile_eq_nil_iff.2 blank
    rw [List.nil_append, nothing]
    rfl
  | cons c text =>
    rw [List.cons_append, List.dropWhile_cons_of_neg (by simp [bare.head c rfl]),
      ← List.cons_append, trimEnd_append blank, trimEnd_of_last bare.last]

theorem bare_trim (text : List Char) : Bare (trim text) := by
  refine ⟨fun c head => ?_, last_trimEnd _⟩
  obtain ⟨more, eq⟩ := List.rdropWhile_prefix isBlank (trimStart text)
  refine head_trimStart text c ?_
  rw [← eq, List.head?_append]
  simp [show (trimStart text).rdropWhile isBlank = trim text from rfl, head]

theorem pieces_newline {line : List Char} (noBreak : '\n' ∉ line) (rest : List Char) :
    pieces (line ++ '\n' :: rest) = (line, true) :: pieces rest := by
  induction line with
  | nil => simp [pieces]
  | cons c line ih =>
    simp only [List.mem_cons, not_or] at noBreak
    rw [List.cons_append, pieces, if_neg (Ne.symm noBreak.1), ih noBreak.2]

theorem pieces_line {line : List Char} (noBreak : '\n' ∉ line) (nonempty : line ≠ []) :
    pieces line = [(line, false)] := by
  induction line with
  | nil => contradiction
  | cons c line ih =>
    simp only [List.mem_cons, not_or] at noBreak
    rw [pieces, if_neg (Ne.symm noBreak.1)]
    cases line with
    | nil => rfl
    | cons d line => rw [ih noBreak.2 (by simp)]

/-- Texts line by line: the end, a last line without its end, a line and the text behind it. -/
theorem line_induction {motive : List Char → Prop} (nil : motive [])
    (last : ∀ line, '\n' ∉ line → line ≠ [] → motive line)
    (line : ∀ line rest, '\n' ∉ line → motive rest → motive (line ++ '\n' :: rest))
    (text : List Char) : motive text := by
  generalize left : text.length = n
  induction n using Nat.strongRecOn generalizing text with
  | ind n ih =>
    subst left
    by_cases broken : '\n' ∈ text
    · obtain ⟨front, rest, rfl, first⟩ := List.eq_append_cons_of_mem broken
      exact line front rest first (ih rest.length (by simp; omega) rest rfl)
    · by_cases nothing : text = []
      · exact nothing ▸ nil
      · exact last text broken nothing

end Text

namespace Format

open Token

theorem linesFrom_cons {line rest : List Char} (noBreak : '\n' ∉ line) (ends : EndsLine rest)
    (nonempty : line ++ rest ≠ []) (offset : Nat) :
    linesFrom offset (Text.pieces (line ++ rest)) = ⟨offset, line ++ rest.take 1⟩
      :: linesFrom (offset + Text.size (line ++ rest.take 1)) (Text.pieces rest.tail) := by
  rcases ends.cases with rfl | ⟨rest, rfl⟩
  · rw [List.append_nil] at nonempty ⊢
    rw [Text.pieces_line noBreak nonempty]
    simp [linesFrom, Text.pieces]
  · rw [Text.pieces_newline noBreak, linesFrom]
    rfl

theorem start_linesFrom (offset : Nat) (pieces : List (List Char × Bool)) :
    ∀ l ∈ linesFrom offset pieces, offset ≤ l.start := by
  induction pieces generalizing offset with
  | nil => simp [linesFrom]
  | cons piece pieces ih =>
    obtain ⟨text, ended⟩ := piece
    rw [linesFrom, List.forall_mem_cons]
    exact ⟨Nat.le_refl _, fun l hl => Nat.le_trans (Nat.le_add_right _ _) (ih _ l hl)⟩

namespace Line

variable {l : Line} {on : List Token}

/-- The tokens that have a part on the line. -/
def tokens (l : Line) (all : List Token) : List Token :=
  all.filter fun t => l.start < t.stop && t.start < l.stop

theorem tokens_past {past : List Token} (before : ∀ t ∈ past, t.stop ≤ l.start)
    (all : List Token) : l.tokens (past ++ all) = l.tokens all := by
  have none : l.tokens past = [] := by
    refine List.filter_eq_nil_iff.2 fun t ht => ?_
    have := before t ht
    simp only [Bool.and_eq_true, decide_eq_true_eq, not_and]
    omega
  rw [tokens, List.filter_append]
  exact congrArg (· ++ l.tokens all) none

theorem tokens_later {later : List Token} (behind : ∀ t ∈ later, l.stop ≤ t.start)
    (all : List Token) : l.tokens (all ++ later) = l.tokens all := by
  have none : l.tokens later = [] := by
    refine List.filter_eq_nil_iff.2 fun t ht => ?_
    have := behind t ht
    simp only [Bool.and_eq_true, decide_eq_true_eq, not_and]
    omega
  rw [tokens, List.filter_append]
  exact (congrArg _ none).trans (List.append_nil _)

theorem tokens_all {all : List Token} (inside : ∀ t ∈ all, l.start < t.stop ∧ t.start < l.stop) :
    l.tokens all = all :=
  List.filter_eq_self.2 fun t ht => by simpa using inside t ht

theorem isBlank_of_isEnd {c : Char} (h : isEnd c) : Text.isBlank c := by
  simp only [isEnd, Bool.or_eq_true, decide_eq_true_eq] at h
  rcases h with rfl | rfl <;> decide

theorem body_eq {inner end_ : List Char} (ends : ∀ c ∈ end_, isEnd c)
    (last : ∀ c, inner.getLast? = some c → isEnd c = false) (start : Nat) :
    body ⟨start, inner ++ end_⟩ = inner := by
  have self : inner.rdropWhile isEnd = inner := by
    refine List.rdropWhile_eq_self_iff.2 fun nonempty ended => ?_
    have visible := last _ (List.getLast?_eq_getLast_of_ne_nil nonempty)
    exact Bool.false_ne_true (visible.symm.trans ended)
  rw [body, List.reverse_append, List.dropWhile_append_of_pos fun c hc =>
    ends c (List.mem_reverse.1 hc)]
  exact self

theorem ending_eq {inner end_ : List Char} (ends : ∀ c ∈ end_, isEnd c)
    (last : ∀ c, inner.getLast? = some c → isEnd c = false) (start : Nat) :
    ending ⟨start, inner ++ end_⟩ = end_ := by
  rw [ending, body_eq ends last, List.drop_left]

/-- A line is its body and carriage returns. -/
theorem exists_body {line : List Char} (noBreak : '\n' ∉ line) : ∃ inner returns,
    line = inner ++ returns ∧ (∀ c ∈ returns, c = '\r')
      ∧ ∀ c, inner.getLast? = some c → isEnd c = false := by
  refine ⟨_, _, (List.rdropWhile_append_rtakeWhile (p := isEnd) (l := line)).symm, fun c hc => ?_,
    fun c last => ?_⟩
  · have ended : isEnd c := List.mem_rtakeWhile_imp hc
    have there : c ∈ line := (List.rtakeWhile_suffix isEnd line).subset hc
    simp only [isEnd, Bool.or_eq_true, decide_eq_true_eq] at ended
    exact ended.resolve_left fun eq => noBreak (eq ▸ there)
  · have nonempty : line.rdropWhile isEnd ≠ [] := by
      intro nothing
      simp [nothing] at last
    have visible := List.rdropWhile_last_not isEnd line nonempty
    rw [List.getLast?_eq_getLast_of_ne_nil nonempty] at last
    rw [← Option.some.inj last]
    simpa using visible

theorem normalized_plain (plain : ∀ t, on.getLast? = some t → t.kind ≠ .lBrace) :
    l.normalized on = Text.trim l.body := by
  rw [normalized]
  split
  · rename_i t last
    rw [if_neg (plain t last)]
  · rfl

/-- A brace that is the last token of a line has one space before it, or stands alone. -/
theorem normalized_opening {before behind : List Char} {brace : Token}
    (last : on.getLast? = some brace) (kind : brace.kind = .lBrace)
    (body : l.body = before ++ behind) (start : brace.start = l.start + Text.size before) :
    l.normalized on = if Text.trim before = [] then Text.trim l.body
      else Text.trim before ++ ' ' :: Text.trimEnd behind := by
  have here : brace.start - l.start = Text.size before := by omega
  have slice : Text.slice l.body 0 (Text.size before) = before := by
    have cut := Text.slice?_append [] before behind
    rw [List.nil_append, Text.size_nil, Nat.zero_add] at cut
    rw [Text.slice, body, cut]
    rfl
  have rest : Text.after? l.body (Text.size before) = some behind := by
    rw [body, Text.after?_size_append]
  simp only [normalized, last, kind, if_true, here, slice, rest, Option.getD_some,
    List.isEmpty_iff]

theorem normalized_brace {before blanks : List Char} {brace : Token}
    (last : on.getLast? = some brace) (kind : brace.kind = .lBrace)
    (body : l.body = before ++ '{' :: blanks) (blank : ∀ c ∈ blanks, Text.isBlank c)
    (start : brace.start = l.start + Text.size before) : l.normalized on
      = if Text.trim before = [] then Text.trim l.body else Text.trim before ++ [' ', '{'] := by
  have end_ : Text.trimEnd ('{' :: blanks) = ['{'] := by
    rw [← List.singleton_append, Text.trimEnd_append blank]
    rfl
  rw [normalized_opening last kind body start, end_]

theorem indented_continues {unit : List Char} {depth : Nat} (continues : l.continues on) :
    l.indented unit depth on = some l.text := by
  rw [indented, if_pos continues]

theorem indented_blank {unit : List Char} {depth : Nat} (continues : l.continues on = false)
    (blank : Text.trim l.body = []) : l.indented unit depth on = some l.ending := by
  rw [indented, if_neg (by simp [continues]), if_pos (by simp [blank])]

theorem indented_eq {unit : List Char} {depth : Nat} (continues : l.continues on = false)
    (visible : Text.trim l.body ≠ []) : l.indented unit depth on
      = if depth < l.leadingCloses on then none
        else some ((List.replicate (depth - l.leadingCloses on) unit).flatten ++ l.normalized on
          ++ l.ending) := by
  rw [indented, if_neg (by simp [continues]), if_neg (by simpa using visible)]

end Line

/-- The lines at their depths, each with its tokens, if the braces balance. -/
def formatLines (unit : List Char) (all : List Token) (depth : Nat) :
    List Line → Option (List Char)
  | [] => if depth = 0 then some [] else none
  | l :: rest => do
    let on := l.tokens all
    let text ← l.indented unit depth on
    let depth ← on.foldlM depthBehind depth
    return text ++ (← formatLines unit all depth rest)

theorem formatLines_past {past : List Token} {lines : List Line}
    (before : ∀ t ∈ past, ∀ l ∈ lines, t.stop ≤ l.start) (unit : List Char) (all : List Token)
    (depth : Nat) : formatLines unit (past ++ all) depth lines = formatLines unit all depth lines := by
  induction lines generalizing depth with
  | nil => rfl
  | cons l lines ih =>
    have here := Line.tokens_past (fun t ht => before t ht l (by simp)) all
    have later := ih fun t ht l hl => before t ht l (by simp [hl])
    simp only [formatLines, here, later]

end Format
end RouteScript
