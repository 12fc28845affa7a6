import RouteScript.Proofs.Sound
import RouteScript.Proofs.Mark
/-!
# What readers conserve

The tokens between two streams, in pieces as the tree shows them, and the account of a reader: what
it gives back has the marks of what was given to it and of the pieces it took, and a comment is
either in there or still waits.
-/
namespace RouteScript.Script

open Draft

variable {α β : Type}

def tokenMark (t : Token) : Mark := .leaf t.start t.stop

/-- What a stretch of the source becomes. -/
inductive Piece where
  | token (t : Token)
  /-- A dollar sign and the parenthesis behind it are one leaf. -/
  | sigil (dollar opening : Token)
  | markup (parts : List Token)

namespace Piece

/-- The leaves of a piece as tokens. -/
def tokens : Piece → List Token
  | token t => [t]
  | sigil dollar opening =>
    [⟨.dollar, dollar.text ++ opening.text, dollar.start, dollar.newlineBefore⟩]
  | markup parts => parts

/-- The mark of markup that consists of these parts. -/
def region (parts : List Token) : Mark :=
  let first := (parts.head?.map Token.start).getD 0
  .markup first ((parts.getLast?.map Token.stop).getD first)

def solids : Piece → List Mark
  | token t => if t.isTrivia then [] else [tokenMark t]
  | sigil dollar opening => [.leaf dollar.start opening.stop]
  | markup parts => region parts :: parts.map tokenMark

def extras : Piece → List Mark
  | token t => if t.isTrivia then (extraLeaf t).extras else []
  | _ => []

theorem solids_tokens (ts : List Token) :
    (ts.map token).flatMap solids = (ts.filter Token.isSignificant).map tokenMark := by
  induction ts with
  | nil => rfl
  | cons t ts ih => cases trivia : t.isTrivia <;> simp [solids, Token.isSignificant, trivia, ih]

theorem extras_tokens (ts : List Token) :
    (ts.map token).flatMap extras = extrasOf ((ts.filter Token.isTrivia).map extraLeaf) := by
  induction ts with
  | nil => rfl
  | cons t ts ih => cases trivia : t.isTrivia <;> simp [extras, trivia, ih]

end Piece

/-- The pieces that lead from some tokens of a source to others behind them. -/
inductive Follows (source : List Char) : List Token → List Piece → List Token → Prop
  | done (ts : List Token) : Follows source ts [] ts
  | token {t : Token} {ts us : List Token} {ps : List Piece} (tail : Follows source ts ps us) :
      Follows source (t :: ts) (.token t :: ps) us
  | sigil {dollar opening : Token} {ts us : List Token} {ps : List Piece}
      (significant : dollar.isSignificant) (significant' : opening.isSignificant)
      (adjacent : dollar.stop = opening.start) (tail : Follows source ts ps us) :
      Follows source (dollar :: opening :: ts) (.sigil dollar opening :: ps) us
  | markup {t : Token} {ts us parts : List Token} {ps : List Piece} {text : List Char} {q : Spot}
      (opens : t.kind = .lt) (here : Text.after? source t.start = some text)
      (cut : Cut Text.isBlank ⟨t.start, text⟩ parts q)
      (significant : ∀ u ∈ parts, u.isSignificant)
      (starts : parts.head?.map Token.start = some t.start)
      (ends : q.rest = [] ∨ parts.getLast?.map Token.stop = some q.offset)
      (tail : Follows source (Token.allFrom q.offset false q.rest) ps us) :
      Follows source (t :: ts) (.markup parts :: ps) us

namespace Follows

variable {source : List Char} {ts us vs : List Token} {ps ps' : List Piece}

theorem append (h : Follows source ts ps us) (h' : Follows source us ps' vs) :
    Follows source ts (ps ++ ps') vs := by
  induction h with
  | done _ => exact h'
  | token _ ih => exact .token (ih h')
  | sigil significant significant' adjacent _ ih =>
    exact .sigil significant significant' adjacent (ih h')
  | markup opens here cut significant starts ends _ ih =>
    exact .markup opens here cut significant starts ends (ih h')

theorem tokens (source : List Char) (taken rest : List Token) :
    Follows source (taken ++ rest) (taken.map .token) rest := by
  induction taken with
  | nil => exact .done _
  | cons t taken ih => exact .token ih

end Follows

/-- The pieces between two streams. -/
structure Reads (s : Stream) (ps : List Piece) (s' : Stream) : Prop where
  passes : s.Passes s'
  follows : Follows s.source s.tokens ps s'.tokens
  further : ps ≠ [] → s.position < s'.position

theorem Reads.refl {s : Stream} (h : s.Sound) : Reads s [] s :=
  ⟨h.refl, .done _, fun h => absurd rfl h⟩

theorem Reads.trans {s s' s'' : Stream} {ps ps' : List Piece} (h : Reads s ps s')
    (h' : Reads s' ps' s'') : Reads s (ps ++ ps') s'' := by
  refine ⟨h.passes.trans h'.passes, h.follows.append (h.passes.source ▸ h'.follows), fun some => ?_⟩
  by_cases nothing : ps = []
  · exact Nat.lt_of_le_of_lt h.passes.position (h'.further (by simpa [nothing] using some))
  · exact Nat.lt_of_lt_of_le (h.further nothing) h'.passes.position

/-- From drafts at one stream to drafts at another, nothing is lost and nothing is made up. -/
def Conserves (given : List Draft) (s : Stream) (out : List Draft) (s' : Stream) : Prop :=
  ∃ ps, Reads s ps s' ∧ solidsOf out = solidsOf given ++ ps.flatMap Piece.solids ∧
    (extrasOf out ++ extrasOf s'.waiting).Perm
      (extrasOf given ++ extrasOf s.waiting ++ ps.flatMap Piece.extras)

namespace Conserves

variable {given mid out : List Draft} {s s' s'' : Stream}

theorem passes (h : Conserves given s out s') : s.Passes s' := by
  obtain ⟨ps, reads, _⟩ := h
  exact reads.passes

theorem trans (h : Conserves given s mid s') (h' : Conserves mid s' out s'') :
    Conserves given s out s'' := by
  obtain ⟨ps, reads, solids, extras⟩ := h
  obtain ⟨ps', reads', solids', extras'⟩ := h'
  refine ⟨ps ++ ps', reads.trans reads', by simp [solids', solids], ?_⟩
  rw [List.flatMap_append, ← List.append_assoc]
  exact extras'.trans (extras.append_right _)

/-- What is set aside stays before what is read meanwhile. -/
theorem frame (before : List Draft) (h : Conserves given s out s') :
    Conserves (before ++ given) s (before ++ out) s' := by
  obtain ⟨ps, reads, solids, extras⟩ := h
  refine ⟨ps, reads, by simp [solids], ?_⟩
  simpa [List.append_assoc] using extras.append_left (extrasOf before)

theorem solids_ne_nil (h : Conserves given s out s') (some_marks : solidsOf given ≠ []) :
    solidsOf out ≠ [] := by
  obtain ⟨ps, _, solids, _⟩ := h
  simp [solids, some_marks]

/-- More marks of the structure come from tokens only. -/
theorem further (h : Conserves given s out s')
    (more : (solidsOf given).length < (solidsOf out).length) :
    s.position < s'.position := by
  obtain ⟨ps, reads, solids, _⟩ := h
  refine reads.further fun nothing => ?_
  simp [solids, nothing] at more

/-- A reader that gives back no more than it was given has taken nothing. -/
theorem tokens_eq (hs : s.Sound) (h : Conserves given s out s')
    (same : solidsOf out = solidsOf given) :
    s'.tokens = s.tokens := by
  obtain ⟨ps, reads, solids, _⟩ := h
  have nothing : ps.flatMap Piece.solids = [] := by simpa [same] using solids
  have follows := reads.follows
  generalize tokens : s.tokens = ts at follows
  cases follows with
  | done => rfl
  | @token t ts _ _ tail =>
    have significant : t.isTrivia = false := by
      simpa [Token.isSignificant] using hs.settled t (by simp [tokens])
    simp [Piece.solids, significant] at nothing
  | sigil _ _ _ tail => simp [Piece.solids] at nothing
  | markup _ _ _ _ _ _ tail => simp [Piece.solids] at nothing

/-- Drafts with the same marks may stand for each other. -/
theorem of_same (hs : s.Sound) (solids : solidsOf out = solidsOf given)
    (extras : extrasOf out = extrasOf given) : Conserves given s out s :=
  ⟨[], .refl hs, by simp [solids], by simp [extras]⟩

/-- Tokens at the head become the pieces `ps`, comments among them wait. -/
theorem pieces (hs : s.Sound) (taken : List Token) {rest : List Token}
    (tokens : s.tokens = taken ++ rest)
    (settled : ∀ t, rest.head? = some t → t.isSignificant) {ps : List Piece} {leaves : List Draft}
    (follows : Follows s.source (taken ++ rest) ps rest) (some_taken : ps ≠ [] → taken ≠ [])
    (solids : solidsOf leaves = ps.flatMap Piece.solids) (extras : extrasOf leaves = [])
    (waits : extrasOf ((taken.filter Token.isTrivia).map extraLeaf) = ps.flatMap Piece.extras) :
    Conserves given s (given ++ leaves)
      { s with
        waiting := s.waiting ++ (taken.filter Token.isTrivia).map extraLeaf
        tokens := rest } := by
  have origin : ∀ d ∈ s.waiting ++ (taken.filter Token.isTrivia).map extraLeaf,
      d ∈ s.waiting ∨ ∃ t ∈ taken, t.isTrivia ∧ d = extraLeaf t := by
    intro d hd
    rcases List.mem_append.1 hd with old | new
    · exact .inl old
    · obtain ⟨t, ht, rfl⟩ := List.mem_map.1 new
      exact .inr ⟨t, (List.mem_filter.1 ht).1, (List.mem_filter.1 ht).2, rfl⟩
  obtain ⟨passes, further⟩ := hs.advance taken tokens settled origin
  refine ⟨ps, ⟨passes, ?_, fun h => further (some_taken h)⟩, ?_, ?_⟩
  · rw [tokens]
    exact follows
  · rw [solidsOf_append, solids]
  · simp [extras, waits]

/-- Tokens at the head become leaves. -/
theorem advance (hs : s.Sound) (taken : List Token) {rest : List Token}
    (tokens : s.tokens = taken ++ rest)
    (settled : ∀ t, rest.head? = some t → t.isSignificant) {leaves : List Draft}
    (solids : solidsOf leaves = (taken.filter Token.isSignificant).map tokenMark)
    (extras : extrasOf leaves = []) :
    Conserves given s (given ++ leaves)
      { s with
        waiting := s.waiting ++ (taken.filter Token.isTrivia).map extraLeaf
        tokens := rest } :=
  pieces hs taken tokens settled (.tokens _ taken rest) (by simp)
    (by rw [solids, Piece.solids_tokens]) extras (Piece.extras_tokens taken).symm

end Conserves

end RouteScript.Script
