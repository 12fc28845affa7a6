import RouteScript.Proofs.Alike.Twin
import Mathlib.Data.List.Forall2
import Mathlib.Data.List.Pairwise
import Mathlib.Data.Sum.Basic
/-!
# Reading what looks the same

A reader sees of a token its kind, its text, whether it starts a line, and whether it stands right
behind the token before it, which it does not ask of an opening brace. On two streams whose
significant tokens look the same readers give twins and leave streams of the same look; comments and
places have no part in it.
-/
namespace RouteScript

/-- What a reader sees of a token. -/
structure Token.Look where
  kind : Token.Kind
  text : List Char
  newlineBefore : Bool
  /-- The token starts where the one before it ends. -/
  adjacent : Bool
  deriving DecidableEq, Repr

/-- The looks of tokens, the first of which stands behind the offset `last`. -/
def Token.looks : Option Nat → List Token → List Token.Look
  | _, [] => []
  | last, t :: ts =>
    ⟨t.kind, t.text, t.newlineBefore, last == some t.start⟩ :: looks (some t.stop) ts

/-- A token that is no opening brace and stands right behind the one before it. -/
def Token.Look.touches (l : Token.Look) : Bool := l.adjacent && l.kind ≠ .lBrace

namespace View

/-- What is seen of a look. -/
def look (view : View) (l : Token.Look) : Token.Look :=
  { l with text := view.see l.text, adjacent := l.touches }

/-- What is seen of tokens, the first of which stands behind the offset `last`. -/
def looks (view : View) (last : Option Nat) (ts : List Token) : List Token.Look :=
  (Token.looks last ts).map view.look

variable (view : View) (last : Option Nat)

@[simp] theorem looks_nil : view.looks last [] = [] := rfl

@[simp] theorem looks_cons (t : Token) (ts : List Token) :
    view.looks last (t :: ts) = ⟨t.kind, view.see t.text, t.newlineBefore,
      last == some t.start && t.kind ≠ .lBrace⟩ :: view.looks (some t.stop) ts := rfl

end View

namespace Script

open Draft

variable {α β σ : Type} {view : View} {p q : Option Nat} {s t : Stream}

/-- Sound streams whose significant tokens look the same behind two offsets. -/
structure Like (view : View) (p q : Option Nat) (s t : Stream) : Prop where
  left : s.Sound
  right : t.Sound
  source_left : s.source = view.left
  source_right : t.source = view.right
  looks : view.looks p (s.tokens.filter Token.isSignificant)
    = view.looks q (t.tokens.filter Token.isSignificant)

theorem filter_dropWhile_trivia (ts : List Token) :
    (ts.dropWhile Token.isTrivia).filter Token.isSignificant = ts.filter Token.isSignificant := by
  conv_rhs => rw [← List.takeWhile_append_dropWhile (p := Token.isTrivia) (l := ts)]
  rw [List.filter_append, significant_takeWhile, List.nil_append]

namespace Like

variable (h : Like view p q s t)
include h

theorem peers {u v : Token} (hu : u ∈ s.tokens) (hv : v ∈ t.tokens) (kind : v.kind = u.kind)
    (text : view.see v.text = view.see u.text) (newlineBefore : v.newlineBefore = u.newlineBefore) :
    Peers view u v := by
  refine ⟨kind, text, newlineBefore, ?_, ?_⟩
  · rw [← h.source_left]
    exact h.left.slice? hu
  · rw [← h.source_right]
    exact h.right.slice? hv

/-- Both streams are at their ends, or at tokens of the same look. -/
theorem cases : (s.tokens = [] ∧ t.tokens = []) ∨ ∃ u rest v rest', s.tokens = u :: rest
    ∧ t.tokens = v :: rest' ∧ Peers view u v
    ∧ (p == some u.start && u.kind ≠ .lBrace) = (q == some v.start && v.kind ≠ .lBrace)
    ∧ view.looks (some u.stop) (rest.filter Token.isSignificant)
      = view.looks (some v.stop) (rest'.filter Token.isSignificant) := by
  have same := h.looks
  cases tokens : s.tokens with
  | nil =>
    cases tokens' : t.tokens with
    | nil => exact .inl ⟨rfl, rfl⟩
    | cons v rest' =>
      have significant := h.right.settled v (by simp [tokens'])
      simp [tokens, tokens', significant] at same
  | cons u rest =>
    have significant := h.left.settled u (by simp [tokens])
    cases tokens' : t.tokens with
    | nil => simp [tokens, tokens', significant] at same
    | cons v rest' =>
      have significant' := h.right.settled v (by simp [tokens'])
      simp only [tokens, tokens', List.filter_cons, significant, significant', if_true,
        View.looks_cons, List.cons.injEq, Token.Look.mk.injEq] at same
      obtain ⟨⟨kind, text, newlineBefore, adjacent⟩, behind⟩ := same
      exact .inr ⟨u, rest, v, rest', rfl, rfl, h.peers (by simp [tokens]) (by simp [tokens'])
        kind.symm text.symm newlineBefore.symm, adjacent, behind⟩

/-- Waiting nodes may be taken away. -/
theorem keep {waiting waiting' : List Draft} (sub : ∀ d ∈ waiting, d ∈ s.waiting)
    (sub' : ∀ d ∈ waiting', d ∈ t.waiting) :
    Like view p q { s with waiting } { t with waiting := waiting' } :=
  ⟨(h.left.drop_waiting sub).sound, (h.right.drop_waiting sub').sound, h.source_left,
    h.source_right, h.looks⟩

theorem next {u v : Token} {rest rest' : List Token} (tokens : s.tokens = u :: rest)
    (tokens' : t.tokens = v :: rest')
    (behind : view.looks (some u.stop) (rest.filter Token.isSignificant)
      = view.looks (some v.stop) (rest'.filter Token.isSignificant)) :
    Like view (some u.stop) (some v.stop) (next s).2 (next t).2 := by
  have passes := (Conserves.next [] h.left tokens (solids_tokenLeaf u) (extras_tokenLeaf u)).passes
  have passes' :=
    (Conserves.next [] h.right tokens' (solids_tokenLeaf v) (extras_tokenLeaf v)).passes
  refine ⟨passes.sound, passes'.sound, passes.source.trans h.source_left,
    passes'.source.trans h.source_right, ?_⟩
  rw [next_snd tokens, next_snd tokens']
  simpa only [Stream.settle, filter_dropWhile_trivia] using behind

end Like

/-- Two readers, on streams that look the same, give related results and leave streams that look
the same, unless the result of the first is marked. -/
def Alike (view : View) (p q : Option Nat) (s t : Stream) (x y : Reader α)
    (rel : α → α → Prop) (marked : α → Prop := fun _ => False) : Prop :=
  Like view p q s t →
    marked (x s).1 ∨ rel (x s).1 (y t).1 ∧ ∃ p' q', Like view p' q' (x s).2 (y t).2

namespace Alike

variable {x y : Reader α} {k l : α → Reader β} {mid : α → α → Prop} {bad : α → Prop}
  {rel : β → β → Prop} {marked : β → Prop}

theorem pure {c d : β} (h : rel c d) : Alike view p q s t (Pure.pure c) (Pure.pure d) rel marked :=
  fun like => .inr ⟨h, p, q, like⟩

/-- What comes behind a marked result has to give a marked one. -/
theorem bindOr (hx : Alike view p q s t x y mid bad) (keep : ∀ c s, bad c → marked (k c s).1)
    (hk : ∀ {p q s t} c d, mid c d → Alike view p q s t (k c) (l d) rel marked) :
    Alike view p q s t (x >>= k) (y >>= l) rel marked := by
  intro like
  rcases hx like with tainted | ⟨related, p', q', like'⟩
  · exact .inl (keep _ _ tainted)
  · exact hk _ _ related like'

theorem bind (hx : Alike view p q s t x y mid)
    (hk : ∀ {p q s t} c d, mid c d → Alike view p q s t (k c) (l d) rel marked) :
    Alike view p q s t (x >>= k) (y >>= l) rel marked :=
  .bindOr hx (fun _ _ => False.elim) hk

theorem mono {rel' : β → β → Prop} {x y : Reader β} (h : Alike view p q s t x y rel)
    (imp : ∀ c d, rel c d → rel' c d) : Alike view p q s t x y rel' marked := fun like =>
  .inr ((h like).elim False.elim fun ⟨related, later⟩ => ⟨imp _ _ related, later⟩)

theorem peek {k l : Option Token → Reader β}
    (none : Alike view p q s t (k .none) (l .none) rel marked)
    (some : ∀ u v, Peers view u v → Alike view p q s t (k (.some u)) (l (.some v)) rel marked) :
    Alike view p q s t (peek >>= k) (peek >>= l) rel marked := by
  intro like
  change marked (k s.tokens.head? s).1 ∨ rel (k s.tokens.head? s).1 (l t.tokens.head? t).1 ∧
    ∃ p' q', Like view p' q' (k s.tokens.head? s).2 (l t.tokens.head? t).2
  rcases like.cases with ⟨nothing, nothing'⟩ | ⟨u, rest, v, rest', tokens, tokens', same, _⟩
  · rw [nothing, nothing']
    exact none like
  · rw [tokens, tokens']
    exact some u v same like

/-- Readers that do the same at these streams may stand for each other. -/
theorem ofEq {x y : Reader β} (x' y' : Reader β) (hx : x s = x' s) (hy : y t = y' t)
    (h : Alike view p q s t x' y' rel marked) : Alike view p q s t x y rel marked := by
  unfold Alike
  rw [hx, hy]
  exact h

theorem peekKind {k l : Option Token.Kind → Reader β}
    (h : ∀ following, Alike view p q s t (k following) (l following) rel marked) :
    Alike view p q s t (peekKind >>= k) (peekKind >>= l) rel marked := by
  intro like
  have same : t.tokens.head?.map Token.kind = s.tokens.head?.map Token.kind := by
    rcases like.cases with ⟨nothing, nothing'⟩ | ⟨u, rest, v, rest', tokens, tokens', same, _⟩
    · rw [nothing, nothing']
    · simp [tokens, tokens', same.kind]
  refine ofEq (k (s.tokens.head?.map Token.kind)) _ rfl ?_ (h _) like
  rw [← same]
  rfl

theorem isAt {kind : Token.Kind} {k l : Bool → Reader β}
    (h : ∀ there, Alike view p q s t (k there) (l there) rel marked) :
    Alike view p q s t (isAt kind >>= k) (isAt kind >>= l) rel marked :=
  peekKind (k := fun following => k (following == some kind))
    (l := fun following => l (following == some kind)) fun following => h (following == some kind)

theorem peekSecondKind {k l : Option Token.Kind → Reader β}
    (h : ∀ following, Alike view p q s t (k following) (l following) rel marked) :
    Alike view p q s t (peekSecondKind >>= k) (peekSecondKind >>= l) rel marked := by
  intro like
  have find (ts : List Token) :
      ts.find? Token.isSignificant = (ts.filter Token.isSignificant).head? :=
    List.head?_filter.symm
  have same : (t.tokens.tail.find? Token.isSignificant).map Token.kind
      = (s.tokens.tail.find? Token.isSignificant).map Token.kind := by
    rcases like.cases with ⟨nothing, nothing'⟩ | ⟨u, rest, v, rest', tokens, tokens', _, _, behind⟩
    · rw [nothing, nothing']
    · rw [tokens, tokens', List.tail_cons, List.tail_cons, find, find]
      cases ahead : rest.filter Token.isSignificant with
      | nil =>
        cases ahead' : rest'.filter Token.isSignificant with
        | nil => rfl
        | cons => simp [ahead, ahead'] at behind
      | cons =>
        cases ahead' : rest'.filter Token.isSignificant with
        | nil => simp [ahead, ahead'] at behind
        | cons =>
          simp only [ahead, ahead', View.looks_cons, List.cons.injEq, Token.Look.mk.injEq] at behind
          simp [behind.1.1]
  refine ofEq (k ((s.tokens.tail.find? Token.isSignificant).map Token.kind)) _ rfl ?_ (h _) like
  rw [← same]
  rfl

theorem isAtWord {word : String} {k l : Bool → Reader β} (plain : ¬ Quoted word)
    (h : ∀ there, Alike view p q s t (k there) (l there) rel marked) :
    Alike view p q s t (isAtWord word >>= k) (isAtWord word >>= l) rel marked := by
  intro like
  have same : (t.tokens.head?.any fun t => t.kind == .identifier && t.word == word)
      = s.tokens.head?.any fun t => t.kind == .identifier && t.word == word := by
    rcases like.cases with ⟨nothing, nothing'⟩ | ⟨u, rest, v, rest', tokens, tokens', same, _⟩
    · rw [nothing, nothing']
    · have read : (v.word == word) = (u.word == word) :=
        same.word fun _ quoted => quoted.beq_eq_false word plain
      simp [tokens, tokens', same.kind, read]
  refine ofEq (k (s.tokens.head?.any fun t => t.kind == .identifier && t.word == word))
    (l (s.tokens.head?.any fun t => t.kind == .identifier && t.word == word)) ?_ ?_ (h _) like
  · change k (Script.isAtWord word s).1 (Script.isAtWord word s).2 = _
    rw [isAtWord_eq]
  · change l (Script.isAtWord word t).1 (Script.isAtWord word t).2 = _
    rw [isAtWord_eq, same]

/-- Whether a token of some kind stands right behind the last ones. -/
theorem isAdjacent {m n : Nat} {kind : Token.Kind} {k l : Bool → Reader β}
    (noBrace : kind ≠ .lBrace)
    (yes : ∀ u rest v rest', s.tokens = u :: rest → t.tokens = v :: rest' → Peers view u v →
      u.start = m → v.start = n → Alike view (some m) (some n) s t (k true) (l true) rel marked)
    (no : Alike view (some m) (some n) s t (k false) (l false) rel marked) :
    Alike view (some m) (some n) s t (isAdjacent m kind >>= k) (isAdjacent n kind >>= l)
      rel marked := by
  intro like
  have eval {offset : Nat} {s : Stream} {k : Bool → Reader β} :
      (Script.isAdjacent offset kind >>= k) s
        = k (s.tokens.head?.any fun t => t.kind == kind && t.start == offset) s := by
    change k (Script.isAdjacent offset kind s).1 (Script.isAdjacent offset kind s).2 = _
    rw [isAdjacent_eq]
  rcases like.cases with ⟨nothing, nothing'⟩ | ⟨u, rest, v, rest', tokens, tokens', same, there, _⟩
  · refine ofEq (k false) (l false) ?_ ?_ no like
    · rw [eval, nothing]
      rfl
    · rw [eval, nothing']
      rfl
  · have reads : (v.kind == kind && v.start == n) = (u.kind == kind && u.start == m) := by
      rw [same.kind]
      by_cases expected : u.kind = kind
      · rw [same.kind, expected, Option.some_beq_some, Option.some_beq_some,
          decide_eq_true noBrace, Bool.and_true, Bool.and_true] at there
        rw [Bool.beq_comm (a := v.start), Bool.beq_comm (a := u.start), there]
      · rw [beq_eq_false_iff_ne.2 expected]
        rfl
    have first : (Script.isAdjacent m kind >>= k) s = k (u.kind == kind && u.start == m) s := by
      rw [eval, tokens]
      rfl
    have second : (Script.isAdjacent n kind >>= l) t = l (u.kind == kind && u.start == m) t := by
      rw [eval, tokens', ← reads]
      rfl
    refine ofEq _ _ first second ?_ like
    by_cases adjacent : u.kind = kind ∧ u.start = m
    · have start' : v.start = n := by simpa [same.kind, adjacent] using reads
      simpa [adjacent.1, adjacent.2] using yes u rest v rest' tokens tokens' same adjacent.2 start'
    · have other : (u.kind == kind && u.start == m) = false := by
        simpa [Bool.and_eq_false_iff] using not_and.1 adjacent
      rwa [other]

/-- The tokens that stand next are taken. -/
theorem take {k l : Option Token → Reader β} {u v : Token} {rest rest' : List Token}
    (tokens : s.tokens = u :: rest) (tokens' : t.tokens = v :: rest')
    (h : ∀ {s t}, Alike view (some u.stop) (some v.stop) s t (k (some u)) (l (some v)) rel marked) :
    Alike view p q s t (next >>= k) (next >>= l) rel marked := by
  intro like
  have first : (next s).1 = some u := by simp [next, tokens]
  have second : (next t).1 = some v := by simp [next, tokens']
  rcases like.cases with ⟨nothing, _⟩ | ⟨u', rest₁, v', rest₂, here, here', _, _, behind⟩
  · simp [tokens] at nothing
  · rw [tokens, List.cons.injEq] at here
    rw [tokens', List.cons.injEq] at here'
    obtain ⟨⟨rfl, rfl⟩, rfl, rfl⟩ := And.intro here here'
    have later := h (like.next tokens tokens' behind)
    rw [← first, ← second] at later
    exact later

theorem next {k l : Option Token → Reader β}
    (none : Alike view p q s t (k .none) (l .none) rel marked)
    (some : ∀ {s t} u v, Peers view u v →
      Alike view (.some u.stop) (.some v.stop) s t (k (.some u)) (l (.some v)) rel marked) :
    Alike view p q s t (next >>= k) (next >>= l) rel marked := by
  intro like
  rcases like.cases with ⟨nothing, nothing'⟩ | ⟨u, rest, v, rest', tokens, tokens', same, _⟩
  · have first : (Script.next >>= k) s = k .none s := by
      change k (Script.next s).1 (Script.next s).2 = _
      simp [Script.next, nothing]
    have second : (Script.next >>= l) t = l .none t := by
      change l (Script.next t).1 (Script.next t).2 = _
      simp [Script.next, nothing']
    exact ofEq _ _ first second none like
  · exact take tokens tokens' (some u v same) like

end Alike

/-- Drafts that are twins each on its own. -/
abbrev Single (view : View) (d e : Draft) : Prop := Twin view [d] [e]

theorem nextLeaf_alike : Alike view p q s t nextLeaf nextLeaf (Twin view) :=
  .next (.pure .nil) fun _ _ same => .pure (.tokenLeaf same)

theorem nextKeyword_alike : Alike view p q s t nextKeyword nextKeyword (Twin view) :=
  .next (.pure .nil) fun _ _ same => .pure (.keywordLeaf same)

theorem optionalLeaf_alike (kind : Token.Kind) :
    Alike view p q s t (optionalLeaf kind) (optionalLeaf kind) (Twin view) := by
  refine .isAt fun there => ?_
  cases there with
  | true => exact nextLeaf_alike
  | false => exact .pure .nil

/-- Comments and directives among the tokens have no influence on which ones are taken. -/
theorem takeSteps_filter (step : σ → Token → Option σ) (state : σ) (ts : List Token) :
    takeSteps step state (ts.filter Token.isSignificant) =
      ((takeSteps step state ts).1, (takeSteps step state ts).2.1.filter Token.isSignificant,
        (takeSteps step state ts).2.2.filter Token.isSignificant) := by
  induction ts generalizing state with
  | nil => rfl
  | cons t ts ih =>
    by_cases trivia : t.isTrivia
    · simp [takeSteps, Token.isSignificant, trivia, ih]
    · cases taken : step state t with
      | none => simp [takeSteps, Token.isSignificant, trivia, taken]
      | some state' => simp [takeSteps, Token.isSignificant, trivia, taken, ih]

/-- The end of the last of some tokens that stand behind an offset. -/
def endOf (last : Option Nat) (ts : List Token) : Option Nat :=
  (ts.getLast?.map Token.stop).or last

@[simp] theorem endOf_nil (last : Option Nat) : endOf last [] = last := rfl

theorem endOf_cons (last : Option Nat) (t : Token) (ts : List Token) :
    endOf last (t :: ts) = endOf (some t.stop) ts := by
  unfold endOf
  rw [List.getLast?_cons]
  cases ts.getLast? <;> rfl

theorem endOf_concat (last : Option Nat) (ts : List Token) (t : Token) :
    endOf last (ts ++ [t]) = some t.stop := by
  simp [endOf]

/-- A step that does not look at the places of tokens. -/
def Blind (step : σ → Token → Option σ) : Prop :=
  ∀ view state u v, Peers view u v → step state v = step state u

theorem takeSteps_peers {step : σ → Token → Option σ} (blind : Blind step) {us vs : List Token}
    (peers : List.Forall₂ (Peers view) us vs) (looks : view.looks p us = view.looks q vs)
    (significant : ∀ u ∈ us, u.isSignificant) (state : σ) :
    (takeSteps step state vs).1 = (takeSteps step state us).1
      ∧ List.Forall₂ (Peers view) (takeSteps step state us).2.1 (takeSteps step state vs).2.1
      ∧ view.looks (endOf p (takeSteps step state us).2.1) (takeSteps step state us).2.2
        = view.looks (endOf q (takeSteps step state vs).2.1) (takeSteps step state vs).2.2 := by
  induction peers generalizing p q state with
  | nil => exact ⟨rfl, .nil, rfl⟩
  | @cons u v us vs same peers ih =>
    have left : u.isTrivia = false := by simpa [Token.isSignificant] using significant u (by simp)
    have right : v.isTrivia = false := by
      rw [← left]
      exact congrArg Token.Kind.isTrivia same.kind
    have step_eq := blind view state u v same
    have behind : view.looks (some u.stop) us = view.looks (some v.stop) vs := by
      simp only [View.looks_cons, List.cons.injEq] at looks
      exact looks.2
    cases taken : step state u with
    | none =>
      rw [taken] at step_eq
      simpa [takeSteps, left, right, taken, step_eq] using looks
    | some state' =>
      rw [taken] at step_eq
      obtain ⟨final, all, rest⟩ := ih behind (fun w hw => significant w (by simp [hw])) state'
      simp only [takeSteps, left, right, taken, step_eq, Bool.false_eq_true, if_false]
      rw [endOf_cons, endOf_cons]
      exact ⟨final, .cons same all, rest⟩

theorem Like.all_peers (h : Like view p q s t) : List.Forall₂ (Peers view)
    (s.tokens.filter Token.isSignificant) (t.tokens.filter Token.isSignificant) := by
  have here (ts : List Token) : ∀ (us vs : List Token) {p q : Option Nat},
      view.looks p us = view.looks q vs → (∀ u ∈ us, u ∈ s.tokens) → (∀ v ∈ vs, v ∈ t.tokens) →
      List.Forall₂ (Peers view) us vs := by
    intro us
    induction us with
    | nil =>
      intro vs p q looks _ _
      cases vs with
      | nil => exact .nil
      | cons => simp at looks
    | cons u us ih =>
      intro vs p q looks left right
      cases vs with
      | nil => simp at looks
      | cons v vs =>
        simp only [View.looks_cons, List.cons.injEq, Token.Look.mk.injEq] at looks
        obtain ⟨⟨kind, text, newlineBefore, _⟩, behind⟩ := looks
        have same := h.peers (left u (by simp)) (right v (by simp)) kind.symm text.symm
          newlineBefore.symm
        exact .cons same (ih vs behind (fun w hw => left w (by simp [hw]))
          fun w hw => right w (by simp [hw]))
  exact here [] _ _ h.looks (fun _ hu => (List.mem_filter.1 hu).1)
    fun _ hv => (List.mem_filter.1 hv).1

/-- The significant ones among the tokens that are taken. -/
def takenOf (step : σ → Token → Option σ) (state : σ) (s : Stream) : List Token :=
  (takeSteps step state s.tokens).2.1.filter Token.isSignificant

/-- No waiting node reaches into a token. -/
def Clear (s : Stream) (t : Token) : Prop := ∀ d ∈ s.waiting, d.stop ≤ t.start ∨ t.stop ≤ d.start

theorem collect_clear (hs : s.Sound) (step : σ → Token → Option σ) (state : σ) {t : Token}
    (ht : t ∈ takenOf step state s) : Clear (collect step state s).2 t := by
  obtain ⟨tokens, _⟩ := takeSteps_eq step state s.tokens
  obtain ⟨taken, significant⟩ := List.mem_filter.1 ht
  have among {u : Token} (hu : u ∈ (takeSteps step state s.tokens).2.1) : u ∈ s.tokens := by
    rw [← tokens]
    exact List.mem_append_left _ hu
  intro d hd
  rcases List.mem_append.1 hd with old | new
  · exact .inl (hs.ordered d old t (among taken))
  · obtain ⟨u, hu, rfl⟩ := List.mem_map.1 new
    obtain ⟨taken', trivia⟩ := List.mem_filter.1 hu
    let Apart (t u : Token) : Prop := t.stop ≤ u.start ∨ u.stop ≤ t.start
    have : Std.Symm Apart := ⟨fun _ _ => Or.symm⟩
    have apart : s.tokens.Pairwise Apart := hs.pairwise.imp .inl
    have distinct : u ≠ t := by
      rintro rfl
      simp [Token.isSignificant, trivia] at significant
    exact apart.forall (among taken') (among taken) distinct

theorem Like.collect {step : σ → Token → Option σ} (blind : Blind step) (state : σ)
    (h : Like view p q s t) :
    (takeSteps step state t.tokens).1 = (takeSteps step state s.tokens).1
      ∧ List.Forall₂ (Peers view) (takenOf step state s) (takenOf step state t)
      ∧ Like view (endOf p (takenOf step state s)) (endOf q (takenOf step state t))
        (collect step state s).2 (collect step state t).2 := by
  obtain ⟨final, peers, looks⟩ := takeSteps_peers blind h.all_peers h.looks
    (fun _ hu => (List.mem_filter.1 hu).2) state
  simp only [takeSteps_filter] at final peers looks
  have passes := (collect_lossless step state s h.left solid_nil).1.passes
  have passes' := (collect_lossless step state t h.right solid_nil).1.passes
  exact ⟨final, peers, passes.sound, passes'.sound, passes.source.trans h.source_left,
    passes'.source.trans h.source_right, looks⟩

theorem Alike.collect {step : σ → Token → Option σ} (blind : Blind step) (state : σ)
    {k l : σ × List Draft → Reader β} {rel : β → β → Prop} {marked : β → Prop}
    (h : ∀ {p q s t} final us vs, List.Forall₂ (Peers view) us vs →
      Alike view p q s t (k (final, us.map tokenLeaf)) (l (final, vs.map tokenLeaf)) rel marked) :
    Alike view p q s t (collect step state >>= k) (collect step state >>= l) rel marked := by
  intro like
  obtain ⟨final, peers, like'⟩ := like.collect blind state
  have later := h (takeSteps step state s.tokens).1 _ _ peers like'
  have second : (Script.collect step state >>= l) t = l ((takeSteps step state s.tokens).1,
      (takenOf step state t).map tokenLeaf) (Script.collect step state t).2 := by
    rw [← final]
    rfl
  rw [second]
  exact later

theorem twin_tokenLeaf {us vs : List Token} (peers : List.Forall₂ (Peers view) us vs) :
    Twin view (us.map tokenLeaf) (vs.map tokenLeaf) := by
  induction peers with
  | nil => exact .nil
  | cons same _ ih => exact .cons (.tokenLeaf same) ih

theorem collect_alike {step : σ → Token → Option σ} (blind : Blind step) (state : σ) :
    Alike view p q s t (collect step state) (collect step state) fun c d => Twin view c.2 d.2 := by
  rw [← bind_pure (collect step state)]
  exact .collect blind state fun _ _ _ peers => .pure (twin_tokenLeaf peers)

theorem collectWhile_alike {accepts : Token → Bool}
    (blind : ∀ view u v, Peers view u v → accepts v = accepts u) :
    Alike view p q s t (collectWhile accepts) (collectWhile accepts) (Twin view) := by
  refine .bind (collect_alike (fun view _ u v same => ?_) ()) fun c d twin => .pure twin
  rw [blind view u v same]

section Nodes

variable {ds es : List Draft}

theorem node_alike (h : Twin view ds es) (kind : String) :
    Alike view p q s t (node kind ds) (node kind es) (Single view) := fun like =>
  .inr ⟨h.node like.left like.right kind, p, q,
    like.keep (fun _ hd => (List.mem_filter.1 hd).1) fun _ hd => (List.mem_filter.1 hd).1⟩

theorem errorNode_alike (h : Twin view ds es) :
    Alike view p q s t (errorNode ds) (errorNode es) (Single view) := fun like =>
  .inr ⟨h.errorNode like.left like.right, p, q,
    like.keep (fun _ hd => (List.mem_filter.1 hd).1) fun _ hd => (List.mem_filter.1 hd).1⟩

theorem errorNodes_alike (h : Twin view ds es) :
    Alike view p q s t (errorNodes ds) (errorNodes es) (Twin view) := by
  unfold errorNodes
  rw [h.isEmpty_eq]
  split
  · exact .pure .nil
  · exact .bind (errorNode_alike h) fun _ _ twin => .pure twin

end Nodes

/-- Results of the same outcome, which are related, or the same nodes taken before a failure. -/
inductive Ends (view : View) (ok : α → α → Prop) :
    Except (List Draft) α → Except (List Draft) α → Prop
  | ok {c d : α} (h : ok c d) : Ends view ok (.ok c) (.ok d)
  | error {ds es : List Draft} (h : Twin view ds es) : Ends view ok (.error ds) (.error es)

section Loop

variable {inv inv' : α → Prop} {step step' : α → Reader (α ⊕ β)} {unfinished : α → β}
  {rel : α → α → Prop} {done : β → β → Prop} {marked : β → Prop}

theorem Alike.repeatUntil (bad : α → Prop) (advancing : Advancing inv step)
    (advancing' : Advancing inv' step') (sound : ∀ c d, rel c d → inv c ∧ inv' d)
    (keep : ∀ c s, bad c → marked (Script.repeatUntil step unfinished c s).1)
    (round : ∀ {p q s t} c d, rel c d →
      Alike view p q s t (step c) (step' d) (Sum.LiftRel rel done) (Sum.elim bad marked))
    {c d : α} (h : rel c d) :
    Alike view p q s t (repeatUntil step unfinished c) (repeatUntil step' unfinished d)
      done marked := by
  intro like
  generalize left : s.size - s.position = n
  induction n using Nat.strongRecOn generalizing c d p q s t with
  | ind n ih =>
    obtain ⟨hc, hd⟩ := sound c d h
    obtain ⟨passes, further⟩ := advancing c s hc like.left
    have once := round c d h like
    rw [repeatUntil_eq advancing hc like.left, repeatUntil_eq advancing' hd like.right]
    cases first : step c s with
    | mk result s' =>
      cases second : step' d t with
      | mk result' t' =>
        rw [first] at passes further once
        rw [second] at once
        rcases once with tainted | ⟨related, p', q', like'⟩
        · cases result with
          | inl c' => exact .inl (keep c' s' tainted)
          | inr e => exact .inl tainted
        · cases related with
          | inr related => exact .inr ⟨related, p', q', like'⟩
          | inl related =>
            obtain ⟨_, onward⟩ := further _ rfl
            have size : s'.size = s.size := passes.size like.left
            have bound : s'.position ≤ s'.size := passes.sound.toWhole.position_le
            change s.position < s'.position at onward
            exact ih (s'.size - s'.position) (by omega) related like' rfl

/-- A loop in which nothing is ever marked. -/
theorem Alike.loop (advancing : Advancing inv step) (advancing' : Advancing inv' step')
    (sound : ∀ c d, rel c d → inv c ∧ inv' d)
    (round : ∀ {p q s t} c d, rel c d →
      Alike view p q s t (step c) (step' d) (Sum.LiftRel rel done))
    {c d : α} (h : rel c d) :
    Alike view p q s t (Script.repeatUntil step unfinished c) (Script.repeatUntil step' unfinished d)
      done :=
  .repeatUntil (fun _ => False) advancing advancing' sound (fun _ _ => False.elim)
    (fun c d h => (round c d h).mono fun _ _ => id) h

end Loop

end Script

end RouteScript
