import RouteScript.Script.Stream
import RouteScript.Proofs.Lexing
import Mathlib.Data.List.TakeWhile
/-!
# Sound streams

A stream is sound when the tokens ahead cut the rest of its source and the nodes that wait are
comments and directives before them. Readers lead from sound streams to sound streams and never
back; a loop whose rounds all go on never runs out of rounds.
-/
namespace RouteScript.Script

variable {α β : Type}

theorem dropWhile_settled (ts : List Token) :
    ∀ t, (ts.dropWhile Token.isTrivia).head? = some t → t.isSignificant := by
  intro t ht
  have := List.head?_dropWhile_not Token.isTrivia ts
  rw [ht] at this
  simpa [Token.isSignificant] using this

theorem trivia_takeWhile (ts : List Token) :
    (ts.takeWhile Token.isTrivia).filter Token.isTrivia = ts.takeWhile Token.isTrivia :=
  List.filter_eq_self.2 fun _ hu => List.mem_takeWhile_imp hu

theorem significant_takeWhile (ts : List Token) :
    (ts.takeWhile Token.isTrivia).filter Token.isSignificant = [] :=
  List.filter_eq_nil_iff.2 fun u hu => by
    simpa [Token.isSignificant] using List.mem_takeWhile_imp hu

namespace Stream

/-- No comment at the head of the tokens has to wait. -/
theorem settle_eq {s : Stream} (settled : ∀ t, s.tokens.head? = some t → t.isSignificant) :
    s.settle = s := by
  obtain ⟨source, size, waiting, tokens⟩ := s
  cases tokens with
  | nil => simp [settle]
  | cons t ts =>
    have trivia : t.isTrivia = false := by simpa [Token.isSignificant] using settled t rfl
    simp [settle, trivia]

/-- Where the tokens ahead start, or the end of the source. -/
def position (s : Stream) : Nat := (s.tokens.head?.map Token.start).getD s.size

/-- The tokens ahead cut the rest of the source, and the waiting nodes stand before them. -/
structure Whole (s : Stream) : Prop where
  size : s.size = Text.size s.source
  cut : ∃ p : Spot, p.In s.source ∧ Cut Token.Scan.isGap p s.tokens ⟨s.size, []⟩
  waiting : ∀ d ∈ s.waiting, ∃ t : Token, t.isTrivia ∧ t.StandsIn s.source ∧ d = extraLeaf t
  ordered : ∀ d ∈ s.waiting, ∀ t ∈ s.tokens, d.stop ≤ t.start
  scanned : ∀ t ∈ s.tokens, t.ScannedIn s.source

structure Sound (s : Stream) : Prop extends Whole s where
  settled : ∀ t, s.tokens.head? = some t → t.isSignificant

theorem le_position {s : Stream} {p : Spot} (cut : Cut Token.Scan.isGap p s.tokens ⟨s.size, []⟩) :
    p.offset ≤ s.position := by
  unfold position
  cases tokens : s.tokens with
  | nil => exact cut.offset_le
  | cons t rest => exact (cut.bounds t (by simp [tokens])).1

/-- From one stream to a sound one over the same source that stands no earlier. -/
structure Passes (s s' : Stream) : Prop where
  sound : s'.Sound
  source : s'.source = s.source
  position : s.position ≤ s'.position

namespace Whole

variable {s : Stream} (h : s.Whole)
include h

theorem nonempty {t : Token} (ht : t ∈ s.tokens) : t.text ≠ [] := by
  obtain ⟨p, _, cut⟩ := h.cut
  exact cut.nonempty t ht

theorem slice? {t : Token} (ht : t ∈ s.tokens) :
    Text.slice? s.source t.start t.stop = some t.text := by
  obtain ⟨p, inside, cut⟩ := h.cut
  exact cut.slice? inside t ht

theorem spelled : ∀ t ∈ s.tokens, t.Spelled := fun t ht => (h.scanned t ht).spelled

theorem standsIn {t : Token} (ht : t ∈ s.tokens) : t.StandsIn s.source :=
  ⟨h.nonempty ht, h.slice? ht, h.scanned t ht⟩

theorem pairwise : s.tokens.Pairwise fun t u => t.stop ≤ u.start := by
  obtain ⟨p, _, cut⟩ := h.cut
  exact cut.pairwise

theorem position_le : s.position ≤ s.size := by
  obtain ⟨p, _, cut⟩ := h.cut
  unfold position
  cases tokens : s.tokens with
  | nil => exact Nat.le_refl _
  | cons t rest =>
    obtain ⟨_, before, behind⟩ := cut.bounds t (by simp [tokens])
    exact Nat.le_trans (Nat.le_of_lt before) behind

/-- Tokens at the head cut the text from the old position on, and not beyond the new one. -/
theorem cut_taken {t : Token} {more rest : List Token} (tokens : s.tokens = t :: more ++ rest)
    (waiting : List Draft) :
    ∃ p q, Cut Token.Scan.isGap p (t :: more) q ∧ p.offset = s.position ∧
      q.offset ≤ ({ s with waiting, tokens := rest } : Stream).position := by
  obtain ⟨_, _, cut⟩ := h.cut
  rw [tokens] at cut
  obtain ⟨p, start, _, cut⟩ := cut.start_eq rfl
  obtain ⟨q, left, right⟩ := cut.split
  exact ⟨p, q, left, by simp [start, position, tokens], le_position right⟩

/-- Taking tokens at the head keeps a stream sound, whatever becomes of the waiting nodes. -/
theorem advance (taken : List Token) {rest : List Token} {waiting : List Draft}
    (tokens : s.tokens = taken ++ rest)
    (settled : ∀ t, rest.head? = some t → t.isSignificant)
    (origin : ∀ d ∈ waiting, d ∈ s.waiting ∨ ∃ t ∈ taken, t.isTrivia ∧ d = extraLeaf t) :
    s.Passes { s with waiting, tokens := rest } ∧
      (taken ≠ [] → s.position < ({ s with waiting, tokens := rest } : Stream).position) := by
  obtain ⟨p, inside, cut⟩ := h.cut
  rw [tokens] at cut
  have order := List.pairwise_append.1 (tokens ▸ h.pairwise)
  obtain ⟨q, left, right⟩ := cut.split
  have sound : ({ s with waiting, tokens := rest } : Stream).Sound := by
    refine ⟨⟨h.size, ⟨q, left.place inside, right⟩, ?_, ?_, fun t ht => ?_⟩, settled⟩
    · intro d hd
      rcases origin d hd with old | ⟨t, ht, trivia, rfl⟩
      · exact h.waiting d old
      · exact ⟨t, trivia, h.standsIn (by simp [tokens, ht]), rfl⟩
    · intro d hd u hu
      rcases origin d hd with old | ⟨t, ht, _, rfl⟩
      · exact h.ordered d old u (by simp [tokens, show u ∈ rest from hu])
      · exact order.2.2 t ht u hu
    · exact h.scanned t (by simp [tokens, show t ∈ rest from ht])
  have strict : taken ≠ [] →
      s.position < ({ s with waiting, tokens := rest } : Stream).position := by
    intro some_taken
    obtain ⟨t, more, rfl⟩ := List.exists_cons_of_ne_nil some_taken
    have here : s.position = t.start := by simp [position, tokens]
    have bounds := left.bounds t (by simp)
    have high := right.offset_le
    simp only at high
    cases rest with
    | nil =>
      have there : ({ s with waiting, tokens := [] } : Stream).position = s.size := rfl
      omega
    | cons u rest =>
      have there : ({ s with waiting, tokens := u :: rest } : Stream).position = u.start := rfl
      have before := (right.bounds u (by simp)).1
      omega
  refine ⟨⟨sound, rfl, ?_⟩, strict⟩
  by_cases none_taken : taken = []
  · subst none_taken
    simp [position, tokens]
  · exact Nat.le_of_lt (strict none_taken)

theorem settle : s.Passes s.settle :=
  (h.advance _ List.takeWhile_append_dropWhile.symm (dropWhile_settled s.tokens) fun d hd => by
    rcases List.mem_append.1 hd with old | new
    · exact .inl old
    · obtain ⟨t, ht, rfl⟩ := List.mem_map.1 new
      exact .inr ⟨t, ht, List.mem_takeWhile_imp ht, rfl⟩).1

end Whole

namespace Sound

variable {s : Stream} (h : s.Sound)
include h

theorem refl : s.Passes s := ⟨h, rfl, Nat.le_refl _⟩

/-- Waiting nodes may be taken away. -/
theorem drop_waiting {waiting : List Draft} (sub : ∀ d ∈ waiting, d ∈ s.waiting) :
    s.Passes { s with waiting } :=
  (h.advance [] rfl h.settled fun d hd => .inl (sub d hd)).1

end Sound

theorem Passes.trans {s s' s'' : Stream} (h : s.Passes s') (h' : s'.Passes s'') : s.Passes s'' :=
  ⟨h'.sound, h'.source.trans h.source, Nat.le_trans h.position h'.position⟩

theorem Passes.size {s s' : Stream} (h : s.Passes s') (hs : s.Sound) : s'.size = s.size := by
  rw [h.sound.size, hs.size, h.source]

end Stream

/-- What a reader gives at a stream, and the stream behind it, are as `post` says. -/
def Gives (r : Reader α) (s : Stream) (post : α → Stream → Prop) : Prop := post (r s).1 (r s).2

theorem isAtWord_eq (word : String) (s : Stream) : isAtWord word s =
    (s.tokens.head?.any fun t => t.kind == .identifier && t.word == word, s) := by
  simp only [isAtWord, bind, StateT.bind, peek]
  cases s.tokens.head? <;> rfl

theorem isAdjacent_eq (offset : Nat) (kind : Token.Kind) (s : Stream) : isAdjacent offset kind s =
    (s.tokens.head?.any fun t => t.kind == kind && t.start == offset, s) := by
  simp only [isAdjacent, bind, StateT.bind, peek]
  cases s.tokens.head? <;> rfl

section Gives

variable {s : Stream} {x : Reader α} {k : α → Reader β} {mid : α → Stream → Prop}
  {post post' : β → Stream → Prop}

theorem Gives.pure {b : β} (h : post b s) : Gives (Pure.pure b) s post := h

theorem Gives.bind (hx : Gives x s mid) (hk : ∀ a s', mid a s' → Gives (k a) s' post) :
    Gives (x >>= k) s post := hk _ _ hx

theorem Gives.mono {r : Reader β} (h : Gives r s post) (imp : ∀ b s', post b s' → post' b s') :
    Gives r s post' := imp _ _ h

theorem Gives.and {r : Reader β} (h : Gives r s post) (h' : Gives r s post') :
    Gives r s fun b s' => post b s' ∧ post' b s' := ⟨h, h'⟩

/-- Looking at the next token changes nothing. -/
theorem gives_peek {k : Option Token → Reader β} (none : s.tokens = [] → Gives (k .none) s post)
    (some : ∀ t rest, s.tokens = t :: rest → Gives (k (.some t)) s post) :
    Gives (peek >>= k) s post := by
  change Gives (k s.tokens.head?) s post
  cases tokens : s.tokens with
  | nil => exact none tokens
  | cons t rest => exact some t rest tokens

theorem gives_peekKind {k : Option Token.Kind → Reader β}
    (none : s.tokens = [] → Gives (k .none) s post)
    (some : ∀ t rest, s.tokens = t :: rest → Gives (k (.some t.kind)) s post) :
    Gives (peekKind >>= k) s post := by
  change Gives (k (s.tokens.head?.map Token.kind)) s post
  cases tokens : s.tokens with
  | nil => exact none tokens
  | cons t rest => exact some t rest tokens

theorem gives_isAt {kind : Token.Kind} {k : Bool → Reader β}
    (yes : ∀ t rest, s.tokens = t :: rest → t.kind = kind → Gives (k true) s post)
    (no : Gives (k false) s post) : Gives (isAt kind >>= k) s post := by
  change Gives (k (s.tokens.head?.map Token.kind == .some kind)) s post
  cases tokens : s.tokens with
  | nil => exact no
  | cons t rest =>
    by_cases same : t.kind = kind
    · simpa [same] using yes t rest tokens same
    · have : ((t :: rest).head?.map Token.kind == .some kind) = false := by simp [same]
      rwa [this]

theorem gives_isAtWord {word : String} {k : Bool → Reader β}
    (yes : ∀ t rest, s.tokens = t :: rest → t.kind = .identifier → t.word = word →
      Gives (k true) s post)
    (no : Gives (k false) s post) : Gives (isAtWord word >>= k) s post := by
  change Gives (k (isAtWord word s).1) (isAtWord word s).2 post
  rw [isAtWord_eq]
  cases tokens : s.tokens with
  | nil => exact no
  | cons t rest =>
    by_cases same : t.kind = .identifier ∧ t.word = word
    · simpa [same.1, same.2] using yes t rest tokens same.1 same.2
    · have : (t.kind == .identifier && t.word == word) = false := by
        simpa [Bool.and_eq_false_iff] using not_and.1 same
      simpa [this] using no

theorem gives_isAdjacent {offset : Nat} {kind : Token.Kind} {k : Bool → Reader β}
    (yes : ∀ t rest, s.tokens = t :: rest → t.kind = kind → t.start = offset →
      Gives (k true) s post)
    (no : Gives (k false) s post) : Gives (isAdjacent offset kind >>= k) s post := by
  change Gives (k (isAdjacent offset kind s).1) (isAdjacent offset kind s).2 post
  rw [isAdjacent_eq]
  cases tokens : s.tokens with
  | nil => exact no
  | cons t rest =>
    by_cases same : t.kind = kind ∧ t.start = offset
    · simpa [same.1, same.2] using yes t rest tokens same.1 same.2
    · have : (t.kind == kind && t.start == offset) = false := by
        simpa [Bool.and_eq_false_iff] using not_and.1 same
      simpa [this] using no

theorem gives_next {k : Option Token → Reader β} (none : s.tokens = [] → Gives (k .none) s post)
    (some : ∀ t rest, s.tokens = t :: rest →
      Gives (k (.some t)) ({ s with tokens := rest } : Stream).settle post) :
    Gives (next >>= k) s post := by
  change Gives (k (next s).1) (next s).2 post
  unfold next
  split
  · rename_i tokens
    exact none tokens
  · rename_i t rest tokens
    exact some t rest tokens

theorem gives_place {children : List Draft} {item : Draft} {k : List Draft → Reader β}
    (h : Gives (k (children ++ s.waiting.filter (fun d => d.start < item.start) ++ [item]))
      { s with waiting := s.waiting.filter fun d => !(d.start < item.start) } post) :
    Gives (place children item >>= k) s post := h

theorem gives_flush {children : List Draft} {k : List Draft → Reader β}
    (h : Gives (k (children ++ s.waiting)) { s with waiting := [] } post) :
    Gives (flush children >>= k) s post := h

end Gives

/-- Every round of a step, on what satisfies the invariant, goes on in the source or ends. -/
def Advancing (inv : α → Prop) (step : α → Reader (α ⊕ β)) : Prop :=
  ∀ a s, inv a → s.Sound → Gives (step a) s fun result s' =>
    s.Passes s' ∧ ∀ a', result = .inl a' → inv a' ∧ s.position < s'.position

section Loop

variable {inv : α → Prop} {step : α → Reader (α ⊕ β)} {unfinished : α → β}

theorem repeatAtMost_succ (rounds : Nat) (a : α) (s : Stream) :
    repeatAtMost step unfinished (rounds + 1) a s = match step a s with
      | (.inl a', s') => repeatAtMost step unfinished rounds a' s'
      | (.inr b, s') => (b, s') := by
  simp only [repeatAtMost, bind, StateT.bind]
  rcases step a s with ⟨_ | _, _⟩ <;> rfl

/-- Enough rounds give the same result as any greater number of them. -/
theorem repeatAtMost_enough (h : Advancing inv step) {n m : Nat} {a : α} {s : Stream}
    (ha : inv a) (hs : s.Sound) (hn : s.size - s.position < n) (hm : s.size - s.position < m) :
    repeatAtMost step unfinished n a s = repeatAtMost step unfinished m a s := by
  induction n generalizing m a s with
  | zero => omega
  | succ n ih =>
    obtain ⟨m, rfl⟩ : ∃ k, m = k + 1 := ⟨m - 1, by omega⟩
    rw [repeatAtMost_succ, repeatAtMost_succ]
    obtain ⟨passes, next⟩ := h a s ha hs
    cases taken : step a s with
    | mk result s' =>
      rw [taken] at passes next
      cases result with
      | inr b => rfl
      | inl a' =>
        obtain ⟨ha', further⟩ : inv a' ∧ s.position < s'.position := next a' rfl
        have size : s'.size = s.size := passes.size hs
        have bound : s'.position ≤ s'.size := passes.sound.toWhole.position_le
        exact ih ha' passes.sound (by omega) (by omega)

/-- A loop whose rounds go on is its first round and the loop behind it. -/
theorem repeatUntil_eq (h : Advancing inv step) {a : α} {s : Stream} (ha : inv a) (hs : s.Sound) :
    repeatUntil step unfinished a s = match step a s with
      | (.inl a', s') => repeatUntil step unfinished a' s'
      | (.inr b, s') => (b, s') := by
  obtain ⟨passes, next⟩ := h a s ha hs
  unfold repeatUntil
  rw [repeatAtMost_succ]
  cases taken : step a s with
  | mk result s' =>
    rw [taken] at passes next
    cases result with
    | inr b => rfl
    | inl a' =>
      obtain ⟨ha', further⟩ : inv a' ∧ s.position < s'.position := next a' rfl
      have size : s'.size = s.size := passes.size hs
      have bound : s'.position ≤ s'.size := passes.sound.toWhole.position_le
      exact repeatAtMost_enough h ha' passes.sound (by omega) (by omega)

/-- What every round keeps holds behind the loop. -/
theorem gives_repeatUntil (h : Advancing inv step) (keeps : α → Stream → Prop)
    {post : β → Stream → Prop}
    (round : ∀ a s, inv a → s.Sound → keeps a s → Gives (step a) s fun result s' =>
      match result with
      | .inl a' => keeps a' s'
      | .inr b => post b s')
    {a : α} {s : Stream} (ha : inv a) (hs : s.Sound) (start : keeps a s) :
    Gives (repeatUntil step unfinished a) s post := by
  generalize left : s.size - s.position = n
  induction n using Nat.strongRecOn generalizing a s with
  | ind n ih =>
    obtain ⟨passes, next⟩ := h a s ha hs
    have kept := round a s ha hs start
    unfold Gives at kept ⊢
    rw [repeatUntil_eq h ha hs]
    cases taken : step a s with
    | mk result s' =>
      rw [taken] at passes next kept
      cases result with
      | inr b => exact kept
      | inl a' =>
        obtain ⟨ha', further⟩ : inv a' ∧ s.position < s'.position := next a' rfl
        have size : s'.size = s.size := passes.size hs
        have bound : s'.position ≤ s'.size := passes.sound.toWhole.position_le
        exact ih _ (by omega) ha' passes.sound kept rfl

/-- What every round keeps holds behind a loop that ends with what it carries. -/
theorem gives_repeatUntil_same {step : α → Reader (α ⊕ α)} {unfinished : α → α}
    (h : Advancing inv step) (keeps : α → Stream → Prop)
    (round : ∀ a s, inv a → s.Sound → keeps a s →
      Gives (step a) s fun result s' => keeps (Sum.elim id id result) s')
    {a : α} {s : Stream} (ha : inv a) (hs : s.Sound) (start : keeps a s) :
    Gives (repeatUntil step unfinished a) s keeps :=
  gives_repeatUntil h keeps (fun a s ha hs start => (round a s ha hs start).mono
    fun result _ kept => by
      cases result with
      | inl _ => exact kept
      | inr _ => exact kept) ha hs start

end Loop

end RouteScript.Script
