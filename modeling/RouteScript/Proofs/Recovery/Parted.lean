import RouteScript.Proofs.Lossless.Rules
/-!
# Streams that part behind a line

Two streams go the same way up to the semicolon that ends a line, and part behind it. A reader that
stops at the semicolon, or takes it and looks no further than for an `else`, gives the same on both.
Every token that is taken makes the rest of the line shorter, which bounds the nesting.
-/
namespace RouteScript

/-- The word between the branches of an `if`. -/
def Token.IsElse (t : Token) : Prop := t.kind = .identifier ∧ t.word = "else"

/-- A token that may stand in a line. -/
structure Token.InLine (t : Token) : Prop where
  significant : t.isSignificant
  lBrace : t.kind ≠ .lBrace
  rBrace : t.kind ≠ .rBrace
  lt : t.kind ≠ .lt
  noElse : ¬ t.IsElse

/-- The tokens of a line: the only semicolon is the last one. -/
inductive IsLine : List Token → Prop
  | last (t : Token) (semicolon : t.kind = .semicolon) : IsLine [t]
  | cons {t : Token} {ts : List Token} (inLine : t.InLine) (inside : t.kind ≠ .semicolon)
      (tail : IsLine ts) : IsLine (t :: ts)

instance (t : Token) : Decidable t.IsElse :=
  inferInstanceAs (Decidable (t.kind = .identifier ∧ t.word = "else"))

instance (t : Token) : Decidable t.InLine :=
  decidable_of_iff (t.isSignificant ∧ t.kind ≠ .lBrace ∧ t.kind ≠ .rBrace ∧ t.kind ≠ .lt
      ∧ ¬ t.IsElse)
    ⟨fun ⟨significant, lBrace, rBrace, lt, noElse⟩ => ⟨significant, lBrace, rBrace, lt, noElse⟩,
      fun ⟨significant, lBrace, rBrace, lt, noElse⟩ => ⟨significant, lBrace, rBrace, lt, noElse⟩⟩

namespace IsLine

instance decidable : (ts : List Token) → Decidable (IsLine ts)
  | [] => isFalse fun h => nomatch h
  | [t] => decidable_of_iff (t.kind = .semicolon)
      ⟨.last t, fun h => match h with
        | .last _ semicolon => semicolon
        | .cons _ _ tail => nomatch tail⟩
  | t :: u :: ts =>
    have := decidable (u :: ts)
    decidable_of_iff (t.InLine ∧ t.kind ≠ .semicolon ∧ IsLine (u :: ts))
      ⟨fun ⟨inLine, inside, tail⟩ => .cons inLine inside tail,
        fun h => match h with
        | .cons inLine inside tail => ⟨inLine, inside, tail⟩⟩

variable {t : Token} {ts us : List Token}

theorem nonempty (h : IsLine ts) : ts ≠ [] := by
  cases h <;> simp

theorem inLine (h : IsLine ts) : ∀ t ∈ ts, t.InLine := by
  induction h with
  | last t semicolon =>
    have inLine : t.InLine := by
      constructor <;>
        simp [Token.isSignificant, Token.isTrivia, Token.Kind.isTrivia, Token.IsElse, semicolon]
    simpa using inLine
  | cons inLine _ _ ih => simpa using ⟨inLine, ih⟩

theorem suffix (h : IsLine (us ++ ts)) (nonempty : ts ≠ []) : IsLine ts := by
  induction us with
  | nil => exact h
  | cons u us ih =>
    rw [List.cons_append] at h
    generalize below : us ++ ts = vs at h
    cases h with
    | last _ _ => simp [nonempty] at below
    | cons _ _ tail => exact ih (below ▸ tail)

end IsLine

namespace Script

/-- What stands behind a line in two streams. -/
structure Tails where
  left : List Token
  right : List Token
  left_head : ∀ t, left.head? = some t → t.isSignificant ∧ ¬ t.IsElse
  right_head : ∀ t, right.head? = some t → t.isSignificant ∧ ¬ t.IsElse

/-- Sound streams with the same waiting nodes and these tokens ahead. -/
structure Forked (us vs : List Token) (s t : Stream) : Prop where
  left : s.Sound
  right : t.Sound
  waiting : t.waiting = s.waiting
  left_tokens : s.tokens = us
  right_tokens : t.tokens = vs

variable {α β σ : Type} {e : Tails} {n m : Nat} {s t : Stream} {w : Token}
  {ts us vs rest : List Token}

/-- Streams in the same line, of which at most `n` tokens are left. -/
def Parted (e : Tails) (n : Nat) (s t : Stream) : Prop :=
  ∃ ts, IsLine ts ∧ ts.length ≤ n ∧ Forked (ts ++ e.left) (ts ++ e.right) s t

/-- Streams behind the line. -/
abbrev Past (e : Tails) : Stream → Stream → Prop := Forked e.left e.right

namespace Forked

/-- The same tokens are taken from both streams. -/
theorem advance (h : Forked us vs s t) (taken : List Token) {us' vs' : List Token}
    (left : us = taken ++ us') (right : vs = taken ++ vs')
    (left_head : ∀ t, us'.head? = some t → t.isSignificant)
    (right_head : ∀ t, vs'.head? = some t → t.isSignificant) {waiting : List Draft}
    (origin : ∀ d ∈ waiting, d ∈ s.waiting) :
    Forked us' vs' { s with waiting, tokens := us' } { t with waiting, tokens := vs' } := by
  have sub : ∀ d ∈ waiting, d ∈ t.waiting := fun d hd => h.waiting ▸ origin d hd
  have passes := h.left.advance taken (h.left_tokens.trans left) left_head
    fun d hd => .inl (origin d hd)
  have passes' := h.right.advance taken (h.right_tokens.trans right) right_head
    fun d hd => .inl (sub d hd)
  exact ⟨passes.1.sound, passes'.1.sound, rfl, rfl, rfl⟩

theorem keep (h : Forked us vs s t) {waiting : List Draft} (sub : ∀ d ∈ waiting, d ∈ s.waiting) :
    Forked us vs { s with waiting } { t with waiting } := by
  obtain ⟨left, right, same, rfl, rfl⟩ := h
  exact ⟨(left.drop_waiting sub).sound, (right.drop_waiting fun d hd => same ▸ sub d hd).sound,
    rfl, rfl, rfl⟩

/-- A token is taken from both streams, and no comment stands behind it. -/
theorem next (h : Forked (w :: us) (w :: vs) s t)
    (left_head : ∀ t, us.head? = some t → t.isSignificant)
    (right_head : ∀ t, vs.head? = some t → t.isSignificant) :
    Script.next s = (some w, { s with tokens := us })
      ∧ Script.next t = (some w, { t with tokens := vs })
      ∧ Forked us vs { s with tokens := us } { t with tokens := vs } := by
  have settled {s : Stream} {us : List Token} (head : ∀ t, us.head? = some t → t.isSignificant) :
      ({ s with tokens := us } : Stream).settle = { s with tokens := us } := Stream.settle_eq head
  have later := h.advance [w] rfl rfl left_head right_head fun (d : Draft) (hd : d ∈ s.waiting) => hd
  refine ⟨?_, ?_, ?_⟩
  · simp [Script.next, h.left_tokens, settled left_head]
  · simp [Script.next, h.right_tokens, settled right_head]
  · rw [h.waiting]
    exact later

end Forked

theorem Parted.mono (h : Parted e m s t) (le : m ≤ n) : Parted e n s t := by
  obtain ⟨ts, line, short, forked⟩ := h
  exact ⟨ts, line, Nat.le_trans short le, forked⟩

theorem Parted.cases (h : Parted e n s t) : ∃ w ts, IsLine (w :: ts) ∧ ts.length < n
    ∧ Forked (w :: (ts ++ e.left)) (w :: (ts ++ e.right)) s t := by
  obtain ⟨ts, line, short, forked⟩ := h
  obtain ⟨w, ts, rfl⟩ := List.exists_cons_of_ne_nil line.nonempty
  exact ⟨w, ts, line, short, forked⟩

theorem Parted.keep (h : Parted e n s t) {waiting : List Draft} (sub : ∀ d ∈ waiting, d ∈ s.waiting) :
    Parted e n { s with waiting } { t with waiting } := by
  obtain ⟨ts, line, short, forked⟩ := h
  exact ⟨ts, line, short, forked.keep sub⟩

/-- A reader gives the same on both streams and stops in the line, or, if it `ends` it, behind. -/
def Agrees (e : Tails) (n : Nat) (s t : Stream) (x : Reader α) (ends : Prop := False) : Prop :=
  Parted e n s t → (x t).1 = (x s).1
    ∧ (Parted e n (x s).2 (x t).2 ∨ ends ∧ Past e (x s).2 (x t).2)

/-- A reader gives the same behind the line and takes nothing there. -/
def Rests (e : Tails) (s t : Stream) (x : Reader α) : Prop :=
  Past e s t → (x t).1 = (x s).1 ∧ Past e (x s).2 (x t).2

/-- A reader that looks at the waiting nodes only, and at most takes some of them in. -/
def Idle (x : Reader α) : Prop :=
  ∃ (f : List Draft → α) (g : List Draft → List Draft), (∀ ds, ∀ d ∈ g ds, d ∈ ds)
    ∧ ∀ s, x s = (f s.waiting, { s with waiting := g s.waiting })

namespace Idle

theorem pure (c : α) : Idle (Pure.pure c : Reader α) :=
  ⟨fun _ => c, id, fun _ _ => id, fun _ => rfl⟩

theorem node (kind : String) (ds : List Draft) : Idle (node kind ds) :=
  ⟨fun waiting => .branch kind ((waiting.filter (isInside ds)).foldl (fun cs d => insertByStart d cs)
    ds), fun waiting => waiting.filter fun d => !isInside ds d, fun _ _ hd => (List.mem_filter.1 hd).1,
    fun _ => rfl⟩

theorem errorNode (ds : List Draft) : Idle (errorNode ds) :=
  ⟨fun waiting => .error ((waiting.filter (isInside ds)).foldl (fun cs d => insertByStart d cs) ds),
    fun waiting => waiting.filter fun d => !isInside ds d, fun _ _ hd => (List.mem_filter.1 hd).1,
    fun _ => rfl⟩

theorem place (ds : List Draft) (item : Draft) : Idle (place ds item) :=
  ⟨fun waiting => ds ++ waiting.filter (fun d => d.start < item.start) ++ [item],
    fun waiting => waiting.filter fun d => !(d.start < item.start),
    fun _ _ hd => (List.mem_filter.1 hd).1, fun _ => rfl⟩

end Idle

namespace Rests

variable {x : Reader α} {k : α → Reader β}

theorem idle (h : Idle x) : Rests e s t x := by
  obtain ⟨f, g, sub, eq⟩ := h
  intro past
  have later := past.keep (sub s.waiting)
  rw [eq, eq, past.waiting]
  exact ⟨rfl, later⟩

/-- No `else` stands behind a line. -/
theorem isAtElse {k : Bool → Reader β} (h : Rests e s t (k false)) :
    Rests e s t (isAtWord "else" >>= k) := by
  intro past
  have free {us : List Token} (head : ∀ t, us.head? = some t → t.isSignificant ∧ ¬ t.IsElse) :
      (us.head?.any fun t => t.kind == .identifier && t.word == "else") = false := by
    cases us with
    | nil => rfl
    | cons u us =>
      have other := (head u rfl).2
      simpa [Token.IsElse] using other
  have eval {s : Stream} {us : List Token} (tokens : s.tokens = us)
      (head : ∀ t, us.head? = some t → t.isSignificant ∧ ¬ t.IsElse) :
      (isAtWord "else" >>= k) s = k false s := by
    change k (isAtWord "else" s).1 (isAtWord "else" s).2 = _
    rw [isAtWord_eq, tokens, free head]
  rw [eval past.left_tokens e.left_head, eval past.right_tokens e.right_head]
  exact h past

end Rests

namespace Agrees

variable {x y : Reader α} {k : α → Reader β} {ends : Prop}

theorem idle (h : Idle x) : Agrees e n s t x ends := by
  obtain ⟨f, g, sub, eq⟩ := h
  intro parted
  have later := parted.keep (sub s.waiting)
  have same : t.waiting = s.waiting := by
    obtain ⟨_, _, _, forked⟩ := parted
    exact forked.waiting
  rw [eq, eq, same]
  exact ⟨rfl, .inl later⟩

theorem pure (c : α) : Agrees e n s t (Pure.pure c) ends := idle (.pure c)

theorem node (kind : String) (ds : List Draft) : Agrees e n s t (node kind ds) ends :=
  idle (.node kind ds)

theorem errorNode (ds : List Draft) : Agrees e n s t (errorNode ds) ends := idle (.errorNode ds)

/-- Behind a reader that may end the line, the rest has to be content there. -/
theorem bindEnds {ended : Prop} (hx : Agrees e n s t x ended)
    (hk : ∀ {s t} c, Agrees e n s t (k c) ends)
    (hd : ended → ends ∧ ∀ {s t} c, Rests e s t (k c)) : Agrees e n s t (x >>= k) ends := by
  intro parted
  obtain ⟨same, later⟩ := hx parted
  change (k (x t).1 (x t).2).1 = (k (x s).1 (x s).2).1 ∧ (Parted e n (k (x s).1 (x s).2).2
    (k (x t).1 (x t).2).2 ∨ ends ∧ Past e (k (x s).1 (x s).2).2 (k (x t).1 (x t).2).2)
  rw [same]
  rcases later with parted' | ⟨ended, past⟩
  · exact hk _ parted'
  · obtain ⟨may, rest⟩ := hd ended
    obtain ⟨same', past'⟩ := rest _ past
    exact ⟨same', .inr ⟨may, past'⟩⟩

theorem bind (hx : Agrees e n s t x) (hk : ∀ {s t} c, Agrees e n s t (k c) ends) :
    Agrees e n s t (x >>= k) ends :=
  bindEnds hx hk False.elim

/-- What a reader gives on the first stream may be used behind it. -/
theorem bindGives {post : α → Stream → Prop} (gives : s.Sound → Gives x s post)
    (hx : Agrees e n s t x) (hk : ∀ {s t} c, post c s → Agrees e n s t (k c) ends) :
    Agrees e n s t (x >>= k) ends := by
  intro parted
  obtain ⟨same, parted' | ⟨impossible, _⟩⟩ := hx parted
  · have sound : s.Sound := by
      obtain ⟨_, _, _, forked⟩ := parted
      exact forked.left
    change (k (x t).1 (x t).2).1 = (k (x s).1 (x s).2).1 ∧ (Parted e n (k (x s).1 (x s).2).2
      (k (x t).1 (x t).2).2 ∨ ends ∧ Past e (k (x s).1 (x s).2).2 (k (x t).1 (x t).2).2)
    rw [same]
    exact hk _ (gives sound) parted'
  · contradiction

/-- A reader that does the same at these streams may stand for another. -/
theorem ofEq (hs : x s = y s) (ht : x t = y t) (h : Agrees e n s t y ends) :
    Agrees e n s t x ends := by
  unfold Agrees
  rw [hs, ht]
  exact h

/-- Both streams stand at the same token of the line. -/
theorem head (h : ∀ w us vs, s.tokens = w :: us → t.tokens = w :: vs →
      w.InLine → Agrees e n s t x ends) :
    Agrees e n s t x ends := by
  intro parted
  obtain ⟨w, ts, line, _, forked⟩ := parted.cases
  exact h w _ _ forked.left_tokens forked.right_tokens (line.inLine w (by simp)) parted

theorem peek {k : Option Token → Reader β}
    (h : ∀ w rest, s.tokens = w :: rest →
      w.InLine → Agrees e n s t (k (some w)) ends) :
    Agrees e n s t (peek >>= k) ends := by
  apply head
  intro w us vs left right kinds
  refine ofEq ?_ ?_ (h w us left kinds)
  · change k s.tokens.head? s = _
    rw [left]
    rfl
  · change k t.tokens.head? t = _
    rw [right]
    rfl

theorem peekKind {k : Option Token.Kind → Reader β}
    (h : ∀ w rest, s.tokens = w :: rest →
      w.InLine → Agrees e n s t (k (some w.kind)) ends) :
    Agrees e n s t (peekKind >>= k) ends := by
  apply head
  intro w us vs left right kinds
  refine ofEq ?_ ?_ (h w us left kinds)
  · change k (s.tokens.head?.map Token.kind) s = _
    rw [left]
    rfl
  · change k (t.tokens.head?.map Token.kind) t = _
    rw [right]
    rfl

theorem isAt {kind : Token.Kind} {k : Bool → Reader β}
    (yes : ∀ w rest, s.tokens = w :: rest → w.kind = kind → Agrees e n s t (k true) ends)
    (no : Agrees e n s t (k false) ends) : Agrees e n s t (isAt kind >>= k) ends := by
  refine peekKind (k := fun following => k (following == some kind)) fun w rest tokens _ => ?_
  by_cases there : w.kind = kind
  · simpa [there] using yes w rest tokens there
  · have other : (some w.kind == some kind) = false := by simpa using there
    rwa [other]

theorem isAtWord {word : String} {k : Bool → Reader β}
    (h : ∀ there, Agrees e n s t (k there) ends) : Agrees e n s t (isAtWord word >>= k) ends := by
  apply head
  intro w us vs left right _
  have eval {s : Stream} {us : List Token} (tokens : s.tokens = w :: us) :
      (Script.isAtWord word >>= k) s = k (w.kind == .identifier && w.word == word) s := by
    change k (Script.isAtWord word s).1 (Script.isAtWord word s).2 = _
    rw [isAtWord_eq, tokens]
    rfl
  exact ofEq (eval left) (eval right) (h _)

/-- No `else` stands in a line. -/
theorem isAtElse {k : Bool → Reader β} (h : Agrees e n s t (k false) ends) :
    Agrees e n s t (Script.isAtWord "else" >>= k) ends := by
  apply head
  intro w us vs left right inLine
  have other : (w.kind == .identifier && w.word == "else") = false := by
    simpa [Token.IsElse] using inLine.noElse
  have eval {s : Stream} {us : List Token} (tokens : s.tokens = w :: us) :
      (Script.isAtWord "else" >>= k) s = k false s := by
    change k (Script.isAtWord "else" s).1 (Script.isAtWord "else" s).2 = _
    rw [isAtWord_eq, tokens, ← other]
    rfl
  exact ofEq (eval left) (eval right) h

theorem isAdjacent {offset : Nat} {kind : Token.Kind} {k : Bool → Reader β}
    (yes : ∀ w rest, s.tokens = w :: rest → w.kind = kind → Agrees e n s t (k true) ends)
    (no : Agrees e n s t (k false) ends) : Agrees e n s t (isAdjacent offset kind >>= k) ends := by
  apply head
  intro w us vs left right _
  have eval {s : Stream} {us : List Token} (tokens : s.tokens = w :: us) :
      (Script.isAdjacent offset kind >>= k) s = k (w.kind == kind && w.start == offset) s := by
    change k (Script.isAdjacent offset kind s).1 (Script.isAdjacent offset kind s).2 = _
    rw [isAdjacent_eq, tokens]
    rfl
  refine ofEq (eval left) (eval right) ?_
  by_cases there : w.kind = kind ∧ w.start = offset
  · simpa [there.1, there.2] using yes w us left there.1
  · have other : (w.kind == kind && w.start == offset) = false := by
      simpa [Bool.and_eq_false_iff] using not_and.1 there
    rwa [other]

/-- What stands behind a token of the line that does not end it is in the line, too. -/
theorem peekSecondKind {k : Option Token.Kind → Reader β} (tokens : s.tokens = w :: rest)
    (inside : w.kind ≠ .semicolon) (h : ∀ following, Agrees e n s t (k following) ends) :
    Agrees e n s t (peekSecondKind >>= k) ends := by
  intro parted
  obtain ⟨w', ts, line, _, forked⟩ := parted.cases
  obtain rfl : w = w' := (List.cons.inj (tokens.symm.trans forked.left_tokens)).1
  cases line with
  | last _ semicolon => exact absurd semicolon inside
  | cons _ _ tail =>
    obtain ⟨u, ts, rfl⟩ := List.exists_cons_of_ne_nil tail.nonempty
    have significant : u.isSignificant := (tail.inLine u (by simp)).significant
    refine ofEq (y := k (some u.kind)) ?_ ?_ (h _) parted
    · change k ((s.tokens.tail.find? Token.isSignificant).map Token.kind) s = _
      rw [forked.left_tokens]
      simp [significant]
    · change k ((t.tokens.tail.find? Token.isSignificant).map Token.kind) t = _
      rw [forked.right_tokens]
      simp [significant]

theorem next {k : Option Token → Reader β} (tokens : s.tokens = w :: rest)
    (inside : w.kind ≠ .semicolon)
    (h : ∀ {m s t}, m < n → Agrees e m s t (k (some w)) ends) :
    Agrees e n s t (next >>= k) ends := by
  intro parted
  obtain ⟨w', ts, line, short, forked⟩ := parted.cases
  obtain rfl : w = w' := (List.cons.inj (tokens.symm.trans forked.left_tokens)).1
  cases line with
  | last _ semicolon => exact absurd semicolon inside
  | cons _ _ tail =>
    have head (more : List Token) : ∀ t, (ts ++ more).head? = some t → t.isSignificant := by
      obtain ⟨u, ts, rfl⟩ := List.exists_cons_of_ne_nil tail.nonempty
      rintro _ ⟨rfl⟩
      exact (tail.inLine u (by simp)).significant
    obtain ⟨first, second, later⟩ := forked.next (head e.left) (head e.right)
    have parted' : Parted e ts.length _ _ := ⟨ts, tail, Nat.le_refl _, later⟩
    obtain ⟨same, stay⟩ := h short parted'
    change (k (Script.next t).1 (Script.next t).2).1 = (k (Script.next s).1 (Script.next s).2).1
      ∧ (Parted e n (k (Script.next s).1 (Script.next s).2).2
        (k (Script.next t).1 (Script.next t).2).2 ∨ ends ∧ Past e
          (k (Script.next s).1 (Script.next s).2).2 (k (Script.next t).1 (Script.next t).2).2)
    rw [first, second]
    exact ⟨same, stay.imp_left (Parted.mono · (Nat.le_of_lt short))⟩

/-- Taking the semicolon ends the line. -/
theorem nextEnds {k : Option Token → Reader β} (tokens : s.tokens = w :: rest)
    (semicolon : w.kind = .semicolon) (h : ∀ {s t}, Rests e s t (k (some w))) :
    Agrees e n s t (Script.next >>= k) True := by
  intro parted
  obtain ⟨w', ts, line, short, forked⟩ := parted.cases
  obtain rfl : w = w' := (List.cons.inj (tokens.symm.trans forked.left_tokens)).1
  cases line with
  | cons _ inside _ => exact absurd semicolon inside
  | last _ _ =>
    obtain ⟨first, second, later⟩ := forked.next (fun t ht => (e.left_head t ht).1)
      fun t ht => (e.right_head t ht).1
    obtain ⟨same, past⟩ := h later
    change (k (Script.next t).1 (Script.next t).2).1 = (k (Script.next s).1 (Script.next s).2).1
      ∧ (Parted e n (k (Script.next s).1 (Script.next s).2).2
        (k (Script.next t).1 (Script.next t).2).2 ∨ True ∧ Past e
          (k (Script.next s).1 (Script.next s).2).2 (k (Script.next t).1 (Script.next t).2).2)
    rw [first, second]
    exact ⟨same, .inr ⟨trivial, past⟩⟩

theorem nextLeaf {k : List Draft → Reader β} (tokens : s.tokens = w :: rest)
    (inside : w.kind ≠ .semicolon)
    (h : ∀ {m s t}, m < n → Agrees e m s t (k [tokenLeaf w]) ends) :
    Agrees e n s t (nextLeaf >>= k) ends :=
  next (k := fun t => k (t.map tokenLeaf).toList) tokens inside h

theorem nextLeafEnds {k : List Draft → Reader β} (tokens : s.tokens = w :: rest)
    (semicolon : w.kind = .semicolon) (h : ∀ {s t}, Rests e s t (k [tokenLeaf w])) :
    Agrees e n s t (Script.nextLeaf >>= k) True :=
  nextEnds (k := fun t => k (t.map tokenLeaf).toList) tokens semicolon h

theorem nextKeyword {k : List Draft → Reader β} (tokens : s.tokens = w :: rest)
    (inside : w.kind ≠ .semicolon)
    (h : ∀ {m s t}, m < n → Agrees e m s t (k [keywordLeaf w]) ends) :
    Agrees e n s t (nextKeyword >>= k) ends :=
  next (k := fun t => k (t.map keywordLeaf).toList) tokens inside h

theorem optionalLeaf {kind : Token.Kind} (inside : kind ≠ .semicolon) :
    Agrees e n s t (optionalLeaf kind) := by
  refine isAt (fun w rest tokens there => ?_) (pure _)
  rw [if_pos rfl, ← bind_pure Script.nextLeaf]
  exact nextLeaf tokens (there ▸ inside) fun _ => pure _

theorem optionalSemicolon : Agrees e n s t (Script.optionalLeaf .semicolon) True := by
  refine isAt (fun w rest tokens there => ?_) (pure _)
  rw [if_pos rfl, ← bind_pure Script.nextLeaf]
  exact nextLeafEnds tokens there (.idle (.pure _))

theorem errorNodes (ds : List Draft) : Agrees e n s t (errorNodes ds) ends := by
  unfold Script.errorNodes
  split
  · exact pure _
  · exact bind (errorNode ds) fun _ => pure _

end Agrees

/-- A step refuses one of some tokens when it comes to it. -/
def Refuses (step : σ → Token → Option σ) : σ → List Token → Prop
  | _, [] => False
  | state, t :: ts => ∀ state', step state t = some state' → Refuses step state' ts

/-- A step that refuses a token of a line does not depend on what stands behind the line. -/
theorem takeSteps_append {step : σ → Token → Option σ} {state : σ} (refuses : Refuses step state ts)
    (significant : ∀ t ∈ ts, t.isSignificant) : ∃ final taken rest, ts = taken ++ rest ∧ rest ≠ []
      ∧ (∀ t ∈ taken, t.isSignificant)
      ∧ ∀ behind, takeSteps step state (taken ++ (rest ++ behind))
        = (final, taken, rest ++ behind) := by
  induction ts generalizing state with
  | nil => contradiction
  | cons t ts ih =>
    have here := significant t (by simp)
    have trivia : t.isTrivia = false := by simpa [Token.isSignificant] using here
    cases accepts : step state t with
    | none => exact ⟨state, [], t :: ts, rfl, by simp, by simp, by simp [takeSteps, trivia, accepts]⟩
    | some state' =>
      obtain ⟨final, taken, rest, rfl, nonempty, all, eq⟩ :=
        ih (refuses state' accepts) fun u hu => significant u (by simp [hu])
      refine ⟨final, t :: taken, rest, rfl, nonempty, by simpa using ⟨here, all⟩, fun behind => ?_⟩
      simp [takeSteps, trivia, accepts, eq]

/-- A step that never accepts a semicolon refuses one in every line. -/
theorem line_refuses {step : σ → Token → Option σ} (line : IsLine ts)
    (stops : ∀ state t, t.kind = .semicolon → step state t = none) (state : σ) :
    Refuses step state ts := by
  induction line generalizing state with
  | last t semicolon => simp [Refuses, stops state t semicolon]
  | cons _ _ _ ih => exact fun state' _ => ih state'

/-- A step that stops in the line takes the same tokens on both streams. -/
theorem Parted.collect {step : σ → Token → Option σ} {state : σ}
    (refuses : ∀ ts behind, IsLine ts → s.tokens = ts ++ behind → Refuses step state ts)
    (h : Parted e n s t) : (Script.collect step state t).1 = (Script.collect step state s).1
      ∧ Parted e n (Script.collect step state s).2 (Script.collect step state t).2 := by
  obtain ⟨ts, line, short, forked⟩ := h
  obtain ⟨final, taken, rest, rfl, nonempty, significant, eq⟩ :=
    takeSteps_append (refuses ts _ line forked.left_tokens) fun t ht => (line.inLine t ht).significant
  have trivia : taken.filter Token.isTrivia = [] := by
    rw [List.filter_eq_nil_iff]
    intro t ht
    simpa [Token.isSignificant] using significant t ht
  rw [List.append_assoc, List.append_assoc] at forked
  have eval {s : Stream} {behind : List Token} (tokens : s.tokens = taken ++ (rest ++ behind)) :
      Script.collect step state s = ((final, (taken.filter Token.isSignificant).map tokenLeaf),
        { s with waiting := s.waiting, tokens := rest ++ behind }) := by
    simp [Script.collect, tokens, eq, trivia]
  have line' : IsLine rest := line.suffix nonempty
  have head (more : List Token) : ∀ t, (rest ++ more).head? = some t → t.isSignificant := by
    obtain ⟨u, us, rfl⟩ := List.exists_cons_of_ne_nil nonempty
    rintro _ ⟨rfl⟩
    exact (line'.inLine u (by simp)).significant
  have later := forked.advance taken rfl rfl (head e.left) (head e.right) fun _ hd => hd
  have shorter : rest.length ≤ n := by
    rw [List.length_append] at short
    omega
  rw [eval forked.left_tokens, eval forked.right_tokens, forked.waiting]
  exact ⟨rfl, rest, line', shorter, later⟩

theorem collect_agrees {step : σ → Token → Option σ} (state : σ)
    (stops : ∀ state t, t.kind = .semicolon → step state t = none) :
    Agrees e n s t (collect step state) := fun parted =>
  (parted.collect fun _ _ line _ => line_refuses line stops state).imp_right .inl

theorem collectWhile_agrees {accepts : Token → Bool}
    (stops : ∀ t, t.kind = .semicolon → accepts t = false) :
    Agrees e n s t (collectWhile accepts) := by
  refine .bind (collect_agrees () fun _ t semicolon => ?_) fun _ => .pure _
  rw [if_neg (by simp [stops t semicolon])]

theorem Agrees.repeatUntil {inv : α → Prop} {step : α → Reader (α ⊕ β)} {unfinished : α → β}
    (advancing : Advancing inv step) (round : ∀ {s t} c, inv c → Agrees e n s t (step c)) {c : α}
    (hc : inv c) : Agrees e n s t (repeatUntil step unfinished c) := by
  intro parted
  generalize left : s.size - s.position = k
  induction k using Nat.strongRecOn generalizing c s t with
  | ind k ih =>
    obtain ⟨same, later | ⟨impossible, _⟩⟩ := round c hc parted
    obtain ⟨_, _, _, forked⟩ := parted
    obtain ⟨passes, further⟩ := advancing c s hc forked.left
    · rw [repeatUntil_eq advancing hc forked.left, repeatUntil_eq advancing hc forked.right]
      cases first : step c s with
      | mk result s' =>
        cases second : step c t with
        | mk result' t' =>
          rw [first] at passes further same later
          rw [second] at same later
          obtain rfl : result' = result := same
          cases result' with
          | inr b => exact ⟨rfl, .inl later⟩
          | inl c' =>
            obtain ⟨hc', onward⟩ := further c' rfl
            have size : s'.size = s.size := passes.size forked.left
            have bound : s'.position ≤ s'.size := passes.sound.toWhole.position_le
            change s.position < s'.position at onward
            exact ih (s'.size - s'.position) (by omega) hc' later rfl
    · contradiction

end Script

end RouteScript
