import RouteScript.Proofs.Recovery.Block
/-!
# Streams inside a block

An `if`, `else` or `while` takes the statement behind it as its body, and a closing brace is no
exception. In a block where such a word always has a semicolon or a block behind it, every reader,
its recovery included, stops at the closing brace at the latest, and the block ends there.
-/
namespace RouteScript

namespace Token

/-- A word that takes a block or a statement as its body. -/
def isControl (t : Token) : Bool :=
  t.kind == .identifier && (t.word == "if" || t.word == "else" || t.word == "while")

/-- A token that is neither trivia nor the end of a statement and starts no markup or variable. -/
def isPlain (t : Token) : Bool :=
  t.isSignificant && t.kind != .semicolon && t.kind != .lBrace && t.kind != .rBrace
    && t.kind != .lt && t.kind != .dollar

/-- Behind `depth` open blocks all braces match, and none closes a block while a control word of it
still waits for a semicolon or block. -/
def wellBraced : Bool → Nat → List Token → Bool
  | pending, depth, [] => depth == 0 && !pending
  | pending, depth, t :: ts =>
    if t.kind == .semicolon then wellBraced false depth ts
    else if t.kind == .lBrace then wellBraced false (depth + 1) ts
    else if t.kind == .rBrace then !pending && depth != 0 && wellBraced false (depth - 1) ts
    else t.isPlain && wellBraced (pending || t.isControl) depth ts

variable {t : Token} {ts : List Token} {pending : Bool} {depth : Nat}

theorem wellBraced_nil : wellBraced pending depth [] = (depth == 0 && !pending) := rfl

theorem wellBraced_cons : wellBraced pending depth (t :: ts) =
    if t.kind == .semicolon then wellBraced false depth ts
    else if t.kind == .lBrace then wellBraced false (depth + 1) ts
    else if t.kind == .rBrace then !pending && depth != 0 && wellBraced false (depth - 1) ts
    else t.isPlain && wellBraced (pending || t.isControl) depth ts := rfl

theorem wellBraced_semicolon (kind : t.kind = .semicolon) :
    wellBraced pending depth (t :: ts) = wellBraced false depth ts := by
  simp [wellBraced_cons, kind]

theorem wellBraced_open (kind : t.kind = .lBrace) :
    wellBraced pending depth (t :: ts) = wellBraced false (depth + 1) ts := by
  simp [wellBraced_cons, kind]

theorem wellBraced_close (kind : t.kind = .rBrace) :
    wellBraced pending depth (t :: ts) =
      (!pending && depth != 0 && wellBraced false (depth - 1) ts) := by
  simp [wellBraced_cons, kind]

theorem wellBraced_plain (plain : t.isPlain) :
    wellBraced pending depth (t :: ts) = wellBraced (pending || t.isControl) depth ts := by
  simp only [isPlain, Bool.and_eq_true, bne_iff_ne] at plain
  simp [wellBraced_cons, isPlain, plain]

/-- The first of some tokens whose braces match. -/
theorem wellBraced_cases (h : wellBraced pending depth (t :: ts)) :
    (t.kind = .semicolon ∧ wellBraced false depth ts) ∨
    (t.kind = .lBrace ∧ wellBraced false (depth + 1) ts)
      ∨ (t.kind = .rBrace ∧ pending = false ∧ depth ≠ 0 ∧ wellBraced false (depth - 1) ts)
      ∨ (t.isPlain ∧ wellBraced (pending || t.isControl) depth ts) := by
  rw [wellBraced_cons] at h
  split at h
  · rename_i kind
    exact .inl ⟨by simpa using kind, h⟩
  · split at h
    · rename_i kind
      exact .inr (.inl ⟨by simpa using kind, h⟩)
    · split at h
      · rename_i kind
        simp only [Bool.and_eq_true, Bool.not_eq_true', bne_iff_ne, and_assoc] at h
        exact .inr (.inr (.inl ⟨by simpa using kind, h⟩))
      · simp only [Bool.and_eq_true] at h
        exact .inr (.inr (.inr h))

/-- It does no harm if a control word does not wait. -/
theorem wellBraced_settle (h : wellBraced pending depth ts) : wellBraced false depth ts := by
  cases pending with
  | false => exact h
  | true =>
    induction ts with
    | nil => simp [wellBraced_nil] at h
    | cons t ts ih =>
      rcases wellBraced_cases h with ⟨kind, later⟩ | ⟨kind, later⟩ | ⟨_, impossible, _⟩ |
        ⟨plain, later⟩
      · rwa [wellBraced_semicolon kind]
      · rwa [wellBraced_open kind]
      · contradiction
      · rw [wellBraced_plain plain]
        cases t.isControl with
        | false => exact ih later
        | true => exact later

theorem wellBraced_significant (h : wellBraced pending depth ts) : ∀ t ∈ ts, t.isSignificant := by
  induction ts generalizing pending depth with
  | nil => simp
  | cons t ts ih =>
    have known {kind : Token.Kind} (same : t.kind = kind) (noTrivia : kind.isTrivia = false) :
        t.isSignificant := by simp [isSignificant, isTrivia, same, noTrivia]
    rcases wellBraced_cases h with ⟨kind, later⟩ | ⟨kind, later⟩ | ⟨kind, _, _, later⟩ |
      ⟨plain, later⟩
    · exact List.forall_mem_cons.2 ⟨known kind rfl, ih later⟩
    · exact List.forall_mem_cons.2 ⟨known kind rfl, ih later⟩
    · exact List.forall_mem_cons.2 ⟨known kind rfl, ih later⟩
    · simp only [isPlain, Bool.and_eq_true] at plain
      exact List.forall_mem_cons.2 ⟨plain.1.1.1.1.1, ih later⟩

/-- A block that is open closes. -/
theorem wellBraced_split {outer : Nat} (h : wellBraced pending (outer + 1 + depth) ts) :
    ∃ inner close rest, ts = inner ++ close :: rest ∧ close.kind = .rBrace
      ∧ wellBraced pending depth inner ∧ wellBraced false outer rest := by
  induction ts generalizing pending depth with
  | nil => simp [wellBraced_nil] at h
  | cons t ts ih =>
    rcases wellBraced_cases h with
      ⟨kind, later⟩ | ⟨kind, later⟩ | ⟨kind, rfl, _, later⟩ | ⟨plain, later⟩
    · obtain ⟨inner, close, rest, rfl, closes, wellBraced, behind⟩ := ih later
      exact ⟨t :: inner, close, rest, rfl, closes, by rwa [wellBraced_semicolon kind], behind⟩
    · obtain ⟨inner, close, rest, rfl, closes, wellBraced, behind⟩ :=
        ih (show wellBraced false (outer + 1 + (depth + 1)) ts from later)
      exact ⟨t :: inner, close, rest, rfl, closes, by rwa [wellBraced_open kind], behind⟩
    · cases depth with
      | zero => exact ⟨[], t, ts, rfl, kind, rfl, later⟩
      | succ depth =>
        obtain ⟨inner, close, rest, rfl, closes, wellBraced, behind⟩ := ih later
        exact ⟨t :: inner, close, rest, rfl, closes,
          by simpa [wellBraced_close kind] using wellBraced, behind⟩
    · obtain ⟨inner, close, rest, rfl, closes, wellBraced, behind⟩ := ih later
      exact ⟨t :: inner, close, rest, rfl, closes, by rwa [wellBraced_plain plain], behind⟩

end Token

namespace Script

/-- The closing brace of a block and what stands behind it. -/
structure Tail where
  close : Token
  rest : List Token
  closes : close.kind = .rBrace
  settled : ∀ t, rest.head? = some t → t.isSignificant

/-- A sound stream with these tokens ahead and no comment that waits. -/
structure Ready (ts : List Token) (s : Stream) : Prop where
  sound : s.Sound
  waiting : s.waiting = []
  tokens : s.tokens = ts

variable {α β σ : Type} {e : Tail} {p q r : Bool} {n m : Nat} {s : Stream} {w : Token}
  {ts rest : List Token}

/-- A stream in a block, of which at most `n` tokens are left, with a control word pending or not. -/
def Inside (e : Tail) (pending : Bool) (n : Nat) (s : Stream) : Prop :=
  ∃ ts, Token.wellBraced pending 0 ts ∧ ts.length ≤ n ∧ Ready (ts ++ e.close :: e.rest) s

theorem Ready.next (h : Ready (w :: ts) s) (settled : ∀ t, ts.head? = some t → t.isSignificant) :
    Script.next s = (some w, { s with tokens := ts }) ∧ Ready ts { s with tokens := ts } := by
  have passes := h.sound.advance [w] h.tokens settled fun d (hd : d ∈ s.waiting) => .inl hd
  have settle : ({ s with tokens := ts } : Stream).settle = { s with tokens := ts } :=
    Stream.settle_eq settled
  exact ⟨by simp [Script.next, h.tokens, settle], passes.1.sound, h.waiting, rfl⟩

theorem Tail.head_significant (e : Tail) {ts : List Token} (significant : ∀ t ∈ ts, t.isSignificant) :
    ∀ t, (ts ++ e.close :: e.rest).head? = some t → t.isSignificant := by
  cases ts with
  | nil =>
    rintro _ ⟨rfl⟩
    simp [Token.isSignificant, Token.isTrivia, e.closes, Token.Kind.isTrivia]
  | cons t ts =>
    rintro _ ⟨rfl⟩
    exact significant t (by simp)

namespace Inside

theorem mono (h : Inside e p m s) (le : m ≤ n) : Inside e p n s := by
  obtain ⟨ts, wellBraced, short, ready⟩ := h
  exact ⟨ts, wellBraced, Nat.le_trans short le, ready⟩

theorem settle (h : Inside e p n s) : Inside e false n s := by
  obtain ⟨ts, wellBraced, short, ready⟩ := h
  exact ⟨ts, Token.wellBraced_settle wellBraced, short, ready⟩

/-- A token that does not end a statement is plain and has the rest of the block behind it. -/
theorem step (h : Inside e p n s) (tokens : s.tokens = w :: rest) (onward : isBlockOrEnd w = false) :
    w.isPlain ∧ Script.next s = (some w, { s with tokens := rest })
      ∧ ∃ m < n, Inside e (p || w.isControl) m { s with tokens := rest } := by
  obtain ⟨ts, wellBraced, short, ready⟩ := h
  simp only [isBlockOrEnd, Bool.or_eq_false_iff, beq_eq_false_iff_ne] at onward
  have eq := tokens.symm.trans ready.tokens
  cases ts with
  | nil =>
    obtain ⟨rfl, _⟩ := List.cons.inj eq
    exact absurd e.closes onward.1.2
  | cons t ts =>
    obtain ⟨rfl, rfl⟩ := List.cons.inj eq
    rcases Token.wellBraced_cases wellBraced with ⟨kind, _⟩ | ⟨kind, _⟩ | ⟨kind, _⟩ | ⟨plain, later⟩
    · exact absurd kind onward.2
    · exact absurd kind onward.1.1
    · exact absurd kind onward.1.2
    · obtain ⟨taken, behind⟩ := ready.next (e.head_significant (Token.wellBraced_significant later))
      exact ⟨plain, taken, ts.length, short, ts, later, Nat.le_refl _, behind⟩

/-- A semicolon lets no control word wait. -/
theorem stepSemicolon (h : Inside e p n s) (tokens : s.tokens = w :: rest)
    (semicolon : w.kind = .semicolon) : Script.next s = (some w, { s with tokens := rest })
      ∧ Inside e false n { s with tokens := rest } := by
  obtain ⟨ts, wellBraced, short, ready⟩ := h
  have eq := tokens.symm.trans ready.tokens
  cases ts with
  | nil =>
    obtain ⟨rfl, _⟩ := List.cons.inj eq
    simp [e.closes] at semicolon
  | cons t ts =>
    obtain ⟨rfl, rfl⟩ := List.cons.inj eq
    rw [Token.wellBraced_semicolon semicolon] at wellBraced
    obtain ⟨taken, behind⟩ :=
      ready.next (e.head_significant (Token.wellBraced_significant wellBraced))
    exact ⟨taken, ts, wellBraced, Nat.le_of_succ_le short, behind⟩

/-- Behind an opening brace stands a block that closes, and behind it the rest of this block. -/
theorem stepOpen (h : Inside e p n s) (tokens : s.tokens = w :: rest) (opens : w.kind = .lBrace) :
    Script.next s = (some w, { s with tokens := rest }) ∧ ∃ (e' : Tail) (m : Nat), m < n
      ∧ Inside e' false m { s with tokens := rest }
      ∧ ∀ s', Ready e'.rest s' → Inside e false n s' := by
  obtain ⟨ts, wellBraced, short, ready⟩ := h
  have eq := tokens.symm.trans ready.tokens
  cases ts with
  | nil =>
    obtain ⟨rfl, _⟩ := List.cons.inj eq
    simp [e.closes] at opens
  | cons t ts =>
    obtain ⟨rfl, rfl⟩ := List.cons.inj eq
    rw [Token.wellBraced_open opens] at wellBraced
    have significant := Token.wellBraced_significant wellBraced
    obtain ⟨taken, behind⟩ := ready.next (e.head_significant significant)
    obtain ⟨inner, close, ts', rfl, closes, wellBraced', wellBraced''⟩ :=
      @Token.wellBraced_split _ false 0 _ wellBraced
    let e' : Tail := ⟨close, ts' ++ e.close :: e.rest, closes,
      e.head_significant fun t ht => significant t (by simp [ht])⟩
    simp only [List.length_cons, List.length_append] at short
    refine ⟨taken, e', inner.length, by omega, ⟨inner, wellBraced', Nat.le_refl _, ?_⟩,
      fun s' there => ?_⟩
    · simpa [e'] using behind
    · exact ⟨ts', wellBraced'', by omega, there⟩

/-- While a control word waits the block does not close. -/
theorem not_close (h : Inside e true n s) (tokens : s.tokens = w :: rest) : w.kind ≠ .rBrace := by
  obtain ⟨ts, wellBraced, _, ready⟩ := h
  have eq := tokens.symm.trans ready.tokens
  cases ts with
  | nil => simp [Token.wellBraced_nil] at wellBraced
  | cons t ts =>
    obtain ⟨rfl, _⟩ := List.cons.inj eq
    intro kind
    simp [Token.wellBraced_close kind] at wellBraced

/-- At its closing brace a block ends. -/
theorem stepClose (h : Inside e p n s) (tokens : s.tokens = w :: rest) (closes : w.kind = .rBrace) :
    w = e.close ∧ Script.next s = (some w, { s with tokens := rest })
      ∧ Ready e.rest { s with tokens := rest } := by
  obtain ⟨ts, wellBraced, _, ready⟩ := h
  have eq := tokens.symm.trans ready.tokens
  cases ts with
  | nil =>
    obtain ⟨rfl, rfl⟩ := List.cons.inj eq
    obtain ⟨taken, behind⟩ := ready.next e.settled
    exact ⟨rfl, taken, behind⟩
  | cons t ts =>
    obtain ⟨rfl, _⟩ := List.cons.inj eq
    simp [Token.wellBraced_close closes] at wellBraced

theorem head (h : Inside e p n s) : ∃ w rest, s.tokens = w :: rest := by
  obtain ⟨ts, _, _, ready⟩ := h
  rw [ready.tokens]
  exact List.exists_cons_of_ne_nil (by simp)

theorem sound (h : Inside e p n s) : s.Sound := by
  obtain ⟨_, _, _, ready⟩ := h
  exact ready.sound

end Inside

/-- A reader does not leave the block. -/
def Stays (e : Tail) (p q : Bool) (n : Nat) (s : Stream) (x : Reader α) : Prop :=
  Inside e p n s → Inside e q n (x s).2

namespace Stays

variable {x y : Reader α} {k : α → Reader β}

theorem idle (h : Idle x) : Stays e p p n s x := by
  rintro ⟨ts, wellBraced, short, sound, waiting, tokens⟩
  obtain ⟨f, g, sub, eq⟩ := h
  have nothing : g s.waiting = [] := by
    rw [List.eq_nil_iff_forall_not_mem]
    intro d hd
    have old := sub _ d hd
    simp [waiting] at old
  have same : (x s).2 = s := by
    rw [eq, nothing, ← waiting]
  rw [same]
  exact ⟨ts, wellBraced, short, sound, waiting, tokens⟩

theorem pure (c : α) : Stays e p p n s (Pure.pure c : Reader α) := idle (.pure c)

theorem node (kind : String) (ds : List Draft) : Stays e p p n s (node kind ds) :=
  idle (.node kind ds)

theorem errorNode (ds : List Draft) : Stays e p p n s (errorNode ds) := idle (.errorNode ds)

theorem bind (hx : Stays e p q n s x) (hk : ∀ {s} c, Stays e q r n s (k c)) :
    Stays e p r n s (x >>= k) := fun inside => hk _ (hx inside)

/-- What a reader gives may be used behind it. -/
theorem bindGives {post : α → Stream → Prop} (gives : s.Sound → Gives x s post)
    (hx : Stays e p q n s x) (hk : ∀ {s} c, post c s → Stays e q r n s (k c)) :
    Stays e p r n s (x >>= k) := fun inside => hk _ (gives inside.sound) (hx inside)

theorem settle (h : Stays e p q n s x) : Stays e p false n s x := fun inside => (h inside).settle

/-- While a control word waits there is more of the block. -/
theorem pending (h : (∀ w rest, s.tokens = w :: rest → w.kind ≠ .rBrace) → Stays e true q n s x) :
    Stays e true q n s x :=
  fun inside => h (fun _ _ tokens => inside.not_close tokens) inside

theorem errorNodes (ds : List Draft) : Stays e p p n s (errorNodes ds) := by
  unfold Script.errorNodes
  split
  · exact pure _
  · exact bind (errorNode ds) fun _ => pure _

theorem head (h : ∀ w rest, s.tokens = w :: rest → Stays e p q n s x) : Stays e p q n s x := by
  intro inside
  obtain ⟨w, rest, tokens⟩ := inside.head
  exact h w rest tokens inside

theorem peek {k : Option Token → Reader β}
    (h : ∀ w rest, s.tokens = w :: rest → Stays e p q n s (k (some w))) :
    Stays e p q n s (peek >>= k) := by
  refine head fun w rest tokens => ?_
  change Inside e p n s → Inside e q n (k s.tokens.head? s).2
  rw [tokens]
  exact h w rest tokens

theorem peekKind {k : Option Token.Kind → Reader β}
    (h : ∀ w rest, s.tokens = w :: rest → Stays e p q n s (k (some w.kind))) :
    Stays e p q n s (peekKind >>= k) := by
  refine head fun w rest tokens => ?_
  change Inside e p n s → Inside e q n (k (s.tokens.head?.map Token.kind) s).2
  rw [tokens]
  exact h w rest tokens

theorem isAt {kind : Token.Kind} {k : Bool → Reader β}
    (yes : ∀ w rest, s.tokens = w :: rest → w.kind = kind → Stays e p q n s (k true))
    (no : Stays e p q n s (k false)) : Stays e p q n s (isAt kind >>= k) := by
  refine peekKind (k := fun following => k (following == some kind)) fun w rest tokens => ?_
  by_cases there : w.kind = kind
  · simpa [there] using yes w rest tokens there
  · have other : (some w.kind == some kind) = false := by simpa using there
    rwa [other]

theorem peekSecondKind {k : Option Token.Kind → Reader β} (h : ∀ kind, Stays e p q n s (k kind)) :
    Stays e p q n s (peekSecondKind >>= k) := h (Script.peekSecondKind s).1

theorem isAtWord {word : String} {k : Bool → Reader β}
    (yes : ∀ w rest, s.tokens = w :: rest → w.kind = .identifier → w.word = word →
      Stays e p q n s (k true))
    (no : Stays e p q n s (k false)) : Stays e p q n s (isAtWord word >>= k) := by
  refine head fun w rest tokens => ?_
  change Inside e p n s →
    Inside e q n (k (Script.isAtWord word s).1 (Script.isAtWord word s).2).2
  rw [isAtWord_eq, tokens]
  by_cases there : w.kind = .identifier ∧ w.word = word
  · have same : ((w :: rest).head?.any fun t => t.kind == .identifier && t.word == word) = true := by
      simp [there]
    rw [same]
    exact yes w rest tokens there.1 there.2
  · have other : ((w :: rest).head?.any fun t => t.kind == .identifier && t.word == word)
        = false := by simpa [Bool.and_eq_false_iff] using not_and.1 there
    rw [other]
    exact no

theorem next {k : Option Token → Reader β} (tokens : s.tokens = w :: rest)
    (onward : isBlockOrEnd w = false) (h : ∀ {m s}, m < n → Stays e p q m s (k (some w))) :
    Stays e p q n s (next >>= k) := by
  intro inside
  obtain ⟨_, taken, m, fewer, later⟩ := inside.step tokens onward
  have later : Inside e p m { s with tokens := rest } := by
    cases p with
    | false => exact later.settle
    | true => simpa using later
  change Inside e q n (k (Script.next s).1 (Script.next s).2).2
  rw [taken]
  exact (h fewer later).mono (Nat.le_of_lt fewer)

/-- A control word waits for its body. -/
theorem nextControl {k : List Draft → Reader β} (tokens : s.tokens = w :: rest)
    (control : w.isControl) (h : ∀ {m s}, m < n → Stays e true q m s (k [keywordLeaf w])) :
    Stays e p q n s (nextKeyword >>= k) := by
  intro inside
  have word : w.kind = .identifier := by
    simp only [Token.isControl, Bool.and_eq_true, beq_iff_eq] at control
    exact control.1
  obtain ⟨_, taken, m, fewer, later⟩ := inside.step tokens (by simp [isBlockOrEnd, word])
  rw [control, Bool.or_true] at later
  change Inside e q n (k ((Script.next s).1.map keywordLeaf).toList (Script.next s).2).2
  rw [taken]
  exact (h fewer later).mono (Nat.le_of_lt fewer)

theorem nextLeaf {k : List Draft → Reader β} (tokens : s.tokens = w :: rest)
    (onward : isBlockOrEnd w = false) (h : ∀ {m s}, m < n → Stays e p q m s (k [tokenLeaf w])) :
    Stays e p q n s (nextLeaf >>= k) :=
  next (k := fun t => k (t.map tokenLeaf).toList) tokens onward h

theorem nextKeyword {k : List Draft → Reader β} (tokens : s.tokens = w :: rest)
    (onward : isBlockOrEnd w = false) (h : ∀ {m s}, m < n → Stays e p q m s (k [keywordLeaf w])) :
    Stays e p q n s (nextKeyword >>= k) :=
  next (k := fun t => k (t.map keywordLeaf).toList) tokens onward h

theorem nextSemicolon {k : List Draft → Reader β} (tokens : s.tokens = w :: rest)
    (semicolon : w.kind = .semicolon) (h : ∀ {s}, Stays e false q n s (k [tokenLeaf w])) :
    Stays e p q n s (Script.nextLeaf >>= k) := by
  intro inside
  obtain ⟨taken, later⟩ := inside.stepSemicolon tokens semicolon
  change Inside e q n (k ((Script.next s).1.map tokenLeaf).toList (Script.next s).2).2
  rw [taken]
  exact h later

theorem optionalLeaf {kind : Token.Kind} (onward : isBlockOrEnd ⟨kind, [], 0, false⟩ = false) :
    Stays e p p n s (optionalLeaf kind) := by
  refine isAt (fun w rest tokens there => ?_) (pure _)
  subst there
  rw [if_pos rfl, ← bind_pure Script.nextLeaf]
  exact nextLeaf tokens onward fun _ => pure _

theorem optionalSemicolon : Stays e p false n s (Script.optionalLeaf .semicolon) := by
  refine isAt (fun w rest tokens there => ?_) (settle (pure _))
  rw [if_pos rfl, ← bind_pure Script.nextLeaf]
  exact nextSemicolon tokens there (pure _)

end Stays

/-- A step that stops at every end of a statement takes plain tokens only. -/
theorem takeSteps_wellBraced {step : σ → Token → Option σ} (e : Tail)
    (stops : ∀ state t, isBlockOrEnd t → step state t = none) (state : σ)
    (wellBraced : Token.wellBraced p 0 ts) : ∃ final taken left,
      takeSteps step state (ts ++ e.close :: e.rest)
        = (final, taken, left ++ e.close :: e.rest)
      ∧ ts = taken ++ left ∧ Token.wellBraced p 0 left := by
  have significant := Token.wellBraced_significant wellBraced
  induction ts generalizing p state with
  | nil =>
    have here : isBlockOrEnd e.close := by simp [isBlockOrEnd, e.closes]
    have trivia : e.close.isTrivia = false := by
      simp [Token.isTrivia, e.closes, Token.Kind.isTrivia]
    exact ⟨state, [], [], by simp [takeSteps, stops _ _ here, trivia], rfl, wellBraced⟩
  | cons t ts ih =>
    have trivia : t.isTrivia = false := by
      simpa [Token.isSignificant] using significant t (by simp)
    cases accepts : step state t with
    | none => exact ⟨state, [], t :: ts, by simp [takeSteps, accepts, trivia], rfl, wellBraced⟩
    | some state' =>
      have onward : ¬ isBlockOrEnd t := by
        intro ends
        simp [stops state t ends] at accepts
      simp only [isBlockOrEnd, Bool.or_eq_true, beq_iff_eq, not_or] at onward
      rcases Token.wellBraced_cases wellBraced with ⟨kind, _⟩ | ⟨kind, _⟩ | ⟨kind, _⟩ |
        ⟨plain, later⟩
      · exact absurd kind onward.2
      · exact absurd kind onward.1.1
      · exact absurd kind onward.1.2
      · have later : Token.wellBraced p 0 ts := by
          cases p with
          | false => exact Token.wellBraced_settle later
          | true => simpa using later
        obtain ⟨final, taken, left, eq, rfl, wellBraced'⟩ :=
          ih state' later fun u hu => significant u (by simp [hu])
        rw [List.append_assoc] at eq
        exact ⟨final, t :: taken, left, by simp [takeSteps, accepts, trivia, eq], rfl, wellBraced'⟩

theorem collect_stays {step : σ → Token → Option σ} (state : σ)
    (stops : ∀ state t, isBlockOrEnd t → step state t = none) :
    Stays e p p n s (collect step state) := by
  rintro ⟨ts, wellBraced, short, sound, waiting, tokens⟩
  obtain ⟨final, taken, left, eq, rfl, wellBraced'⟩ := takeSteps_wellBraced e stops state wellBraced
  have significant := Token.wellBraced_significant wellBraced
  have noTrivia : taken.filter Token.isTrivia = [] := by
    rw [List.filter_eq_nil_iff]
    intro t ht
    simpa [Token.isSignificant] using significant t (by simp [ht])
  have eval : (collect step state s).2 = { s with tokens := left ++ e.close :: e.rest } := by
    simp only [collect, tokens, eq, noTrivia, List.map_nil, List.append_nil]
  rw [List.append_assoc] at tokens
  rw [eval]
  have passes := sound.advance taken tokens
    (e.head_significant fun t ht => significant t (by simp [ht]))
    fun d (hd : d ∈ s.waiting) => .inl hd
  rw [List.length_append] at short
  exact ⟨left, wellBraced', by omega, passes.1.sound, waiting, rfl⟩

theorem collectWhile_stays {accepts : Token → Bool}
    (stops : ∀ t, isBlockOrEnd t → accepts t = false) :
    Stays e p p n s (collectWhile accepts) :=
  .bind (collect_stays () fun _ t ends => by simp [stops t ends]) fun _ => .pure _

theorem Stays.repeatUntil {step : α → Reader (α ⊕ β)} {unfinished : α → β}
    (round : ∀ {s} c, Stays e p p n s (step c)) (c : α) :
    Stays e p p n s (repeatUntil step unfinished c) := by
  change Inside e p n s → Inside e p n (repeatAtMost step unfinished (s.size + 1) c s).2
  generalize s.size + 1 = rounds
  induction rounds generalizing c s with
  | zero => exact id
  | succ rounds ih =>
    intro inside
    have later := round c inside
    rw [repeatAtMost_succ]
    cases taken : step c s with
    | mk result s' =>
      rw [taken] at later
      cases result with
      | inl c' => exact ih c' later
      | inr b => exact later

end Script

end RouteScript
