import RouteScript.Proofs.Braces.Basic
import RouteScript.Proofs.Lossless.Rules
/-!
# Checking readers

What a reader gives at a sound stream is good in some sense, and it goes on in the source. The rules
below follow the steps of a reader; those that take a token ask for one that is no brace.
-/
namespace RouteScript.Script

open Draft

variable {α β : Type} {source : List Char}

/-- Drafts that are all checked. -/
def AllChecked (source : List Char) (ds : List Draft) : Prop := ∀ d ∈ ds, d.Checked source

@[simp] theorem allChecked_nil : AllChecked source [] := by simp [AllChecked]

@[simp] theorem allChecked_cons (d : Draft) (ds : List Draft) :
    AllChecked source (d :: ds) ↔ d.Checked source ∧ AllChecked source ds := by simp [AllChecked]

@[simp] theorem allChecked_append (ds ds' : List Draft) :
    AllChecked source (ds ++ ds') ↔ AllChecked source ds ∧ AllChecked source ds' := by
  simp [AllChecked, or_imp, forall_and]

theorem AllChecked.withField {ds : List Draft} (h : AllChecked source ds) (field : String) :
    AllChecked source (ds.map (Draft.withField field)) :=
  List.forall_mem_map.2 fun d hd => (h d hd).withField field

/-- The next token, if there is one, is no brace. -/
def Stream.IsPlain (s : Stream) : Prop := ∀ t rest, s.tokens = t :: rest → t.IsPlain

theorem Stream.isPlain_of_kind {s : Stream} {t : Token} {rest : List Token}
    (tokens : s.tokens = t :: rest) {kind : Token.Kind} (same : t.kind = kind)
    (noBrace : kind ≠ .lBrace ∧ kind ≠ .rBrace) : s.IsPlain := by
  intro t' rest' tokens'
  obtain ⟨rfl, rfl⟩ : t = t' ∧ rest = rest' := by simpa [tokens] using tokens'
  subst same
  exact noBrace

/-- What a reader gives at a stream of the source is good. -/
def Checks (source : List Char) (s : Stream) (r : Reader α) (good : α → Prop) : Prop :=
  s.Sound → s.source = source → Gives r s fun a s' => s.Passes s' ∧ good a

namespace Checks

variable {s : Stream} {x : Reader α} {k : α → Reader β} {mid : α → Prop} {good : β → Prop}

theorem pure {b : β} (h : good b) : Checks source s (Pure.pure b) good := fun hs _ => ⟨hs.refl, h⟩

theorem bind (hx : Checks source s x mid) (hk : ∀ a s', mid a → Checks source s' (k a) good) :
    Checks source s (x >>= k) good := fun hs here =>
  .bind (hx hs here) fun a s' ⟨passes, hm⟩ =>
    (hk a s' hm passes.sound (passes.source.trans here)).mono fun _ _ ⟨passes', hg⟩ =>
      ⟨passes.trans passes', hg⟩

theorem mono {r : Reader α} {good' : α → Prop} (h : Checks source s r mid)
    (imp : ∀ a, mid a → good' a) : Checks source s r good' := fun hs here =>
  (h hs here).mono fun a _ ⟨passes, hm⟩ => ⟨passes, imp a hm⟩

theorem peek {k : Option Token → Reader β} (none : Checks source s (k .none) good)
    (some : ∀ t rest, s.tokens = t :: rest → Checks source s (k (.some t)) good) :
    Checks source s (peek >>= k) good := fun hs here =>
  gives_peek (fun _ => none hs here) fun t rest tokens => some t rest tokens hs here

theorem peekKind {k : Option Token.Kind → Reader β} (none : Checks source s (k .none) good)
    (some : ∀ t rest, s.tokens = t :: rest → Checks source s (k (.some t.kind)) good) :
    Checks source s (peekKind >>= k) good := fun hs here =>
  gives_peekKind (fun _ => none hs here) fun t rest tokens => some t rest tokens hs here

theorem peekSecondKind {k : Option Token.Kind → Reader β}
    (h : Checks source s (k ((s.tokens.tail.find? Token.isSignificant).map Token.kind)) good) :
    Checks source s (peekSecondKind >>= k) good := fun hs here => h hs here

theorem isAt {kind : Token.Kind} {k : Bool → Reader β}
    (yes : ∀ t rest, s.tokens = t :: rest → t.kind = kind → Checks source s (k true) good)
    (no : Checks source s (k false) good) :
    Checks source s (isAt kind >>= k) good := fun hs here =>
  gives_isAt (fun t rest tokens same => yes t rest tokens same hs here) (no hs here)

theorem isAtWord {word : String} {k : Bool → Reader β}
    (yes : ∀ t rest, s.tokens = t :: rest → t.kind = .identifier → Checks source s (k true) good)
    (no : Checks source s (k false) good) :
    Checks source s (isAtWord word >>= k) good := fun hs here =>
  gives_isAtWord (fun t rest tokens same _ => yes t rest tokens same hs here) (no hs here)

theorem isAdjacent {offset : Nat} {kind : Token.Kind} {k : Bool → Reader β}
    (h : ∀ b, Checks source s (k b) good) :
    Checks source s (isAdjacent offset kind >>= k) good := fun hs here =>
  gives_isAdjacent (fun _ _ _ _ _ => h true hs here) (h false hs here)

/-- The token that stands next. -/
theorem take {k : Option Token → Reader β} {t : Token} {rest : List Token}
    (tokens : s.tokens = t :: rest) (h : ∀ s', s' = (Script.next s).2 → t.StandsIn source →
      Checks source s' (k (some t)) good) : Checks source s (Script.next >>= k) good := by
  intro hs here
  refine gives_next (fun nothing => by simp [tokens] at nothing) fun t' rest' tokens' => ?_
  obtain ⟨rfl, rfl⟩ : t = t' ∧ rest = rest' := by simpa [tokens] using tokens'
  have passes : s.Passes (Script.next s).2 := (passes_next hs tokens).1
  have there : t.StandsIn source := here ▸ hs.standsIn (by simp [tokens])
  rw [← next_snd tokens]
  exact (h _ rfl there passes.sound (passes.source.trans here)).mono
    fun _ _ ⟨passes', hg⟩ => ⟨passes.trans passes', hg⟩

theorem next {k : Option Token → Reader β} (none : Checks source s (k .none) good)
    (some : ∀ t rest s', s.tokens = t :: rest → s' = (Script.next s).2 → t.StandsIn source →
      Checks source s' (k (.some t)) good) :
    Checks source s (Script.next >>= k) good := by
  cases tokens : s.tokens with
  | nil =>
    refine fun hs here => gives_next (fun _ => none hs here) fun t rest tokens' => ?_
    simp [tokens] at tokens'
  | cons t rest => exact .take tokens fun s' => some t rest s' tokens

theorem takeAs {leafOf : Token → Draft} {k : List Draft → Reader β} {t : Token}
    {rest : List Token} (tokens : s.tokens = t :: rest)
    (h : ∀ s', s' = (Script.next s).2 → t.StandsIn source → Checks source s' (k [leafOf t]) good) :
    Checks source s ((Script.next >>= fun t => Pure.pure (t.map leafOf).toList) >>= k) good :=
  .take (k := fun t => k (t.map leafOf).toList) tokens h

/-- What `nextLeaf` and `nextKeyword` do. -/
theorem nextAs {leafOf : Token → Draft} {k : List Draft → Reader β}
    (none : Checks source s (k []) good)
    (some : ∀ t rest s', s.tokens = t :: rest → s' = (Script.next s).2 → t.StandsIn source →
      Checks source s' (k [leafOf t]) good) :
    Checks source s ((Script.next >>= fun t => Pure.pure (t.map leafOf).toList) >>= k) good :=
  .next (k := fun t => k (t.map leafOf).toList) none some

theorem nextLeaf (plain : s.IsPlain) : Checks source s Script.nextLeaf (AllChecked source) :=
  .nextAs (k := Pure.pure) (.pure (by simp)) fun t rest _ tokens _ there =>
    .pure (by simpa using checked_tokenLeaf there (plain t rest tokens))

theorem nextKeyword (plain : s.IsPlain) : Checks source s Script.nextKeyword (AllChecked source) :=
  .nextAs (k := Pure.pure) (.pure (by simp)) fun t rest _ tokens _ there =>
    .pure (by simpa using checked_keywordLeaf there (plain t rest tokens))

/-- Whatever is next. -/
theorem nextAny : Checks source s Script.nextLeaf fun _ => True :=
  .nextAs (k := Pure.pure) (.pure trivial) fun _ _ _ _ _ _ => .pure trivial

theorem optionalLeaf {kind : Token.Kind} (noBrace : kind ≠ .lBrace ∧ kind ≠ .rBrace) :
    Checks source s (Script.optionalLeaf kind) (AllChecked source) :=
  .isAt (fun _ _ tokens same => .nextLeaf (Stream.isPlain_of_kind tokens same noBrace))
    (.pure (by simp))

theorem mem_takeSteps {σ : Type} (step : σ → Token → Option σ) (state : σ) (ts : List Token) :
    ∀ t ∈ (takeSteps step state ts).2.1, t.isSignificant → ∃ a, (step a t).isSome := by
  induction ts generalizing state with
  | nil => simp [takeSteps]
  | cons t ts ih =>
    unfold takeSteps
    split
    · rename_i trivia
      refine List.forall_mem_cons.2 ⟨fun significant => ?_, ih state⟩
      simp [Token.isSignificant, trivia] at significant
    · split
      · simp
      · rename_i state' taken
        exact List.forall_mem_cons.2 ⟨fun _ => ⟨state, by simp [taken]⟩, ih state'⟩

theorem collect {σ : Type} (step : σ → Token → Option σ) (state : σ) :
    Checks source s (Script.collect step state) fun r => ∀ d ∈ r.2, ∃ t : Token,
      t.StandsIn source ∧ (∃ a, (step a t).isSome) ∧ d = tokenLeaf t := by
  intro hs here
  refine ⟨(collect_lossless step state s hs solid_nil).1.passes, ?_⟩
  refine List.forall_mem_map.2 fun t ht => ?_
  obtain ⟨taken, significant⟩ := List.mem_filter.1 ht
  have ahead : t ∈ s.tokens := by
    rw [← (takeSteps_eq step state s.tokens).1]
    exact List.mem_append_left _ taken
  exact ⟨t, here ▸ hs.standsIn ahead, mem_takeSteps step state s.tokens t taken significant, rfl⟩

theorem collectAny {σ : Type} (step : σ → Token → Option σ) (state : σ) :
    Checks source s (Script.collect step state) fun _ => True :=
  (collect step state).mono fun _ _ => trivial

theorem collectFlat {σ : Type} (step : σ → Token → Option σ) (state : σ) :
    Checks source s (Script.collect step state) fun r => ∀ d ∈ r.2, d.Flat :=
  (collect step state).mono fun r all d hd => by
    obtain ⟨t, _, _, rfl⟩ := all d hd
    exact flat_tokenLeaf t

theorem collectWhileAny (accepts : Token → Bool) :
    Checks source s (Script.collectWhile accepts) fun _ => True :=
  .bind (collectAny _ _) fun _ _ _ => .pure trivial

theorem collectWhile {accepts : Token → Bool} (plain : ∀ t, accepts t → t.IsPlain) :
    Checks source s (Script.collectWhile accepts) (AllChecked source) := by
  refine .bind (collect _ _) fun r s' all => .pure fun d hd => ?_
  obtain ⟨t, there, ⟨_, accepted⟩, rfl⟩ := all d hd
  refine checked_tokenLeaf there (plain t ?_)
  split at accepted
  · assumption
  · contradiction

theorem filter_insertByStart {d : Draft} (extra : d.label.extra) (cs : List Draft) :
    (insertByStart d cs).filter (fun c => !c.label.extra) = cs.filter fun c => !c.label.extra := by
  induction cs with
  | nil => simp [insertByStart, extra]
  | cons c cs ih =>
    unfold insertByStart
    split
    · rw [List.filter_cons, List.filter_cons, ih]
    · simp [extra]

theorem filter_absorb {taken : List Draft} (extra : ∀ d ∈ taken, d.label.extra)
    (children : List Draft) :
    (taken.foldl (fun cs d => insertByStart d cs) children).filter (fun c => !c.label.extra)
      = children.filter fun c => !c.label.extra := by
  induction taken generalizing children with
  | nil => rfl
  | cons d taken ih =>
    rw [List.foldl_cons, ih fun c hc => extra c (by simp [hc]),
      filter_insertByStart (extra d (by simp))]

/-- The children of a node are those that were given to it and comments. -/
theorem absorb (children : List Draft) : Checks source s (Script.absorb children) fun all =>
    (∀ c ∈ all, c ∈ children ∨ ∃ t : Token, t.isTrivia ∧ t.StandsIn source ∧ c = extraLeaf t) ∧
      (all.filter fun c => !c.label.extra) = children.filter fun c => !c.label.extra := by
  intro hs here
  have passes : s.Passes (Script.absorb children s).2 := by
    simpa using (Conserves.absorb hs [] children []).passes
  have comment (d : Draft) (hd : d ∈ s.waiting.filter (isInside children)) :
      ∃ t : Token, t.isTrivia ∧ t.StandsIn source ∧ d = extraLeaf t :=
    here ▸ hs.waiting d (List.mem_filter.1 hd).1
  refine ⟨passes, fun c hc => ?_, filter_absorb (fun d hd => ?_) children⟩
  · exact (List.mem_append.1 ((absorb_perm _ _).mem_iff.1 hc)).imp id (comment c)
  · obtain ⟨t, _, _, rfl⟩ := comment d hd
    rfl

theorem node {kind : String} {children : List Draft} (plain : kind ∉ blockKinds)
    (h : AllChecked source children) : Checks source s (Script.node kind children) (Checked source) :=
  .bind (absorb children) fun all _ ⟨inside, _⟩ => .pure (.branch plain fun c hc => by
    rcases inside c hc with given | ⟨t, trivia, there, rfl⟩
    · exact h c given
    · exact checked_extraLeaf there trivia)

theorem flat_absorbed {children all : List Draft} (h : ∀ c ∈ children, c.Flat)
    (inside : ∀ c ∈ all, c ∈ children ∨ ∃ t : Token, t.isTrivia ∧ t.StandsIn source ∧
      c = extraLeaf t) : ∀ c ∈ all, c.Flat := by
  intro c hc
  rcases inside c hc with given | ⟨t, _, _, rfl⟩
  · exact h c given
  · exact flat_extraLeaf t

theorem flatNode {kind : String} {children : List Draft} (plain : kind ∉ blockKinds)
    (h : ∀ c ∈ children, c.Flat) : Checks source s (Script.node kind children) Flat :=
  .bind (absorb children) fun _ _ ⟨inside, _⟩ => .pure (.branch plain (flat_absorbed h inside))

/-- A variable or markup. -/
theorem sealedNode {kind : String} {children : List Draft}
    (opens : kind = Kind.pseudoVariable ∨ kind = Kind.pvarExpression ∨ kind = Kind.xml)
    (h : ∀ c ∈ children, c.Flat) : Checks source s (Script.node kind children) (Checked source) :=
  .bind (absorb children) fun _ _ ⟨inside, _⟩ => .pure (.of_sealed opens (flat_absorbed h inside))

theorem errorNode (children : List Draft) :
    Checks source s (Script.errorNode children) (Checked source) :=
  .bind (absorb children) fun all _ _ => .pure (.error all)

theorem errorNodes (children : List Draft) :
    Checks source s (Script.errorNodes children) (AllChecked source) := by
  unfold Script.errorNodes
  split
  · exact .pure (by simp)
  · exact .bind (errorNode children) fun d _ checked => .pure (by simpa using checked)

/-- What every round keeps holds behind a loop, if it holds when the rounds run out. -/
theorem repeatUntil {inv : α → Prop} {step : α → Reader (α ⊕ β)} {unfinished : α → β}
    (round : ∀ a s, inv a → Checks source s (step a) (Sum.elim inv good))
    (ended : ∀ a, inv a → good (unfinished a)) {a : α} (ha : inv a) :
    Checks source s (Script.repeatUntil step unfinished a) good := by
  have rounds (n : Nat) {a : α} {s : Stream} (ha : inv a) :
      Checks source s (repeatAtMost step unfinished n a) good := by
    induction n generalizing a s with
    | zero => exact .pure (ended a ha)
    | succ n ih =>
      refine .bind (round a s ha) fun result s' kept => ?_
      cases result with
      | inl a' => exact ih kept
      | inr b => exact .pure kept
  exact rounds _ ha

end Checks

end RouteScript.Script
