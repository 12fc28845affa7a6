import RouteScript.Proofs.Lossless.Statement
import RouteScript.Proofs.Recovery.Lexing
import RouteScript.Proofs.Frozen
/-!
# Reading further on

A reader does not see where its text stands: on a stream in front of which more text stands it gives
the same drafts that many bytes further on, and leaves the same stream that many bytes further on.
Only a node without children knows its place, which is zero, so the rules for nodes ask for
children.
-/
namespace RouteScript

theorem Token.shift_newlineBefore (distance : Nat) (t : Token) :
    (t.shift distance).newlineBefore = t.newlineBefore := rfl

/-- The same label `distance` bytes further on. -/
def Tag.shift (distance : Nat) (t : Tag) : Tag :=
  { t with start := t.start + distance, stop := t.stop + distance }

namespace Draft

/-- The same draft `distance` bytes further on. -/
def shift (distance : Nat) (d : Draft) : Draft := d.map (Tag.shift distance)

variable (n : Nat)

@[simp] theorem shift_node (t : Tag) (children : List Draft) :
    shift n (.node t children) = .node (t.shift n) (children.map (shift n)) :=
  Rose.map_node _ t children

@[simp] theorem label_shift (d : Draft) : (d.shift n).label = d.label.shift n := by
  cases d
  rw [shift_node]
  rfl

@[simp] theorem children_shift (d : Draft) : (d.shift n).children = d.children.map (shift n) := by
  cases d
  rw [shift_node]
  rfl

@[simp] theorem start_shift (d : Draft) : (d.shift n).start = d.start + n := by
  rw [start, label_shift]
  rfl

@[simp] theorem stop_shift (d : Draft) : (d.shift n).stop = d.stop + n := by
  rw [stop, label_shift]
  rfl

@[simp] theorem isError_shift (d : Draft) : (d.shift n).isError = d.isError := by
  rw [isError, label_shift]
  rfl

@[simp] theorem shift_leaf (kind : String) (named : Bool) (start stop : Nat) :
    (leaf kind named start stop).shift n = leaf kind named (start + n) (stop + n) :=
  shift_node ..

@[simp] theorem shift_withField (d : Draft) (field : String) :
    (d.withField field).shift n = (d.shift n).withField field := by
  cases d
  simp only [withField, relabel, shift_node]
  rfl

theorem shift_branch (kind : String) {children : List Draft} (nonempty : children ≠ []) :
    (branch kind children).shift n = branch kind (children.map (shift n)) := by
  obtain ⟨d, rest, rfl⟩ := List.exists_cons_of_ne_nil nonempty
  rw [branch, shift_node, branch, List.getLast?_map, List.getLast?_cons]
  simp [Tag.shift]

theorem map_shift_salvage (d : Draft) : d.salvage.map (shift n) = (d.shift n).salvage := by
  obtain ⟨t, children⟩ := d
  unfold salvage
  rw [isError_shift, children_shift, List.isEmpty_map]
  split
  · split
    · simp only [relabel, List.map_cons, List.map_nil, shift_node]
      rfl
    · rfl
  · simp only [relabel, List.map_cons, List.map_nil, shift_node]
    rfl

theorem shift_error {children : List Draft} (nonempty : children ≠ []) :
    (error children).shift n = error (children.map (shift n)) := by
  obtain ⟨d, rest, rfl⟩ := List.exists_cons_of_ne_nil nonempty
  have kept : (d :: rest).flatMap salvage ≠ [] := by simp [salvage_ne_nil]
  rw [error, shift_branch n _ kept, error, List.map_flatMap, List.flatMap_map]
  simp only [map_shift_salvage]

end Draft

namespace Script

open Draft

variable {α β γ δ σ : Type} {n : Nat}

@[simp] theorem shift_tokenLeaf (t : Token) : (tokenLeaf t).shift n = tokenLeaf (t.shift n) := by
  unfold tokenLeaf
  rw [Token.shift_kind, Token.shift_stop]
  split <;> exact shift_leaf ..

@[simp] theorem shift_keywordLeaf (t : Token) :
    (keywordLeaf t).shift n = keywordLeaf (t.shift n) := by
  unfold keywordLeaf
  rw [Token.shift_word, Token.shift_stop]
  split <;> exact shift_leaf ..

theorem leaf_shift (kind : String) (named : Bool) (t u : Token) :
    leaf kind named (t.shift n).start (u.shift n).stop
      = (leaf kind named t.start u.stop).shift n := by
  rw [shift_leaf, Token.shift_stop]
  rfl

theorem shift_extraLeaf (t : Token) : (extraLeaf t).shift n = extraLeaf (t.shift n) := by
  unfold extraLeaf
  rw [Token.shift_kind, Token.shift_stop]
  exact shift_node ..

@[simp] theorem shift_wrap (d : Draft) : (wrap d).shift n = wrap (d.shift n) :=
  shift_branch n _ (by simp)

@[simp] theorem shift_unwrap (d : Draft) : (unwrap d).shift n = unwrap (d.shift n) := by
  unfold unwrap
  rw [label_shift, children_shift]
  rw [show (d.label.shift n).kind = d.label.kind from rfl]
  match d.label.kind == Kind.expression, d.children with
  | true, [only] => rfl
  | true, [] => rfl
  | true, _ :: _ :: _ => rfl
  | false, _ => rfl

theorem filter_isTrivia_shift (ts : List Token) :
    (ts.map (Token.shift n)).filter Token.isTrivia
      = (ts.filter Token.isTrivia).map (Token.shift n) := by
  rw [List.filter_map]
  rfl

theorem map_shift_extraLeaf (ts : List Token) :
    (ts.map extraLeaf).map (shift n) = (ts.map (Token.shift n)).map extraLeaf := by
  simp [shift_extraLeaf]

namespace Stream

/-- The same stream with more text in front of its source. -/
def shift (front : List Char) (s : Stream) : Stream where
  source := front ++ s.source
  size := Text.size front + s.size
  waiting := s.waiting.map (Draft.shift (Text.size front))
  tokens := s.tokens.map (Token.shift (Text.size front))

variable (front : List Char) (s : Stream)

@[simp] theorem tokens_shift :
    (s.shift front).tokens = s.tokens.map (Token.shift (Text.size front)) := rfl

@[simp] theorem waiting_shift :
    (s.shift front).waiting = s.waiting.map (Draft.shift (Text.size front)) := rfl

theorem settle_shift : (s.shift front).settle = s.settle.shift front := by
  simp only [settle, shift, List.takeWhile_map, List.dropWhile_map, List.map_append,
    map_shift_extraLeaf]
  rfl

end Stream

/--
What one reader gives at a sound stream, another one gives further on, up to the change of places
that `f` makes.
-/
def Moves (front : List Char) (f : α → β) (x : Reader α) (y : Reader β) (s : Stream) : Prop :=
  s.Sound → (x s).2.Sound ∧ y (s.shift front) = (f (x s).1, (x s).2.shift front)

namespace Moves

variable {front : List Char} {s : Stream} {f : α → β} {g : γ → δ} {x : Reader α} {y : Reader β}

theorem pure {a : α} {b : β} (h : b = f a) :
    Moves front f (Pure.pure a) (Pure.pure b) s := fun hs => ⟨hs, by rw [h]; rfl⟩

/-- A first step that is known to be the same further on. -/
theorem step {k : α → Reader γ} {l : β → Reader δ} {a : α} {b : β} {s' : Stream}
    (left : x s = (a, s')) (right : y (s.shift front) = (b, s'.shift front))
    (sound : s.Sound → s'.Sound) (rest : Moves front g (k a) (l b) s') :
    Moves front g (x >>= k) (y >>= l) s := by
  have first : (x >>= k) s = k a s' := by
    change k (x s).1 (x s).2 = _
    rw [left]
  have second : (y >>= l) (s.shift front) = l b (s'.shift front) := by
    change l (y (s.shift front)).1 (y (s.shift front)).2 = _
    rw [right]
  intro hs
  rw [first, second]
  exact rest (sound hs)

/-- What is known of the first result and the stream behind it may be used for the rest. -/
theorem bindGives {k : α → Reader γ} {l : β → Reader δ} {mid : α → Stream → Prop}
    (first : Moves front f x y s) (known : s.Sound → Gives x s mid)
    (rest : ∀ a s', mid a s' → Moves front g (k a) (l (f a)) s') :
    Moves front g (x >>= k) (y >>= l) s := fun hs =>
  have ⟨sound, same⟩ := first hs
  step rfl same (fun _ => sound) (rest _ _ (known hs)) hs

theorem bind {k : α → Reader γ} {l : β → Reader δ} (first : Moves front f x y s)
    (rest : ∀ a s', Moves front g (k a) (l (f a)) s') :
    Moves front g (x >>= k) (y >>= l) s := fun hs =>
  have ⟨sound, same⟩ := first hs
  step rfl same (fun _ => sound) (rest _ _) hs

theorem peek {k l : Option Token → Reader γ} {g : γ → γ}
    (none : s.tokens = [] → Moves front g (k .none) (l .none) s)
    (some : ∀ t rest, s.tokens = t :: rest →
      Moves front g (k (.some t)) (l (.some (t.shift (Text.size front)))) s) :
    Moves front g (peek >>= k) (peek >>= l) s := by
  cases tokens : s.tokens with
  | nil =>
    exact step (by simp [Script.peek, tokens]) (by simp [Script.peek, tokens]) id (none tokens)
  | cons t rest =>
    exact step (by simp [Script.peek, tokens]) (by simp [Script.peek, tokens]) id
      (some t rest tokens)

theorem peekKind {k l : Option Token.Kind → Reader γ} {g : γ → γ}
    (none : s.tokens = [] → Moves front g (k .none) (l .none) s)
    (some : ∀ t rest, s.tokens = t :: rest → Moves front g (k (.some t.kind)) (l (.some t.kind)) s) :
    Moves front g (peekKind >>= k) (peekKind >>= l) s := by
  cases tokens : s.tokens with
  | nil =>
    exact step (by simp [Script.peekKind, tokens]) (by simp [Script.peekKind, tokens]) id
      (none tokens)
  | cons t rest =>
    exact step (by simp [Script.peekKind, tokens]) (by simp [Script.peekKind, tokens]) id
      (some t rest tokens)

theorem glance {k l : Option Token.Kind → Reader γ} {g : γ → γ}
    (h : ∀ following, Moves front g (k following) (l following) s) :
    Moves front g (Script.peekKind >>= k) (Script.peekKind >>= l) s :=
  peekKind (fun _ => h _) fun _ _ _ => h _

theorem peekSecondKind {k l : Option Token.Kind → Reader γ} {g : γ → γ}
    (h : ∀ following, Moves front g (k following) (l following) s) :
    Moves front g (peekSecondKind >>= k) (peekSecondKind >>= l) s := by
  have same : ((s.shift front).tokens.tail.find? Token.isSignificant).map Token.kind
      = (s.tokens.tail.find? Token.isSignificant).map Token.kind := by
    rw [Stream.tokens_shift, ← List.map_tail, List.find?_map, Option.map_map]
    rfl
  exact step rfl (congrArg (·, s.shift front) same) id (h _)

theorem isAt {kind : Token.Kind} {k l : Bool → Reader γ} {g : γ → γ}
    (yes : ∀ t rest, s.tokens = t :: rest → t.kind = kind → Moves front g (k true) (l true) s)
    (no : Moves front g (k false) (l false) s) :
    Moves front g (isAt kind >>= k) (isAt kind >>= l) s := by
  simp only [Script.isAt, bind_assoc, pure_bind]
  refine peekKind (fun _ => no) fun t rest tokens => ?_
  by_cases same : t.kind = kind
  · simpa [same] using yes t rest tokens same
  · simpa [beq_false_of_ne same] using no

theorem isAtWord {word : String} {k l : Bool → Reader γ} {g : γ → γ}
    (yes : ∀ t rest, s.tokens = t :: rest → Moves front g (k true) (l true) s)
    (no : Moves front g (k false) (l false) s) :
    Moves front g (isAtWord word >>= k) (isAtWord word >>= l) s := by
  simp only [Script.isAtWord, bind_assoc]
  refine peek (by simpa using fun _ => no) fun t rest tokens => ?_
  cases there : t.kind == .identifier && t.word == word with
  | true => simpa [there] using yes t rest tokens
  | false => simpa [there] using no

theorem isAdjacent {offset offset' : Nat} {kind : Token.Kind} {k l : Bool → Reader γ} {g : γ → γ}
    (place : offset' = offset + Text.size front)
    (yes : ∀ t rest, s.tokens = t :: rest → Moves front g (k true) (l true) s)
    (no : Moves front g (k false) (l false) s) :
    Moves front g (isAdjacent offset kind >>= k) (isAdjacent offset' kind >>= l) s := by
  simp only [Script.isAdjacent, bind_assoc]
  refine peek (by simpa using fun _ => no) fun t rest tokens => ?_
  have moved : ((t.shift (Text.size front)).start == offset') = (t.start == offset) := by
    rw [Bool.eq_iff_iff, beq_iff_eq, beq_iff_eq, place]
    exact Nat.add_right_cancel_iff
  cases there : t.kind == kind && t.start == offset with
  | true => simpa [moved, there] using yes t rest tokens
  | false => simpa [moved, there] using no

theorem next {k l : Option Token → Reader γ} {g : γ → γ}
    (none : s.tokens = [] → Moves front g (k .none) (l .none) s)
    (some : ∀ t s', Moves front g (k (.some t)) (l (.some (t.shift (Text.size front)))) s') :
    Moves front g (next >>= k) (next >>= l) s := by
  cases tokens : s.tokens with
  | nil =>
    exact step (by simp [Script.next, tokens]) (by simp [Script.next, tokens]) id (none tokens)
  | cons t rest =>
    have taken : Script.next s = (.some t, ({ s with tokens := rest } : Stream).settle) := by
      simp [Script.next, tokens]
    refine step taken ?_ (fun hs => ?_) (some t _)
    · simp only [Script.next, Stream.tokens_shift, tokens, List.map_cons]
      exact congrArg (Option.some (t.shift (Text.size front)), ·)
        (Stream.settle_shift front { s with tokens := rest })
    · rw [← next_snd tokens]
      exact (Conserves.next [] hs tokens (solids_tokenLeaf t) (extras_tokenLeaf t)).passes.sound

/-- What `nextLeaf` and `nextKeyword` do. -/
theorem nextAs {leafOf : Token → Draft} (moved : ∀ t, leafOf (t.shift (Text.size front))
      = (leafOf t).shift (Text.size front)) {k l : List Draft → Reader γ} {g : γ → γ}
    (none : s.tokens = [] → Moves front g (k []) (l []) s)
    (some : ∀ t s', Moves front g (k [leafOf t]) (l [(leafOf t).shift (Text.size front)]) s') :
    Moves front g ((Script.next >>= fun t => Pure.pure (t.map leafOf).toList) >>= k)
      ((Script.next >>= fun t => Pure.pure (t.map leafOf).toList) >>= l) s := by
  simp only [bind_assoc, pure_bind]
  refine next none fun t s' => ?_
  simpa [moved] using some t s'

theorem nextLeaf {k l : List Draft → Reader γ} {g : γ → γ}
    (none : s.tokens = [] → Moves front g (k []) (l []) s)
    (some : ∀ t s', Moves front g (k [tokenLeaf t])
      (l [(tokenLeaf t).shift (Text.size front)]) s') :
    Moves front g (Script.nextLeaf >>= k) (Script.nextLeaf >>= l) s :=
  nextAs (fun t => (shift_tokenLeaf t).symm) none some

theorem nextKeyword {k l : List Draft → Reader γ} {g : γ → γ}
    (none : s.tokens = [] → Moves front g (k []) (l []) s)
    (some : ∀ t s', Moves front g (k [keywordLeaf t])
      (l [(keywordLeaf t).shift (Text.size front)]) s') :
    Moves front g (Script.nextKeyword >>= k) (Script.nextKeyword >>= l) s :=
  nextAs (fun t => (shift_keywordLeaf t).symm) none some

end Moves

section Tokens

variable {front : List Char} {s : Stream}

theorem optionalLeaf_moves (kind : Token.Kind) :
    Moves front (List.map (shift (Text.size front))) (optionalLeaf kind) (optionalLeaf kind) s := by
  refine .isAt (fun _ _ _ _ => ?_) (.pure rfl)
  rw [if_pos rfl, ← bind_pure nextLeaf]
  exact .nextLeaf (fun _ => .pure rfl) fun _ _ => .pure rfl

/-- A step that does not look at the places of tokens takes the same tokens further on. -/
theorem takeSteps_shift {step : σ → Token → Option σ}
    (blind : ∀ state t, step state (t.shift n) = step state t) (state : σ) (ts : List Token) :
    takeSteps step state (ts.map (Token.shift n)) =
      ((takeSteps step state ts).1, (takeSteps step state ts).2.1.map (Token.shift n),
        (takeSteps step state ts).2.2.map (Token.shift n)) := by
  induction ts generalizing state with
  | nil => rfl
  | cons t ts ih =>
    rw [List.map_cons, takeSteps, takeSteps, blind, Token.shift_isTrivia]
    split
    · rw [ih]
      rfl
    · cases step state t with
      | none => rfl
      | some state' =>
        dsimp only
        rw [ih]
        rfl

theorem collect_moves {step : σ → Token → Option σ}
    (blind : ∀ state t, step state (t.shift (Text.size front)) = step state t) (state : σ) :
    Moves front (Prod.map id (List.map (shift (Text.size front)))) (collect step state)
      (collect step state) s := by
  intro hs
  refine ⟨(collect_lossless step state s hs solid_nil).1.passes.sound, ?_⟩
  simp only [collect, Stream.tokens_shift, takeSteps_shift blind, filter_isTrivia_shift]
  rw [List.filter_map]
  simp [Stream.shift, shift_extraLeaf, Function.comp_def]

theorem collectWhile_moves {accepts : Token → Bool}
    (blind : ∀ t, accepts (t.shift (Text.size front)) = accepts t) :
    Moves front (List.map (shift (Text.size front))) (collectWhile accepts)
      (collectWhile accepts) s := by
  refine .bind (collect_moves (fun _ t => ?_) ()) fun _ _ => .pure rfl
  rw [blind]

end Tokens

section Nodes

variable {front : List Char} {s : Stream} {ds es : List Draft}

theorem insertByStart_shift (d : Draft) (cs : List Draft) :
    insertByStart (d.shift n) (cs.map (shift n)) = (insertByStart d cs).map (shift n) := by
  induction cs with
  | nil => rfl
  | cons c cs ih =>
    simp only [List.map_cons, insertByStart, start_shift, Nat.add_le_add_iff_right]
    split
    · rw [ih, List.map_cons]
    · rfl

theorem isInside_shift (cs : List Draft) (d : Draft) :
    isInside (cs.map (shift n)) (d.shift n) = isInside cs d := by
  unfold isInside
  rw [List.head?_map, List.getLast?_map]
  cases cs.head? with
  | none => rfl
  | some first =>
    cases cs.getLast? with
    | none => rfl
    | some last => simp

theorem absorb_shift (cs : List Draft) (s : Stream) :
    absorb (cs.map (shift (Text.size front))) (s.shift front)
      = ((absorb cs s).1.map (shift (Text.size front)), (absorb cs s).2.shift front) := by
  have inside (ds : List Draft) (test : Bool → Bool) :
      (ds.map (shift (Text.size front))).filter
          (fun d => test (isInside (cs.map (shift (Text.size front))) d))
        = (ds.filter fun d => test (isInside cs d)).map (shift (Text.size front)) := by
    rw [List.filter_map]
    simp [Function.comp_def, isInside_shift]
  have folded (taken cs : List Draft) :
      (taken.map (shift (Text.size front))).foldl (fun cs d => insertByStart d cs)
          (cs.map (shift (Text.size front)))
        = (taken.foldl (fun cs d => insertByStart d cs) cs).map (shift (Text.size front)) := by
    induction taken generalizing cs with
    | nil => rfl
    | cons d taken ih =>
      rw [List.map_cons, List.foldl_cons, insertByStart_shift, ih, List.foldl_cons]
  have taken := inside s.waiting id
  have left := inside s.waiting not
  simp only [id] at taken
  simp only [absorb, Stream.waiting_shift, taken, left, folded]
  rfl

theorem node_shift (kind : String) (nonempty : ds ≠ []) (s : Stream) :
    node kind (ds.map (shift (Text.size front))) (s.shift front)
      = ((node kind ds s).1.shift (Text.size front), (node kind ds s).2.shift front) := by
  have kept : (absorb ds s).1 ≠ [] := absorb_ne_nil nonempty s
  have moved : node kind (ds.map (shift (Text.size front))) (s.shift front)
      = (branch kind ((absorb ds s).1.map (shift (Text.size front))),
        (absorb ds s).2.shift front) := by
    simp only [node, bind, StateT.bind, absorb_shift]
    rfl
  rw [moved, ← shift_branch _ _ kept]
  rfl

theorem node_moves (kind : String) (same : es = ds.map (shift (Text.size front)))
    (nonempty : ds ≠ []) :
    Moves front (shift (Text.size front)) (node kind ds) (node kind es) s := fun hs =>
  ⟨(hs.drop_waiting fun _ hd => (List.mem_filter.1 hd).1).sound,
    same ▸ node_shift kind nonempty s⟩

theorem errorNode_moves (same : es = ds.map (shift (Text.size front))) (nonempty : ds ≠ []) :
    Moves front (shift (Text.size front)) (errorNode ds) (errorNode es) s := by
  intro hs
  refine ⟨(hs.drop_waiting fun _ hd => (List.mem_filter.1 hd).1).sound, ?_⟩
  have kept : (absorb ds s).1 ≠ [] := absorb_ne_nil nonempty s
  have moved : errorNode es (s.shift front)
      = (error ((absorb ds s).1.map (shift (Text.size front))), (absorb ds s).2.shift front) := by
    simp only [errorNode, bind, StateT.bind, same, absorb_shift]
    rfl
  rw [moved, ← shift_error _ kept]
  rfl

theorem errorNodes_moves (same : es = ds.map (shift (Text.size front))) :
    Moves front (List.map (shift (Text.size front))) (errorNodes ds) (errorNodes es) s := by
  unfold errorNodes
  rw [same, List.isEmpty_map]
  split
  · exact .pure rfl
  · rename_i nonempty
    exact .bind (errorNode_moves rfl (by simpa using nonempty)) fun _ _ => .pure rfl

theorem place_moves (ds : List Draft) (item : Draft) :
    Moves front (List.map (shift (Text.size front))) (place ds item)
      (place (ds.map (shift (Text.size front))) (item.shift (Text.size front))) s := by
  have split (test : Bool → Bool) :
      (s.waiting.map (shift (Text.size front))).filter
          (fun d => test (d.start < (item.shift (Text.size front)).start))
        = (s.waiting.filter fun d => test (d.start < item.start)).map
            (shift (Text.size front)) := by
    rw [List.filter_map]
    simp [Function.comp_def]
  have before := split id
  have behind := split not
  simp only [id] at before
  refine fun hs => ⟨(hs.drop_waiting fun _ hd => (List.mem_filter.1 hd).1).sound, ?_⟩
  simp only [place, Stream.waiting_shift, before, behind, List.map_append, List.map_cons,
    List.map_nil]
  rfl

theorem flush_moves (ds : List Draft) :
    Moves front (List.map (shift (Text.size front))) (flush ds)
      (flush (ds.map (shift (Text.size front)))) s := by
  refine fun hs => ⟨(hs.drop_waiting (by simp)).sound, ?_⟩
  simp only [flush, Stream.waiting_shift, List.map_append]
  rfl

end Nodes

section Loop

variable {front : List Char} {s : Stream} {f : α → α} {g : β → β} {inv : α → Prop}
  {step step' : α → Reader (α ⊕ β)} {unfinished unfinished' : α → β}

/-- Rounds that go on are the same further on, as long as they do not run out. -/
theorem repeatAtMost_moves (advancing : Advancing inv step)
    (round : ∀ a s, inv a → Moves front (Sum.map f g) (step a) (step' (f a)) s) {rounds rounds' : Nat}
    {a : α} (ha : inv a) (enough : s.size - s.position < rounds)
    (enough' : s.size - s.position < rounds') :
    Moves front g (repeatAtMost step unfinished rounds a)
      (repeatAtMost step' unfinished' rounds' (f a)) s := by
  induction rounds generalizing rounds' a s with
  | zero => omega
  | succ rounds ih =>
    obtain ⟨rounds', rfl⟩ : ∃ k, rounds' = k + 1 := ⟨rounds' - 1, by omega⟩
    intro hs
    obtain ⟨passes, onward⟩ := advancing a s ha hs
    obtain ⟨sound, same⟩ := round a s ha hs
    rw [repeatAtMost_succ, repeatAtMost_succ, same]
    cases taken : step a s with
    | mk result s' =>
      rw [taken] at passes onward sound
      cases result with
      | inr b => exact ⟨sound, rfl⟩
      | inl a' =>
        obtain ⟨ha', further⟩ : inv a' ∧ s.position < s'.position := onward a' rfl
        have size : s'.size = s.size := passes.size hs
        have bound : s'.position ≤ s'.size := passes.sound.toWhole.position_le
        exact ih ha' (by omega) (by omega) sound

/-- A loop whose rounds go on is the same further on, where it might take more of them. -/
theorem Moves.repeatUntil (advancing : Advancing inv step)
    (round : ∀ a s, inv a → Moves front (Sum.map f g) (step a) (step' (f a)) s) {a : α}
    (ha : inv a) :
    Moves front g (Script.repeatUntil step unfinished a)
      (Script.repeatUntil step' unfinished' (f a)) s :=
  repeatAtMost_moves advancing round ha (Nat.lt_succ_of_le (Nat.sub_le _ _))
    (Nat.lt_succ_of_le (Nat.le_trans (Nat.sub_le _ _) (Nat.le_add_left _ _)))

end Loop

end Script

end RouteScript
