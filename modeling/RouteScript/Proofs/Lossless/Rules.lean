import RouteScript.Proofs.Nesting.Order
/-!
# Lossless readers

A reader is lossless when what it gives back accounts for what was given to it and for all it took,
and leaves it in order. The rules below follow the steps of a reader; what earlier steps gave is set
aside meanwhile.
-/
namespace RouteScript.Script

open Draft

variable {α β : Type}

theorem marks_extraLeaf (t : Token) :
    ∃ kind, (extraLeaf t).marks = [.extra kind t.start t.stop] := by
  refine ⟨(extraLeaf t).label.kind, ?_⟩
  unfold extraLeaf
  split <;> rfl

theorem solids_extraLeaf (t : Token) : (extraLeaf t).solids = [] := by
  obtain ⟨kind, marks⟩ := marks_extraLeaf t
  rw [solids, marks]
  rfl

theorem Stream.Sound.solids_waiting {s : Stream} (h : s.Sound) {ds : List Draft}
    (sub : ∀ d ∈ ds, d ∈ s.waiting) : solidsOf ds = [] := by
  refine List.flatMap_eq_nil_iff.2 fun d hd => ?_
  obtain ⟨t, _, _, rfl⟩ := h.waiting d (sub d hd)
  exact solids_extraLeaf t

theorem solidsOf_insertByStart {d : Draft} (h : d.solids = []) (cs : List Draft) :
    solidsOf (insertByStart d cs) = solidsOf cs := by
  induction cs with
  | nil => simp [insertByStart, h]
  | cons c cs ih =>
    unfold insertByStart
    split <;> simp [h, ih]

theorem extrasOf_perm {ds ds' : List Draft} (h : ds.Perm ds') :
    (extrasOf ds).Perm (extrasOf ds') := h.flatMap_right _

theorem solidsOf_absorb {taken : List Draft} (h : ∀ d ∈ taken, d.solids = [])
    (children : List Draft) :
    solidsOf (taken.foldl (fun cs d => insertByStart d cs) children) = solidsOf children := by
  induction taken generalizing children with
  | nil => rfl
  | cons d taken ih =>
    rw [List.foldl_cons, ih fun c hc => h c (by simp [hc]), solidsOf_insertByStart (h d (by simp))]

theorem solidsOf_absorbed {s : Stream} (hs : s.Sound) (children : List Draft) :
    solidsOf (absorb children s).1 = solidsOf children := by
  refine solidsOf_absorb (fun d hd => ?_) _
  obtain ⟨t, _, _, rfl⟩ := hs.waiting d (List.mem_filter.1 hd).1
  exact solids_extraLeaf t

namespace Conserves

variable {s : Stream} {given out : List Draft}

/-- Some of the waiting nodes are taken in among others. -/
theorem settle (hs : s.Sound) (test : Draft → Bool) (solids : solidsOf out = solidsOf given)
    (perm : out.Perm (given ++ s.waiting.filter test)) :
    Conserves given s out { s with waiting := s.waiting.filter fun d => !test d } := by
  refine ⟨[], ⟨hs.drop_waiting fun d hd => (List.mem_filter.1 hd).1, .done _, by simp⟩,
    by simp [solids], ?_⟩
  rw [List.flatMap_nil, List.append_nil]
  have kept : (extrasOf (s.waiting.filter test)
      ++ extrasOf (s.waiting.filter fun d => !test d)).Perm (extrasOf s.waiting) := by
    rw [← extrasOf_append]
    exact extrasOf_perm (List.filter_append_perm _ _)
  refine ((extrasOf_perm perm).append_right _).trans ?_
  rw [extrasOf_append, List.append_assoc]
  exact kept.append_left _

theorem absorb (hs : s.Sound) (before children behind : List Draft) :
    Conserves (before ++ children ++ behind) s (before ++ (absorb children s).1 ++ behind)
      (absorb children s).2 := by
  refine settle hs (isInside children) ?_ ?_
  · simp [solidsOf_absorbed hs children]
  · refine (((absorb_perm _ _).append_left before).append_right behind).trans ?_
    simp only [List.append_assoc]
    exact ((List.perm_append_comm.append_left _).append_left _)

theorem place (hs : s.Sound) (children : List Draft) (item : Draft) :
    Conserves (children ++ [item]) s (place children item s).1 (place children item s).2 := by
  change Conserves _ s (children ++ s.waiting.filter (fun d => d.start < item.start) ++ [item]) _
  refine settle hs (fun d => d.start < item.start) ?_ ?_
  · simp [hs.solids_waiting fun d hd => (List.mem_filter.1 hd).1]
  · simpa using (List.perm_append_singleton item
      (s.waiting.filter fun d => d.start < item.start)).append_left children

theorem flush (hs : s.Sound) (children : List Draft) :
    Conserves children s (flush children s).1 (flush children s).2 := by
  have everything : (s.waiting.filter fun _ => true) = s.waiting :=
    List.filter_eq_self.2 fun _ _ => rfl
  have nothing : (s.waiting.filter fun _ => !true) = [] := List.filter_eq_nil_iff.2 (by simp)
  have taken : Conserves children s (children ++ s.waiting)
      { s with waiting := s.waiting.filter fun _ => !true } :=
    settle hs (fun _ => true) (by rw [solidsOf_append, hs.solids_waiting fun _ h => h,
      List.append_nil]) (by rw [everything])
  rwa [nothing] at taken

end Conserves

/-- Every draft has marks of the structure. -/
def Solid (ds : List Draft) : Prop := ∀ d ∈ ds, d.solids ≠ []

@[simp] theorem solid_nil : Solid [] := by simp [Solid]

@[simp] theorem solid_cons (d : Draft) (ds : List Draft) :
    Solid (d :: ds) ↔ d.solids ≠ [] ∧ Solid ds := by simp [Solid]

@[simp] theorem solid_append (ds ds' : List Draft) :
    Solid (ds ++ ds') ↔ Solid ds ∧ Solid ds' := by simp [Solid, or_imp, forall_and]

@[simp] theorem solid_map_withField (field : String) (ds : List Draft) :
    Solid (ds.map (withField field)) ↔ Solid ds := by simp [Solid]

theorem Solid.solidsOf_ne_nil {ds : List Draft} (h : Solid ds) (nonempty : ds ≠ []) :
    solidsOf ds ≠ [] := by
  obtain ⟨d, rest, rfl⟩ := List.exists_cons_of_ne_nil nonempty
  simp [((solid_cons d rest).1 h).1]

theorem Solid.longer {before more : List Draft} (h : Solid (before ++ more))
    (nonempty : more ≠ []) : (solidsOf before).length < (solidsOf (before ++ more)).length := by
  have := List.length_pos_iff.2 (((solid_append _ _).1 h).2.solidsOf_ne_nil nonempty)
  rw [solidsOf_append, List.length_append]
  omega

/-- Drafts that stand for others. -/
structure Same (given out : List Draft) : Prop where
  solids : solidsOf out = solidsOf given
  extras : extrasOf out = extrasOf given
  solid : Solid given → Solid out
  replaceables : List.Forall₂ ReplaceableBy given out

@[simp] theorem replaceable_refl (ds : List Draft) : List.Forall₂ ReplaceableBy ds ds :=
  List.forall₂_same.2 fun d _ => .refl d

@[simp] theorem replaceables_map_withField (field : String) (ds : List Draft) :
    List.Forall₂ ReplaceableBy ds (ds.map (withField field)) :=
  List.forall₂_map_right_iff.2
    (List.forall₂_same.2 fun d _ => (ReplaceableBy.refl d).withField field)

@[simp] theorem replaceables_append_left (ds es es' : List Draft) :
    List.Forall₂ ReplaceableBy (ds ++ es) (ds ++ es') ↔ List.Forall₂ ReplaceableBy es es' := by
  induction ds with
  | nil => rfl
  | cons d ds ih => simp [ih]

theorem Same.refl (ds : List Draft) : Same ds ds := ⟨rfl, rfl, id, replaceable_refl ds⟩

theorem Same.withField (field : String) (d : Draft) : Same [d] [d.withField field] :=
  ⟨by simp, by simp, by simp, by simp⟩

theorem Same.wrap (d : Draft) : Same [d] [wrap d] := ⟨by simp, by simp, by simp, by simp⟩

theorem Kept.of_same {s : Stream} {given out : List Draft} (hs : s.Sound) (same : Same given out) :
    Kept given s out s := ⟨.of_same hs same.solids same.extras, .replaceable same.replaceables⟩

/-- What a reader gives back at a stream accounts for what was given to it and all it takes. -/
def Lossless (s : Stream) (given : List Draft) (r : Reader α) (held : α → List Draft)
    (post : α → Prop := fun _ => True) : Prop :=
  s.Sound → Solid given → Gives r s fun a s' => Kept given s (held a) s' ∧ Solid (held a) ∧ post a

namespace Lossless

variable {s : Stream} {given : List Draft} {x : Reader α} {k : α → Reader β} {r : Reader β}
  {mid : α → List Draft} {midPost : α → Prop} {held : β → List Draft} {post : β → Prop}

theorem result {b : β} (same : Same given (held b)) (hp : Solid (held b) → post b) :
    Lossless s given (Pure.pure b) held post :=
  fun hs solid =>
    have solid' := same.solid solid
    ⟨.of_same hs same, solid', hp solid'⟩

theorem pure {b : β} (same : Same given (held b)) : Lossless s given (Pure.pure b) held :=
  .result same fun _ => trivial

/-- The account of a reader continues that of the way to it. -/
theorem onward {given₀ : List Draft} {s₀ : Stream} (h : Lossless s given r held post)
    (kept : Kept given₀ s₀ given s) (solid : Solid given) :
    Gives r s fun b s' => Kept given₀ s₀ (held b) s' ∧ Solid (held b) ∧ post b :=
  (h kept.passes.sound solid).mono fun _ _ ⟨kept', later⟩ => ⟨kept.trans kept', later⟩

theorem bind (hx : Lossless s given x mid midPost)
    (hk : ∀ a s', midPost a → Lossless s' (mid a) (k a) held post) :
    Lossless s given (x >>= k) held post := fun hs solid =>
  .bind (hx hs solid) fun a s' ⟨kept, solid', hp⟩ => (hk a s' hp).onward kept solid'

/-- What was given earlier is set aside meanwhile. -/
theorem within {before inner : List Draft} (hx : Lossless s inner x mid midPost)
    (hk : ∀ a s', midPost a → Lossless s' (before ++ mid a) (k a) held post) :
    Lossless s (before ++ inner) (x >>= k) held post := by
  intro hs solid
  simp only [solid_append] at solid
  refine .bind (hx hs solid.2) fun a s' ⟨kept, solid', hp⟩ => ?_
  exact (hk a s' hp).onward (kept.frame before) (by simp [solid.1, solid'])

theorem after (hx : Lossless s [] x mid midPost)
    (hk : ∀ a s', midPost a → Lossless s' (given ++ mid a) (k a) held post) :
    Lossless s given (x >>= k) held post := by
  rw [← List.append_nil given]
  exact within hx hk

theorem regroup {given' : List Draft} (same : Same given given')
    (h : Lossless s given' r held post) : Lossless s given r held post := by
  intro hs solid
  obtain ⟨kept, solid', hp⟩ := h hs (same.solid solid)
  exact ⟨(Kept.of_same hs same).trans kept, solid', hp⟩

theorem mono {post' : β → Prop} (h : Lossless s given r held post) (imp : ∀ b, post b → post' b) :
    Lossless s given r held post' := fun hs solid =>
  Gives.mono (h hs solid) fun b _ ⟨kept, solid', hp⟩ => ⟨kept, solid', imp b hp⟩

theorem peek {k : Option Token → Reader β}
    (none : s.tokens = [] → Lossless s given (k .none) held post)
    (some : ∀ t rest, s.tokens = t :: rest → Lossless s given (k (.some t)) held post) :
    Lossless s given (peek >>= k) held post := fun hs solid =>
  gives_peek (fun tokens => none tokens hs solid) fun t rest tokens => some t rest tokens hs solid

theorem peekKind {k : Option Token.Kind → Reader β}
    (none : s.tokens = [] → Lossless s given (k .none) held post)
    (some : ∀ t rest, s.tokens = t :: rest → Lossless s given (k (.some t.kind)) held post) :
    Lossless s given (peekKind >>= k) held post := fun hs solid =>
  gives_peekKind (fun tokens => none tokens hs solid) fun t rest tokens =>
    some t rest tokens hs solid

theorem glance {k : Option Token.Kind → Reader β}
    (h : ∀ following, Lossless s given (k following) held post) :
    Lossless s given (Script.peekKind >>= k) held post := fun hs solid => h _ hs solid

theorem peekSecondKind {k : Option Token.Kind → Reader β}
    (h : ∀ following, Lossless s given (k following) held post) :
    Lossless s given (peekSecondKind >>= k) held post := fun hs solid => h _ hs solid

theorem isAt {kind : Token.Kind} {k : Bool → Reader β}
    (yes : ∀ t rest, s.tokens = t :: rest → t.kind = kind → Lossless s given (k true) held post)
    (no : Lossless s given (k false) held post) :
    Lossless s given (isAt kind >>= k) held post := fun hs solid =>
  gives_isAt (fun t rest tokens same => yes t rest tokens same hs solid) (no hs solid)

theorem isAtWord {word : String} {k : Bool → Reader β}
    (yes : ∀ t rest, s.tokens = t :: rest → Lossless s given (k true) held post)
    (no : Lossless s given (k false) held post) :
    Lossless s given (isAtWord word >>= k) held post := fun hs solid =>
  gives_isAtWord (fun t rest tokens _ _ => yes t rest tokens hs solid) (no hs solid)

theorem isAdjacent {offset : Nat} {kind : Token.Kind} {k : Bool → Reader β}
    (yes : ∀ t rest, s.tokens = t :: rest → Lossless s given (k true) held post)
    (no : Lossless s given (k false) held post) :
    Lossless s given (isAdjacent offset kind >>= k) held post := fun hs solid =>
  gives_isAdjacent (fun t rest tokens _ _ => yes t rest tokens hs solid) (no hs solid)

end Lossless

section Tokens

variable {s : Stream} {given : List Draft} {held : β → List Draft} {post : β → Prop}

theorem settle_eq (s : Stream) (t : Token) (rest : List Token) (significant : t.isSignificant) :
    ({ s with tokens := rest } : Stream).settle =
      { s with
        waiting := s.waiting
          ++ ((t :: rest.takeWhile Token.isTrivia).filter Token.isTrivia).map extraLeaf
        tokens := rest.dropWhile Token.isTrivia } := by
  have head : t.isTrivia = false := by simpa [Token.isSignificant] using significant
  simp [Stream.settle, head, trivia_takeWhile]

theorem next_snd {t : Token} {rest : List Token} (tokens : s.tokens = t :: rest) :
    (next s).2 = ({ s with tokens := rest } : Stream).settle := by
  simp [next, tokens]

/-- The next token, as whatever leaf has its marks. -/
theorem Conserves.next (given : List Draft) (hs : s.Sound) {t : Token} {rest : List Token}
    (tokens : s.tokens = t :: rest) {d : Draft} (solids : d.solids = [tokenMark t])
    (extras : d.extras = []) :
    Conserves given s (given ++ [d]) (Script.next s).2 := by
  have significant : t.isSignificant := hs.settled t (by simp [tokens])
  rw [next_snd tokens, settle_eq s t rest significant]
  refine advance hs (t :: rest.takeWhile Token.isTrivia) ?_ (dropWhile_settled rest) ?_ ?_
  · rw [tokens, List.cons_append, List.takeWhile_append_dropWhile]
  · simp [significant, significant_takeWhile, solids]
  · simp [extras]

theorem passes_next (hs : s.Sound) {t : Token} {rest : List Token} (tokens : s.tokens = t :: rest) :
    s.Passes (next s).2 ∧ s.position < (next s).2.position := by
  have conserves := Conserves.next [] hs tokens (solids_tokenLeaf t) (extras_tokenLeaf t)
  exact ⟨conserves.passes, conserves.further (by simp)⟩

theorem Kept.next (given : List Draft) (hs : s.Sound) {t : Token} {rest : List Token}
    (tokens : s.tokens = t :: rest) {d : Draft} (leaf : IsLeaf d t) :
    Kept given s (given ++ [d]) (Script.next s).2 := by
  refine ⟨.next given hs tokens leaf.solids leaf.extras, ?_⟩
  have significant : t.isSignificant := hs.settled t (by simp [tokens])
  rw [next_snd tokens, settle_eq s t rest significant]
  refine .advance hs given (t :: rest.takeWhile Token.isTrivia) ?_ ?_
  · rw [tokens, List.cons_append, List.takeWhile_append_dropWhile]
  · rw [List.filter_cons_of_pos significant, significant_takeWhile]
    exact .cons leaf .nil

/-- The token that stands next, as a leaf. -/
theorem Lossless.take {k : Option Token → Reader β} {t : Token} {rest : List Token}
    (tokens : s.tokens = t :: rest) {d : Draft} (leaf : IsLeaf d t)
    (h : ∀ s', s' = (Script.next s).2 → Lossless s' (given ++ [d]) (k (some t)) held post) :
    Lossless s given (Script.next >>= k) held post := by
  intro hs solid
  refine gives_next (fun nothing => by simp [tokens] at nothing) fun t' rest' tokens' => ?_
  obtain ⟨rfl, rfl⟩ : t = t' ∧ rest = rest' := by simpa [tokens] using tokens'
  have kept : Kept given s (given ++ [d]) (Script.next s).2 := .next given hs tokens leaf
  rw [next_snd tokens] at kept
  exact (h _ (next_snd tokens).symm).onward kept (by simp [solid, leaf.solids])

theorem Lossless.next {k : Option Token → Reader β} {leafOf : Token → Draft}
    (leaf : ∀ t, IsLeaf (leafOf t) t) (none : s.tokens = [] → Lossless s given (k .none) held post)
    (some : ∀ t rest s', s.tokens = t :: rest → s' = (Script.next s).2 →
      Lossless s' (given ++ [leafOf t]) (k (.some t)) held post) :
    Lossless s given (Script.next >>= k) held post := by
  cases tokens : s.tokens with
  | nil =>
    refine fun hs solid => gives_next (fun _ => none tokens hs solid) fun t rest tokens' => ?_
    simp [tokens] at tokens'
  | cons t rest => exact .take tokens (leaf t) fun s' there => some t rest s' tokens there

/-- What `nextLeaf` and `nextKeyword` do. -/
theorem Lossless.nextAs {k : List Draft → Reader β} {leafOf : Token → Draft}
    (leaf : ∀ t, IsLeaf (leafOf t) t) (none : s.tokens = [] → Lossless s given (k []) held post)
    (some : ∀ t rest s', s.tokens = t :: rest → Lossless s' (given ++ [leafOf t]) (k [leafOf t])
      held post) :
    Lossless s given ((Script.next >>= fun t => Pure.pure (t.map leafOf).toList) >>= k) held post :=
  .next (k := fun t => k (t.map leafOf).toList) leaf none
    fun t rest s' tokens _ => some t rest s' tokens

theorem Lossless.nextLeaf {k : List Draft → Reader β}
    (none : s.tokens = [] → Lossless s given (k []) held post)
    (some : ∀ t rest s', s.tokens = t :: rest → Lossless s' (given ++ [tokenLeaf t])
      (k [tokenLeaf t]) held post) :
    Lossless s given (Script.nextLeaf >>= k) held post :=
  .nextAs isLeaf_tokenLeaf none some

theorem Lossless.nextKeyword {k : List Draft → Reader β}
    (none : s.tokens = [] → Lossless s given (k []) held post)
    (some : ∀ t rest s', s.tokens = t :: rest → Lossless s' (given ++ [keywordLeaf t])
      (k [keywordLeaf t]) held post) :
    Lossless s given (Script.nextKeyword >>= k) held post :=
  .nextAs isLeaf_keywordLeaf none some

theorem nextLeaf_lossless (s : Stream) : Lossless s [] nextLeaf id := by
  rw [← bind_pure nextLeaf]
  exact .nextLeaf (fun _ => .pure (.refl _)) fun _ _ _ _ => .pure (.refl _)

theorem optionalLeaf_lossless (kind : Token.Kind) (s : Stream) :
    Lossless s [] (optionalLeaf kind) id := by
  refine .isAt (fun t rest tokens _ => ?_) (.pure (.refl _))
  rw [if_pos rfl]
  exact nextLeaf_lossless s

theorem takeSteps_eq {σ : Type} (step : σ → Token → Option σ) (state : σ) (ts : List Token) :
    (takeSteps step state ts).2.1 ++ (takeSteps step state ts).2.2 = ts ∧
      ∀ t, (takeSteps step state ts).2.2.head? = some t → t.isSignificant := by
  induction ts generalizing state with
  | nil => simp [takeSteps]
  | cons t ts ih =>
    unfold takeSteps
    split
    · exact ⟨congrArg (t :: ·) (ih state).1, (ih state).2⟩
    · rename_i significant
      split
      · simpa [Token.isSignificant] using significant
      · rename_i state' _
        exact ⟨congrArg (t :: ·) (ih state').1, (ih state').2⟩

theorem solidsOf_tokenLeaf (ts : List Token) :
    solidsOf (ts.map tokenLeaf) = ts.map tokenMark := by
  induction ts with
  | nil => rfl
  | cons t ts ih => simp [ih, tokenMark]

theorem extrasOf_tokenLeaf (ts : List Token) : extrasOf (ts.map tokenLeaf) = [] := by
  induction ts with
  | nil => rfl
  | cons t ts ih => simp [ih]

theorem solid_tokenLeaf (ts : List Token) : Solid (ts.map tokenLeaf) := by
  simp [Solid]

theorem collect_lossless {σ : Type} (step : σ → Token → Option σ) (state : σ) (s : Stream) :
    Lossless s [] (collect step state) Prod.snd := by
  intro hs _
  obtain ⟨tokens, settled⟩ := takeSteps_eq step state s.tokens
  refine ⟨⟨.advance hs _ tokens.symm settled (solidsOf_tokenLeaf _) (extrasOf_tokenLeaf _),
    .advance hs [] _ tokens.symm ?_⟩, solid_tokenLeaf _, trivial⟩
  exact List.forall₂_map_left_iff.2 (List.forall₂_same.2 fun t _ => isLeaf_tokenLeaf t)

theorem collectWhile_lossless (accepts : Token → Bool) (s : Stream) :
    Lossless s [] (collectWhile accepts) id :=
  .bind (collect_lossless _ _ s) fun _ _ _ => .pure (.refl _)

end Tokens

section Nodes

variable {s : Stream} {given children : List Draft}

theorem solids_node (hs : s.Sound) (nonempty : children ≠ []) {kind : String}
    (h : kind ≠ Kind.xml) : (node kind children s).1.solids = solidsOf children :=
  (solids_branch h (absorb_ne_nil nonempty s)).trans (solidsOf_absorbed hs children)

theorem Conserves.node (hs : s.Sound) (before behind : List Draft) (nonempty : children ≠ [])
    {kind : String} (h : kind ≠ Kind.xml) :
    Conserves (before ++ children ++ behind) s (before ++ [(node kind children s).1] ++ behind)
      (node kind children s).2 := by
  have absorbed := absorb hs before children behind
  have solids : (Script.node kind children s).1.solids = solidsOf (Script.absorb children s).1 :=
    solids_branch h (absorb_ne_nil nonempty s)
  have extras : (Script.node kind children s).1.extras = extrasOf (Script.absorb children s).1 :=
    extras_branch h (absorb_ne_nil nonempty s)
  exact absorbed.trans (.of_same absorbed.passes.sound (by simp [solids]) (by simp [extras]))

theorem Conserves.errorNode (hs : s.Sound) (nonempty : children ≠ []) :
    Conserves children s [(errorNode children s).1] (errorNode children s).2 := by
  have absorbed : Conserves children s (Script.absorb children s).1
    (Script.absorb children s).2 := by
    simpa using absorb hs [] children []
  refine absorbed.trans (.of_same absorbed.passes.sound ?_ ?_)
  · exact (List.append_nil _).trans (solids_error (absorb_ne_nil nonempty s))
  · exact (List.append_nil _).trans (extras_error (absorb_ne_nil nonempty s))

theorem Kept.node (hs : s.Sound) (before behind : List Draft) (nonempty : children ≠ [])
    {kind : String} (h : kind ≠ Kind.xml) :
    Kept (before ++ children ++ behind) s (before ++ [(node kind children s).1] ++ behind)
      (node kind children s).2 :=
  ⟨.node hs before behind nonempty h, .node nonempty kind before behind⟩

theorem Kept.errorNode (hs : s.Sound) (nonempty : children ≠ []) :
    Kept children s [(errorNode children s).1] (errorNode children s).2 :=
  ⟨.errorNode hs nonempty, .errorNode nonempty⟩

/-- A draft that accounts for solid drafts is solid. -/
theorem Kept.solid {d : Draft} {s' : Stream} (h : Kept children s [d] s') (nonempty : children ≠ [])
    (solid : Solid children) : Solid [d] := by
  simpa using h.conserves.solids_ne_nil (solid.solidsOf_ne_nil nonempty)

namespace Lossless

theorem nodeOver {kind : String} (same : Same given children) (nonempty : children ≠ [])
    (h : kind ≠ Kind.xml) :
    Lossless s given (Script.node kind children) (fun d => [d])
      fun d => d.solids = solidsOf children :=
  .regroup same fun hs solid =>
    have kept :
        Kept children s [(Script.node kind children s).1] (Script.node kind children s).2 := by
      simpa using Kept.node hs [] [] nonempty h
    ⟨kept, kept.solid nonempty solid, solids_node hs nonempty h⟩

theorem node {kind : String} (same : Same given children) (nonempty : children ≠ [])
    (h : kind ≠ Kind.xml) :
    Lossless s given (Script.node kind children) fun d => [d] :=
  (nodeOver same nonempty h).mono fun _ _ => trivial

/-- A node over some of what is given. -/
theorem nodeWithin {kind : String} (before behind : List Draft) {k : Draft → Reader β}
    {held : β → List Draft} {post : β → Prop} (same : Same given (before ++ children ++ behind))
    (nonempty : children ≠ []) (h : kind ≠ Kind.xml)
    (hk : ∀ d s', Lossless s' (before ++ [d] ++ behind) (k d) held post) :
    Lossless s given (Script.node kind children >>= k) held post := by
  have framed : Lossless s (before ++ children ++ behind) (Script.node kind children)
      fun d => before ++ [d] ++ behind := fun hs solid => ?_
  · exact .regroup same (.bind framed fun d s' _ => hk d s')
  simp only [solid_append] at solid
  have solid' : Solid [(Script.node kind children s).1] :=
    (Lossless.node (.refl children) nonempty h hs solid.1.2).2.1
  exact ⟨.node hs before behind nonempty h, by simpa [solid.1.1, solid.2] using solid', trivial⟩

theorem errorNode (same : Same given children) (nonempty : children ≠ []) :
    Lossless s given (Script.errorNode children) fun d => [d] :=
  .regroup same fun hs solid =>
    have kept := Kept.errorNode hs nonempty
    ⟨kept, kept.solid nonempty solid, trivial⟩

theorem errorNodes (same : Same given children) :
    Lossless s given (Script.errorNodes children) id := by
  unfold Script.errorNodes
  split
  · rename_i nothing
    rw [List.isEmpty_iff.1 nothing] at same
    exact .pure same
  · rename_i nonempty
    exact .bind (.errorNode same (by simpa using nonempty)) fun _ _ _ => .pure (.refl _)

end Lossless

end Nodes

section Loop

variable {inv : α → Prop} {step : α → Reader (α ⊕ β)} {unfinished : α → β}
  {held : α → List Draft} {done : β → List Draft}

/-- Every round accounts for what it was given, and goes on with more marks only. -/
def Rounds (inv : α → Prop) (step : α → Reader (α ⊕ β)) (held : α → List Draft)
    (done : β → List Draft) : Prop :=
  ∀ a s, inv a → Lossless s (held a) (step a) (Sum.elim held done) fun result =>
    ∀ a', result = .inl a' → inv a' ∧ (solidsOf (held a)).length < (solidsOf (held a')).length

theorem Rounds.advancing (h : Rounds inv step held done) :
    Advancing (fun a => inv a ∧ Solid (held a)) step := by
  intro a s ⟨ha, solid⟩ hs
  obtain ⟨kept, solid', more⟩ := h a s ha hs solid
  refine ⟨kept.passes, fun a' again => ?_⟩
  obtain ⟨ha', longer⟩ := more a' again
  rw [again] at kept solid'
  exact ⟨⟨ha', solid'⟩, kept.conserves.further longer⟩

theorem Lossless.repeatUntil (h : Rounds inv step held done) {a : α} (ha : inv a) (s : Stream) :
    Lossless s (held a) (Script.repeatUntil step unfinished a) done := by
  intro hs solid
  let keeps (a' : α) (s' : Stream) : Prop := Kept (held a) s (held a') s'
  refine gives_repeatUntil h.advancing keeps ?_ ⟨ha, solid⟩ hs (.of_same hs (.refl _))
  intro a' s' ⟨ha', solid'⟩ hs' kept
  obtain ⟨kept', solid'', _⟩ := h a' s' ha' hs' solid'
  unfold Gives
  cases result : (step a' s').1 with
  | inl a'' =>
    rw [result] at kept'
    exact kept.trans kept'
  | inr b =>
    rw [result] at kept' solid''
    exact ⟨kept.trans kept', solid'', trivial⟩

end Loop

end RouteScript.Script
