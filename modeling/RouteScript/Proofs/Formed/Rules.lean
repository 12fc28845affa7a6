import RouteScript.Proofs.Braces.Statement
/-!
# Well-formed nodes

Whatever the text, every block starts with its brace, or with the error node that stands for a
brace without a partner; the name of a variable consists of the leaves of successive tokens, and
nothing but such a name takes the role of the name in a user variable. Every reader keeps this for
what it makes from what was given to it.
-/
namespace RouteScript

open Script

namespace Draft

variable {source : List Char}

/-- The brace that opens a block, or the error in its place. -/
def IsOpening (d : Draft) : Prop :=
  d.label.named ∧ d.label.extra = false ∧ d.label.kind ∈ [Kind.blockStart, Kind.error]

/-- The leaves of tokens that follow each other in the source, but for comments among them. -/
def LeavesIn (source : List Char) (ds : List Draft) : Prop :=
  ∃ (p q : Spot) (ts : List Token), p.In source ∧ Cut Token.Scan.isGap p ts q ∧
    (∀ t ∈ ts, t.ScannedIn source) ∧ ds = (ts.filter Token.isSignificant).map tokenLeaf

/-- The kinds of user variables. -/
def userKinds : List String := [Kind.avpVar, Kind.scriptVar, Kind.dlgVar]

structure WellFormed (source : List Char) (d : Draft) : Prop where
  block : d.label.kind = Kind.compoundStatement → ∀ first ∈ d.children.head?, IsOpening first
  name : d.label.kind = Kind.variableName →
    LeavesIn source (d.children.filter fun c => !c.label.extra)
  user : d.label.kind ∈ userKinds → ∀ c ∈ d.children, c.label.field = some Field.name →
    c.label.kind = Kind.variableName

/-- Every node of a draft is well formed. -/
def Formed (source : List Char) (d : Draft) : Prop := ∀ n ∈ d.nodes, WellFormed source n

def AllFormed (source : List Char) (ds : List Draft) : Prop := ∀ d ∈ ds, d.Formed source

theorem formed_node {t : Tag} {children : List Draft} : Formed source (.node t children) ↔
    WellFormed source (.node t children) ∧ AllFormed source children := Rose.forall_nodes_node

@[simp] theorem allFormed_nil : AllFormed source [] := by simp [AllFormed]

@[simp] theorem allFormed_cons (d : Draft) (ds : List Draft) :
    AllFormed source (d :: ds) ↔ d.Formed source ∧ AllFormed source ds := by simp [AllFormed]

@[simp] theorem allFormed_append (ds ds' : List Draft) :
    AllFormed source (ds ++ ds') ↔ AllFormed source ds ∧ AllFormed source ds' := by
  simp [AllFormed, or_imp, forall_and]

/-- The kinds of nodes of which something is asked. -/
def shapedKinds : List String := [Kind.compoundStatement, Kind.variableName] ++ userKinds

/-- A node of which nothing is asked, over formed ones. -/
theorem formed_of_plain {t : Tag} {children : List Draft} (plain : t.kind ∉ shapedKinds)
    (below : AllFormed source children) : Formed source (.node t children) := by
  simp only [shapedKinds, List.mem_append, List.mem_cons, List.not_mem_nil, or_false,
    not_or] at plain
  exact formed_node.2 ⟨⟨fun block => absurd block plain.1.1, fun name => absurd name plain.1.2,
    fun user => absurd user plain.2⟩, below⟩

/-- Whatever its kind, a node without children is formed. -/
theorem formed_of_childless (t : Tag) : Formed source (.node t []) :=
  formed_node.2 ⟨⟨fun _ => by simp [Rose.children],
    fun _ => ⟨⟨0, source⟩, _, [], Spot.in_start source, .done _, by simp, rfl⟩,
    fun _ => by simp [Rose.children]⟩, allFormed_nil⟩

theorem formed_leaf (kind : String) (named : Bool) (start stop : Nat) :
    (leaf kind named start stop).Formed source := formed_of_childless _

theorem formed_tokenLeaf (t : Token) : (tokenLeaf t).Formed source := by
  obtain ⟨_, _, eq, _⟩ := tokenLeaf_eq t
  exact eq ▸ formed_of_childless _

theorem formed_keywordLeaf (t : Token) : (keywordLeaf t).Formed source := by
  obtain ⟨_, _, eq, _⟩ := keywordLeaf_eq t
  exact eq ▸ formed_of_childless _

theorem formed_extraLeaf (t : Token) : (extraLeaf t).Formed source := by
  obtain ⟨_, eq, _⟩ := extraLeaf_eq t
  exact eq ▸ formed_of_childless _

/-- A new label of the same kind keeps a draft formed. -/
theorem Formed.relabel {d : Draft} (h : d.Formed source) {f : Tag → Tag}
    (kind : ∀ t, (f t).kind = t.kind) : (d.relabel f).Formed source := by
  obtain ⟨t, children⟩ := d
  obtain ⟨shaped, below⟩ := formed_node.1 h
  exact formed_node.2 ⟨⟨fun block => shaped.block ((kind t).symm.trans block),
    fun name => shaped.name ((kind t).symm.trans name),
    fun user => shaped.user ((kind t) ▸ user)⟩, below⟩

@[simp] theorem formed_withField {d : Draft} (h : d.Formed source) (field : String) :
    (d.withField field).Formed source := h.relabel fun _ => rfl

theorem AllFormed.withField {ds : List Draft} (h : AllFormed source ds) (field : String) :
    AllFormed source (ds.map (Draft.withField field)) :=
  List.forall_mem_map.2 fun d hd => formed_withField (h d hd) field

theorem Formed.children {d : Draft} (h : d.Formed source) : AllFormed source d.children := by
  obtain ⟨t, children⟩ := d
  exact (formed_node.1 h).2

theorem Formed.salvage {d : Draft} (h : d.Formed source) : AllFormed source d.salvage := by
  unfold Draft.salvage
  split
  · split
    · exact List.forall_mem_singleton.2 (h.relabel fun _ => rfl)
    · exact h.children
  · exact List.forall_mem_singleton.2 (h.relabel fun _ => rfl)

theorem formed_error {children : List Draft} (h : AllFormed source children) :
    (error children).Formed source := by
  refine formed_of_plain (by decide : errorKind ∉ shapedKinds) fun c hc => ?_
  obtain ⟨d, hd, hc⟩ := List.mem_flatMap.1 hc
  exact (h d hd).salvage c hc

theorem formed_wrap {d : Draft} (h : d.Formed source) : (wrap d).Formed source :=
  formed_of_plain (by decide : Kind.expression ∉ shapedKinds) (by simpa using h)

/-- A stretch of such leaves. -/
theorem LeavesIn.infix {front ds behind : List Draft}
    (h : LeavesIn source (front ++ ds ++ behind)) : LeavesIn source ds := by
  obtain ⟨p, q, ts, inside, cut, scanned, eq⟩ := h
  obtain ⟨kept, _, split, front_ds, _⟩ := List.append_eq_map_iff.1 eq
  obtain ⟨left, _, rfl, rfl, _⟩ := List.filter_eq_append_iff.1 split
  obtain ⟨_, inner, split', _, rfl⟩ := List.append_eq_map_iff.1 front_ds.symm
  obtain ⟨before, ts, rfl, rfl, rfl⟩ := List.filter_eq_append_iff.1 split'
  obtain ⟨_, cut, _⟩ := cut.split
  obtain ⟨p', lead, cut⟩ := cut.split
  exact ⟨p', _, ts, lead.place inside, cut, fun t ht => scanned t (by simp [ht]), rfl⟩

theorem LeavesIn.formed {ds : List Draft} (h : LeavesIn source ds) : AllFormed source ds := by
  obtain ⟨_, _, ts, _, _, _, rfl⟩ := h
  exact List.forall_mem_map.2 fun t _ => formed_tokenLeaf t

theorem label_tokenLeaf (t : Token) :
    (tokenLeaf t).label.extra = false ∧ (tokenLeaf t).label.field = none := by
  obtain ⟨_, _, eq, _⟩ := tokenLeaf_eq t
  rw [eq]
  exact ⟨rfl, rfl⟩

theorem LeavesIn.label {ds : List Draft} (h : LeavesIn source ds) :
    ∀ d ∈ ds, d.label.extra = false ∧ d.label.field = none := by
  obtain ⟨_, _, ts, _, _, _, rfl⟩ := h
  exact List.forall_mem_map.2 fun t _ => label_tokenLeaf t

end Draft

namespace Script

open Draft

variable {source : List Char}

/-- Wherever a reader stands in the source, what it gives is good. -/
def Builds {α : Type} (source : List Char) (r : Reader α) (good : α → Prop) : Prop :=
  ∀ s, Checks source s r good

namespace Builds

variable {α β : Type} {x : Reader α} {k : α → Reader β} {mid : α → Prop} {good : β → Prop}
  {children : List Draft}

theorem pure {b : β} (h : good b) : Builds source (Pure.pure b) good := fun _ => .pure h

theorem bind (hx : Builds source x mid) (hk : ∀ a, mid a → Builds source (k a) good) :
    Builds source (x >>= k) good := fun s => .bind (hx s) fun a s' ha => hk a ha s'

theorem peek {k : Option Token → Reader β} (hk : ∀ t, Builds source (k t) good) :
    Builds source (Script.peek >>= k) good := fun s => .peek (hk none s) fun t _ _ => hk (some t) s

theorem peekKind {k : Option Token.Kind → Reader β} (hk : ∀ t, Builds source (k t) good) :
    Builds source (Script.peekKind >>= k) good := fun s =>
  .peekKind (hk none s) fun t _ _ => hk (some t.kind) s

theorem peekSecondKind {k : Option Token.Kind → Reader β} (hk : ∀ t, Builds source (k t) good) :
    Builds source (Script.peekSecondKind >>= k) good := fun s => .peekSecondKind (hk _ s)

theorem isAt {kind : Token.Kind} {k : Bool → Reader β} (hk : ∀ b, Builds source (k b) good) :
    Builds source (Script.isAt kind >>= k) good := fun s =>
  .isAt (fun _ _ _ _ => hk true s) (hk false s)

theorem isAtWord {word : String} {k : Bool → Reader β} (hk : ∀ b, Builds source (k b) good) :
    Builds source (Script.isAtWord word >>= k) good := fun s =>
  .isAtWord (fun _ _ _ _ => hk true s) (hk false s)

theorem isAdjacent {offset : Nat} {kind : Token.Kind} {k : Bool → Reader β}
    (hk : ∀ b, Builds source (k b) good) :
    Builds source (Script.isAdjacent offset kind >>= k) good := fun s => .isAdjacent fun b => hk b s

theorem next {k : Option Token → Reader β} (hk : ∀ t, Builds source (k t) good) :
    Builds source (Script.next >>= k) good := fun s =>
  .next (hk none s) fun t _ s' _ _ _ => hk (some t) s'

theorem nextAs {leafOf : Token → Draft} (formed : ∀ t, (leafOf t).Formed source) :
    Builds source (Script.next >>= fun t => Pure.pure (t.map leafOf).toList) (AllFormed source) :=
  .next fun t => .pure (by cases t <;> simp [formed])

theorem nextLeaf : Builds source Script.nextLeaf (AllFormed source) := nextAs formed_tokenLeaf

theorem nextKeyword : Builds source Script.nextKeyword (AllFormed source) :=
  nextAs formed_keywordLeaf

theorem optionalLeaf (kind : Token.Kind) :
    Builds source (Script.optionalLeaf kind) (AllFormed source) :=
  .isAt fun b => by cases b <;> [exact .pure allFormed_nil; exact nextLeaf]

theorem collect {σ : Type} (step : σ → Token → Option σ) (state : σ) :
    Builds source (Script.collect step state) fun r => LeavesIn source r.2 := by
  intro s hs here
  refine ⟨(collect_lossless step state s hs solid_nil).1.passes, ?_⟩
  have split := (takeSteps_eq step state s.tokens).1
  obtain ⟨p, inside, cut⟩ := hs.cut
  rw [← split] at cut
  obtain ⟨q, taken, _⟩ := cut.split
  refine ⟨p, q, _, here ▸ inside, taken, fun t ht => ?_, rfl⟩
  exact here ▸ hs.scanned t (split ▸ List.mem_append_left _ ht)

theorem collectWhile (accepts : Token → Bool) :
    Builds source (Script.collectWhile accepts) (AllFormed source) :=
  .bind (collect _ _) fun _ h => .pure h.formed

/-- A node gets comments among its children, and starts with the same child. -/
theorem absorb (children : List Draft) : Builds source (Script.absorb children) fun all =>
    (∀ c ∈ all, c ∈ children ∨ ∃ t : Token, c = extraLeaf t) ∧
      (all.filter fun c => !c.label.extra) = children.filter (fun c => !c.label.extra) ∧
      all.head? = children.head? := by
  intro s hs here
  obtain ⟨passes, inside, notExtra⟩ := Checks.absorb children hs here
  refine ⟨passes, fun c hc => (inside c hc).imp id fun ⟨t, _, _, eq⟩ => ⟨t, eq⟩, notExtra, ?_⟩
  cases head : children.head? with
  | some first => exact head?_absorb head s
  | none =>
    obtain rfl : children = [] := List.head?_eq_none_iff.1 head
    have nothing : s.waiting.filter (isInside []) = [] :=
      List.filter_eq_nil_iff.2 (by simp [isInside])
    simp [Script.absorb, nothing]

theorem formed_absorbed {all : List Draft} (h : AllFormed source children)
    (inside : ∀ c ∈ all, c ∈ children ∨ ∃ t : Token, c = extraLeaf t) : AllFormed source all := by
  intro c hc
  rcases inside c hc with given | ⟨t, rfl⟩
  · exact h c given
  · exact formed_extraLeaf t

theorem node {kind : String} (plain : kind ∉ shapedKinds) (h : AllFormed source children) :
    Builds source (Script.node kind children) (Formed source) :=
  .bind (absorb children) fun _ ⟨inside, _⟩ =>
    .pure (formed_of_plain plain (formed_absorbed h inside))

theorem errorNode (h : AllFormed source children) :
    Builds source (Script.errorNode children) (Formed source) :=
  .bind (absorb children) fun _ ⟨inside, _⟩ => .pure (formed_error (formed_absorbed h inside))

theorem errorNodes (h : AllFormed source children) :
    Builds source (Script.errorNodes children) (AllFormed source) := by
  unfold Script.errorNodes
  split
  · exact .pure allFormed_nil
  · exact .bind (errorNode h) fun d formed => .pure (by simpa using formed)

theorem formed_comments {comments : List Draft} (h : AreComments source comments) :
    AllFormed source comments := fun d hd => by
  obtain ⟨t, _, _, rfl⟩ := h d hd
  exact formed_extraLeaf t

/-- An item goes behind comments. -/
theorem place {item : Draft} {k : List Draft → Reader β}
    (hk : ∀ comments, AllFormed source comments →
      Builds source (k (children ++ comments ++ [item])) good) :
    Builds source (Script.place children item >>= k) good := fun _ =>
  .place fun comments s' there => hk comments (formed_comments there) s'

theorem flush {k : List Draft → Reader β}
    (hk : ∀ comments, AllFormed source comments → Builds source (k (children ++ comments)) good) :
    Builds source (Script.flush children >>= k) good := fun _ =>
  .flush fun comments s' there => hk comments (formed_comments there) s'

theorem repeatUntil {inv : α → Prop} {step : α → Reader (α ⊕ β)} {unfinished : α → β}
    (round : ∀ a, inv a → Builds source (step a) (Sum.elim inv good))
    (ended : ∀ a, inv a → good (unfinished a)) {a : α} (ha : inv a) :
    Builds source (Script.repeatUntil step unfinished a) good := fun _ =>
  .repeatUntil (fun a s ha => round a ha s) ended ha

end Builds

end Script

end RouteScript
