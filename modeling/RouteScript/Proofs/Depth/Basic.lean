import RouteScript.Proofs.Braces.Statement
import RouteScript.Proofs.Frozen
/-!
# Nesting on the way to a leaf

A path is the way from the root of a tree to one of its leaves. It nests where it passes a
statement, a group in parentheses, a list of arguments or a unary operator, or goes on to the right
of an assignment. A draft is low if no path nests often, and if none is long but for the steps to
the left of binary operators.
-/
namespace RouteScript

open Script

namespace Rose

variable {α : Type u} {β : Type v}

/-- The labels on the way to every leaf, from the root on. -/
def paths (t : Rose α) : List (List α) :=
  t.fold fun a below => if below.isEmpty then [[a]] else below.flatten.map (a :: ·)

theorem paths_leaf (a : α) : paths (.node a []) = [[a]] := by
  rw [paths, fold_node]
  rfl

theorem mem_paths_node {a : α} {cs : List (Rose α)} {path : List α} :
    path ∈ paths (.node a cs) ↔
      cs = [] ∧ path = [a] ∨ ∃ c ∈ cs, ∃ way ∈ c.paths, path = a :: way := by
  cases cs with
  | nil => simp [paths_leaf]
  | cons c cs =>
    have eq : paths (.node a (c :: cs)) = ((c :: cs).flatMap paths).map (a :: ·) := by
      rw [paths, fold_node]
      rfl
    rw [eq, List.mem_map]
    simp only [List.mem_flatMap]
    constructor
    · rintro ⟨way, ⟨d, hd, hway⟩, rfl⟩
      exact .inr ⟨d, hd, way, hway, rfl⟩
    · rintro (⟨none, _⟩ | ⟨d, hd, way, hway, rfl⟩)
      · contradiction
      · exact ⟨way, ⟨d, hd, hway⟩, rfl⟩

/-- A path starts at the root. -/
theorem head?_of_mem_paths {t : Rose α} {path : List α} (h : path ∈ t.paths) :
    path.head? = some t.label := by
  obtain ⟨a, cs⟩ := t
  rcases mem_paths_node.1 h with ⟨_, rfl⟩ | ⟨_, _, _, _, rfl⟩ <;> rfl

theorem map_mem_paths (f : α → β) {t : Rose α} {path : List α} (hp : path ∈ t.paths) :
    path.map f ∈ (t.map f).paths := by
  induction t using Rose.induction generalizing path with
  | node a cs ih =>
    rw [map_node, mem_paths_node]
    rcases mem_paths_node.1 hp with ⟨rfl, rfl⟩ | ⟨c, hc, way, hway, rfl⟩
    · exact .inl ⟨rfl, rfl⟩
    · exact .inr ⟨_, List.mem_map_of_mem hc, _, ih c hc hway, rfl⟩

end Rose

namespace Draft

/-- The kinds of nodes that are a nesting wherever a path goes on. -/
def nestingKinds : List String :=
  [Kind.statement, Kind.parenthesized, Kind.argumentList, Kind.unary]

/-- Whether a path nests at a node, given the node that it goes on to. -/
def nests (t : Tag) (next : Option Tag) : Bool :=
  t.kind ∈ nestingKinds ||
    t.kind == Kind.assignment && (next.bind Tag.field) == some Field.right

/-- How often a path nests. -/
def nestings : List Tag → Nat
  | [] => 0
  | t :: way => (nests t way.head?).toNat + nestings way

/-- Whether a path goes from a binary operator to what stands left of it. -/
def leans (t : Tag) (next : Option Tag) : Bool :=
  t.kind == Kind.binary && (next.bind Tag.field) == some Field.left

/-- How often a path goes to the left of a binary operator. -/
def leftSteps : List Tag → Nat
  | [] => 0
  | t :: way => (leans t way.head?).toNat + leftSteps way

/-- A draft no path of which nests more often than `nesting` times, and none of which is longer than
`height` but for two nodes at each step to the left of a binary operator. -/
structure Low (nesting height : Nat) (d : Draft) : Prop where
  nestings_le : ∀ path ∈ d.paths, nestings path ≤ nesting
  length_le : ∀ path ∈ d.paths, path.length ≤ height + 2 * leftSteps path

/-- Drafts that are all low. -/
def AllLow (nesting height : Nat) (ds : List Draft) : Prop := ∀ d ∈ ds, d.Low nesting height

variable {n m h k : Nat} {t : Tag} {d : Draft} {ds ds' children : List Draft} {kind : String}

theorem Low.mono (low : d.Low n h) (nesting : n ≤ m) (height : h ≤ k) : d.Low m k :=
  ⟨fun path hp => (low.nestings_le path hp).trans nesting,
    fun path hp => (low.length_le path hp).trans (by omega)⟩

theorem AllLow.mono (low : AllLow n h ds) (nesting : n ≤ m) (height : h ≤ k) : AllLow m k ds :=
  fun d hd => (low d hd).mono nesting height

@[simp] theorem allLow_nil : AllLow n h [] := by simp [AllLow]

@[simp] theorem allLow_cons : AllLow n h (d :: ds) ↔ d.Low n h ∧ AllLow n h ds := by simp [AllLow]

@[simp] theorem allLow_append : AllLow n h (ds ++ ds') ↔ AllLow n h ds ∧ AllLow n h ds' := by
  simp [AllLow, or_imp, forall_and]

/-- A node is as low as the ways on from it allow. -/
theorem Low.of_children (leaf : children = [] → nestings [t] ≤ n ∧ 1 ≤ h)
    (below : ∀ c ∈ children, ∀ way ∈ c.paths,
      (nests t c.label).toNat + nestings way ≤ n ∧
        way.length + 1 ≤ h + 2 * ((leans t c.label).toNat + leftSteps way)) :
    Low n h (.node t children) := by
  constructor <;> intro path hp <;>
    rcases Rose.mem_paths_node.1 hp with ⟨none, rfl⟩ | ⟨c, hc, way, hway, rfl⟩
  · exact (leaf none).1
  · rw [nestings, Rose.head?_of_mem_paths hway]
    exact (below c hc way hway).1
  · exact (leaf none).2.trans (Nat.le_add_right _ _)
  · rw [leftSteps, Rose.head?_of_mem_paths hway, List.length_cons]
    exact (below c hc way hway).2

theorem nests_eq_false {next : Option Tag} (plain : t.kind ∉ nestingKinds)
    (elsewhere : t.kind ≠ Kind.assignment ∨ next.bind Tag.field ≠ some Field.right) :
    nests t next = false := by
  rcases elsewhere with other | other <;> simp [nests, plain, other]

theorem low_leaf (plain : kind ∉ nestingKinds) (named : Bool) (start stop : Nat) :
    (leaf kind named start stop).Low n (h + 1) := by
  refine .of_children (fun _ => ⟨?_, Nat.le_add_left 1 h⟩) (by simp)
  simp [nestings, nests, plain]

/-- Every child counts with the step to it. -/
theorem Low.node (leaf : (nests t none).toNat ≤ n) (low : ∀ c ∈ children, ∃ m,
    (nests t (some c.label)).toNat + m ≤ n ∧ c.Low m (h + 1)) :
    Low n (h + 2) (.node t children) := by
  refine .of_children (fun _ => ⟨leaf, by omega⟩) fun c hc way hway => ?_
  obtain ⟨m, step, low⟩ := low c hc
  have often := low.nestings_le way hway
  have long := low.length_le way hway
  exact ⟨by omega, by omega⟩

/-- A node of any kind nests at most once. -/
theorem Low.nesting (low : AllLow n (h + 1) children) :
    (branch kind children).Low (n + 1) (h + 2) := by
  refine .node ?_ fun c hc => ⟨n, ?_, low c hc⟩
  · exact (Bool.toNat_le _).trans (Nat.le_add_left 1 n)
  · rw [Nat.add_comm]
    exact Nat.add_le_add_left (Bool.toNat_le _) n

theorem Low.branch (plain : kind ∉ Kind.assignment :: nestingKinds)
    (low : AllLow n (h + 1) children) : (branch kind children).Low n (h + 2) := by
  obtain ⟨other, plain⟩ := not_or.1 (mt List.mem_cons.2 plain)
  refine .node ?_ fun c hc => ⟨n, ?_, low c hc⟩
  · rw [nests_eq_false plain (.inl other)]
    exact Nat.zero_le n
  · rw [nests_eq_false plain (.inl other)]
    exact (Nat.zero_add n).le

theorem Low.wrap (low : d.Low n (h + 1)) : (wrap d).Low n (h + 2) :=
  .branch (by decide) (by simpa using low)

/-- An assignment nests on the way to the right only. -/
theorem Low.assignment (kind : t.kind = Kind.assignment) (low : ∀ c ∈ children,
      c.Low n (h + 1) ∨ c.Low (n + 1) (h + 1) ∧ c.label.field ≠ some Field.right) :
    Low (n + 1) (h + 2) (.node t children) := by
  refine .node ((Bool.toNat_le _).trans (Nat.le_add_left 1 n)) fun c hc => ?_
  rcases low c hc with low | ⟨low, elsewhere⟩
  · refine ⟨n, ?_, low⟩
    rw [Nat.add_comm]
    exact Nat.add_le_add_left (Bool.toNat_le _) n
  · refine ⟨n + 1, ?_, low⟩
    have flat : nests t (some c.label) = false :=
      nests_eq_false (by rw [kind]; decide) (.inr elsewhere)
    rw [flat]
    exact (Nat.zero_add _).le

/-- The left operand of a binary operator may be higher than the others, since the way to it is a
step to the left. -/
theorem Low.binary (kind : t.kind = Kind.binary) (low : ∀ c ∈ children,
      c.Low n (h + 1) ∨ c.Low n (h + 3) ∧ c.label.field = some Field.left) :
    Low n (h + 2) (.node t children) := by
  have level (next : Option Tag) : (nests t next).toNat = 0 := by
    rw [nests_eq_false (by rw [kind]; decide) (.inl (by rw [kind]; decide))]
    rfl
  refine .of_children (fun _ => ⟨by simp [nestings, level], by omega⟩) fun c hc way hway => ?_
  rw [level, Nat.zero_add]
  rcases low c hc with low | ⟨low, left⟩
  · have long := low.length_le way hway
    exact ⟨low.nestings_le way hway, by omega⟩
  · have long := low.length_le way hway
    have leaning : leans t (some c.label) = true := by simp [leans, kind, left]
    rw [leaning, Bool.toNat_true]
    exact ⟨low.nestings_le way hway, by omega⟩

theorem mem_paths_relabel {f : Tag → Tag} {path : List Tag} (hp : path ∈ (d.relabel f).paths) :
    ∃ way, d.label :: way ∈ d.paths ∧ path = f d.label :: way := by
  obtain ⟨t, children⟩ := d
  rcases Rose.mem_paths_node.1 hp with ⟨none, rfl⟩ | ⟨c, hc, way, hway, rfl⟩
  · exact ⟨[], Rose.mem_paths_node.2 (.inl ⟨none, rfl⟩), rfl⟩
  · exact ⟨way, Rose.mem_paths_node.2 (.inr ⟨c, hc, way, hway, rfl⟩), rfl⟩

/-- The kind of the root alone matters for how low a draft is. -/
theorem Low.relabel (low : d.Low n h) {f : Tag → Tag} (same : ∀ t, (f t).kind = t.kind) :
    (d.relabel f).Low n h := by
  constructor <;> intro path hp <;> obtain ⟨way, hway, rfl⟩ := mem_paths_relabel hp
  · have often := low.nestings_le _ hway
    rwa [nestings, nests, same]
  · have long := low.length_le _ hway
    rwa [leftSteps, leans, same]

theorem Low.withField (low : d.Low n h) (field : String) : (d.withField field).Low n h :=
  low.relabel fun _ => rfl

theorem Low.spanning (low : d.Low n h) (start stop : Nat) : (d.spanning start stop).Low n h :=
  low.relabel fun _ => rfl

theorem AllLow.withField (low : AllLow n h ds) (field : String) :
    AllLow n h (ds.map (Draft.withField field)) :=
  List.forall_mem_map.2 fun d hd => (low d hd).withField field

/-- What stands below a node is lower, unless the way there is a step to the left. -/
theorem Low.child {c : Draft} (low : d.Low n h) (straight : d.label.kind ≠ Kind.binary)
    (hc : c ∈ d.children) : c.Low n h := by
  obtain ⟨t, children⟩ := d
  have level (next : Option Tag) : leans t next = false := by
    have straight : t.kind ≠ Kind.binary := straight
    simp [leans, straight]
  have whole {way : List Tag} (hway : way ∈ c.paths) : t :: way ∈ Rose.paths (.node t children) :=
    Rose.mem_paths_node.2 (.inr ⟨c, hc, way, hway, rfl⟩)
  constructor <;> intro way hway
  · exact (Nat.le_add_left _ _).trans (low.nestings_le _ (whole hway))
  · have long := low.length_le _ (whole hway)
    rw [leftSteps, level, List.length_cons, Bool.toNat_false] at long
    omega

theorem AllLow.error (low : AllLow n (h + 1) children) : (Draft.error children).Low n (h + 2) := by
  refine .branch (by decide) fun c hc => ?_
  obtain ⟨d, hd, hc⟩ := List.mem_flatMap.1 hc
  unfold salvage at hc
  split at hc
  · rename_i error
    split at hc
    · rw [List.mem_singleton.1 hc]
      exact (low d hd).relabel fun _ => rfl
    · have kind : d.label.kind = errorKind := eq_of_beq (Bool.and_eq_true_iff.1 error).2
      exact (low d hd).child (by rw [kind]; decide) hc
  · rw [List.mem_singleton.1 hc]
    exact (low d hd).relabel fun _ => rfl

theorem Low.unwrap (low : d.Low n h) : (unwrap d).Low n h := by
  unfold Script.unwrap
  split
  · rename_i only isExpression single
    exact low.child (by rw [eq_of_beq isExpression]; decide) (by simp [single])
  · exact low

end Draft

namespace Script

open Draft

variable {source : List Char} {n h : Nat} {s : Stream} {kind : String} {children : List Draft}

theorem low_tokenLeaf (t : Token) : (tokenLeaf t).Low n (h + 1) := by
  unfold tokenLeaf
  split
  case h_6 =>
    refine low_leaf ?_ _ _ _
    cases t.kind <;> decide
  all_goals exact low_leaf (by decide) _ _ _

theorem low_keywordLeaf (t : Token) : (keywordLeaf t).Low n (h + 1) := by
  unfold keywordLeaf
  split
  · rename_i kind known
    have word := List.mem_of_find?_eq_some known
    have apart : ∀ kind ∈ Vocabulary.keywords ++ Vocabulary.punctuation, kind ∉ nestingKinds := by
      decide
    exact low_leaf (apart kind word) _ _ _
  · exact low_leaf (by decide) _ _ _

theorem low_extraLeaf (t : Token) : (extraLeaf t).Low n (h + 1) := by
  have extra (kind : String) (plain : kind ∉ nestingKinds) :
      (Draft.leaf kind true t.start t.stop).asExtra.Low n (h + 1) :=
    (low_leaf plain true t.start t.stop).relabel fun _ => rfl
  unfold extraLeaf
  split <;> exact extra _ (by decide)

/-- What a reading gives is low, whether or not it failed. -/
def Outcome.Low (n h : Nat) : Outcome → Prop
  | .ok d => d.Low n h
  | .error consumed => AllLow n h consumed

theorem Outcome.Low.mono {m k : Nat} {out : Outcome} (low : out.Low n h) (nesting : n ≤ m)
    (height : h ≤ k) : out.Low m k := by
  cases out with
  | ok d => exact Draft.Low.mono low nesting height
  | error consumed => exact AllLow.mono low nesting height

theorem AreComments.low {ds : List Draft} (comments : AreComments source ds) :
    AllLow n (h + 1) ds := by
  intro d hd
  obtain ⟨t, _, _, rfl⟩ := comments d hd
  exact low_extraLeaf t

/-- Drafts that are as low as leaves. -/
def AreLeaves (ds : List Draft) : Prop := ∀ n h, AllLow n (h + 1) ds

namespace Checks

theorem leaves : Checks source s Script.nextLeaf AreLeaves :=
  .nextAs (k := Pure.pure) (.pure fun _ _ => allLow_nil) fun t _ _ _ _ _ =>
    .pure fun _ _ => by simpa using low_tokenLeaf t

theorem keywordLeaves : Checks source s Script.nextKeyword AreLeaves :=
  .nextAs (k := Pure.pure) (.pure fun _ _ => allLow_nil) fun t _ _ _ _ _ =>
    .pure fun _ _ => by simpa using low_keywordLeaf t

theorem optionalLeaves {kind : Token.Kind} :
    Checks source s (Script.optionalLeaf kind) AreLeaves :=
  .isAt (fun _ _ _ _ => .leaves) (.pure fun _ _ => allLow_nil)

theorem collectLeaves {σ : Type} (step : σ → Token → Option σ) (state : σ) :
    Checks source s (Script.collect step state) fun r => AreLeaves r.2 :=
  (collect step state).mono fun r all _ _ d hd => by
    obtain ⟨t, _, _, rfl⟩ := all d hd
    exact low_tokenLeaf t

theorem collectLeavesWhile (accepts : Token → Bool) :
    Checks source s (Script.collectWhile accepts) AreLeaves :=
  .bind (collectLeaves _ _) fun _ _ leaves => .pure leaves

theorem absorbLow (low : AllLow n (h + 1) children) :
    Checks source s (Script.absorb children) (AllLow n (h + 1)) :=
  (absorb children).mono fun all ⟨inside, _⟩ c hc => by
    rcases inside c hc with given | ⟨t, _, _, rfl⟩
    · exact low c given
    · exact low_extraLeaf t

theorem lowNode (plain : kind ∉ Kind.assignment :: nestingKinds) (low : AllLow n (h + 1) children) :
    Checks source s (Script.node kind children) (Low n (h + 2)) :=
  .bind (absorbLow low) fun _ _ low => .pure (.branch plain low)

theorem nestingNode (low : AllLow n (h + 1) children) :
    Checks source s (Script.node kind children) (Low (n + 1) (h + 2)) :=
  .bind (absorbLow low) fun _ _ low => .pure (.nesting low)

theorem lowError (low : AllLow n (h + 1) children) :
    Checks source s (Script.errorNode children) (Low n (h + 2)) :=
  .bind (absorbLow low) fun _ _ low => .pure low.error

/-- Children of an assignment that nest as the way to the right allows. -/
theorem lowAssignment (low : ∀ c ∈ children,
      c.Low n (h + 1) ∨ c.Low (n + 1) (h + 1) ∧ c.label.field ≠ some Field.right) :
    Checks source s (Script.node Kind.assignment children) (Low (n + 1) (h + 2)) :=
  .bind (absorb children) fun all _ ⟨inside, _⟩ => .pure (.assignment rfl fun c hc => by
    rcases inside c hc with given | ⟨t, _, _, rfl⟩
    · exact low c given
    · exact .inl (low_extraLeaf t))

/-- Children of a binary operator, the left one of which may be higher. -/
theorem lowBinary (low : ∀ c ∈ children,
      c.Low n (h + 1) ∨ c.Low n (h + 3) ∧ c.label.field = some Field.left) :
    Checks source s (Script.node Kind.binary children) (Low n (h + 2)) :=
  .bind (absorb children) fun all _ ⟨inside, _⟩ => .pure (.binary rfl fun c hc => by
    rcases inside c hc with given | ⟨t, _, _, rfl⟩
    · exact low c given
    · exact .inl (low_extraLeaf t))

theorem lowErrors (low : AllLow n (h + 1) children) :
    Checks source s (Script.errorNodes children) (AllLow n (h + 2)) := by
  unfold Script.errorNodes
  split
  · exact .pure allLow_nil
  · exact .bind (lowError low) fun d _ low => .pure (by simpa using low)

end Checks

end Script

end RouteScript
