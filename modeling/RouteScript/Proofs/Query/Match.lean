import RouteScript.Query.Match
import Mathlib.Data.List.Destutter
import Mathlib.Data.List.Pairwise
import Mathlib.Data.Set.Operations
/-!
# Bindings of a pattern

What it means for a pattern to bind at a node, said without a search, and the order of bindings.
`Enumerates` says that a list holds all bindings of a pattern at a node in this order; there is one
such list at most.

The search for the matches of a query finds all bindings of its patterns, each once and from left to
right, at every node below the root in preorder.
-/
namespace RouteScript.Query

/-- How a pattern binds: the children that stand for its child patterns, by their indexes and each
with its own binding, or the alternative that binds. -/
inductive Binding where
  | node (chosen : List (Nat × Binding))
  | oneOf (alternative : Nat) (inner : Binding)

mutual

/-- A pattern binds at a node in this way and captures these nodes. -/
inductive Binds : Pattern → Cursor → Binding → List Capture → Prop
  | node {m : Matcher} {children : List (Option String × Pattern)} {captures : List Nat}
      {c : Cursor} {chosen : List (Nat × Binding)} {inner : List Capture}
      (accepted : m.accepts c.node) (assigned : Assigns children c.children chosen inner)
      (increasing : (chosen.map Prod.fst).Pairwise (· < ·)) :
      Binds (.node m children captures) c (.node chosen) (captures.map (Capture.mk · c) ++ inner)
  | oneOf {alternatives : List Pattern} {captures : List Nat} {c : Cursor} {i : Nat} {p : Pattern}
      {b : Binding} {inner : List Capture} (there : alternatives[i]? = some p)
      (bound : Binds p c b inner) :
      Binds (.oneOf alternatives captures) c (.oneOf i b) (captures.map (Capture.mk · c) ++ inner)

/-- Each pattern is bound at the node that was chosen for it, in the role that it asks for. -/
inductive Assigns :
    List (Option String × Pattern) → List Cursor → List (Nat × Binding) → List Capture → Prop
  | nil {nodes : List Cursor} : Assigns [] nodes [] []
  | cons {field : Option String} {p : Pattern} {rest : List (Option String × Pattern)}
      {nodes : List Cursor} {i : Nat} {child : Cursor} {b : Binding}
      {chosen : List (Nat × Binding)} {first later : List Capture}
      (there : nodes[i]? = some child)
      (role : ∀ name, field = some name → child.node.field? = some name)
      (bound : Binds p child b first) (behind : Assigns rest nodes chosen later) :
      Assigns ((field, p) :: rest) nodes ((i, b) :: chosen) (first ++ later)

end

mutual

/-- Bindings from left to right: by the child chosen first, then by its own binding, then by the
others in the same way. Alternatives come in the order of the source. -/
inductive Binding.Before : Binding → Binding → Prop
  | node {chosen chosen' : List (Nat × Binding)} (before : ChosenBefore chosen chosen') :
      Before (.node chosen) (.node chosen')
  | alternative {i j : Nat} {b b' : Binding} (less : i < j) : Before (.oneOf i b) (.oneOf j b')
  | inner {i : Nat} {b b' : Binding} (before : Before b b') : Before (.oneOf i b) (.oneOf i b')

inductive Binding.ChosenBefore : List (Nat × Binding) → List (Nat × Binding) → Prop
  | index {i j : Nat} {b b' : Binding} {more more' : List (Nat × Binding)} (less : i < j) :
      ChosenBefore ((i, b) :: more) ((j, b') :: more')
  | own {i : Nat} {b b' : Binding} {more more' : List (Nat × Binding)} (before : Before b b') :
      ChosenBefore ((i, b) :: more) ((i, b') :: more')
  | later {i : Nat} {b : Binding} {more more' : List (Nat × Binding)}
      (before : ChosenBefore more more') : ChosenBefore ((i, b) :: more) ((i, b) :: more')

end

namespace Binding

mutual

theorem Before.asymm {a b : Binding} : Before a b → ¬ Before b a
  | .node before, .node before' => before.asymm before'
  | .alternative less, .alternative less' => Nat.lt_asymm less less'
  | .alternative less, .inner _ => Nat.lt_irrefl _ less
  | .inner _, .alternative less => Nat.lt_irrefl _ less
  | .inner before, .inner before' => before.asymm before'

theorem ChosenBefore.asymm {a b : List (Nat × Binding)} : ChosenBefore a b → ¬ ChosenBefore b a
  | .index less, .index less' => Nat.lt_asymm less less'
  | .index less, .own _ => Nat.lt_irrefl _ less
  | .index less, .later _ => Nat.lt_irrefl _ less
  | .own _, .index less => Nat.lt_irrefl _ less
  | .own before, .own before' => before.asymm before'
  | .own before, .later _ => before.asymm before
  | .later _, .index less => Nat.lt_irrefl _ less
  | .later _, .own before => before.asymm before
  | .later before, .later before' => before.asymm before'

end

end Binding

/-- All bindings of a pattern at a node with what they capture, in their order. -/
structure Enumerates (p : Pattern) (c : Cursor) (found : List (Binding × List Capture)) :
    Prop where
  mem_iff : ∀ b captures, (b, captures) ∈ found ↔ Binds p c b captures
  sorted : found.Pairwise fun x y => x.1.Before y.1

/-- Two lists in the same order with the same members are one. -/
theorem eq_of_sorted {α : Type u} {R : α → α → Prop} (asymm : ∀ a b, R a b → ¬ R b a)
    {xs ys : List α} (hx : xs.Pairwise R) (hy : ys.Pairwise R) (mem : ∀ a, a ∈ xs ↔ a ∈ ys) :
    xs = ys := by
  have nodup {zs : List α} (hz : zs.Pairwise R) : zs.Nodup :=
    hz.imp fun {a b} related (same : a = b) => asymm a b related (by subst same; exact related)
  refine List.Perm.eq_of_pairwise (fun a b _ _ h h' => absurd h' (asymm a b h)) hx hy ?_
  exact (List.perm_ext_iff_of_nodup (nodup hx) (nodup hy)).2 mem

theorem Enumerates.unique {p : Pattern} {c : Cursor} {found found' : List (Binding × List Capture)}
    (h : Enumerates p c found) (h' : Enumerates p c found') : found = found' :=
  eq_of_sorted (fun _ _ before => before.asymm) h.sorted h'.sorted fun (b, captures) =>
    (h.mem_iff b captures).trans (h'.mem_iff b captures).symm

theorem requiresNamed_of_all {alternatives : List Pattern} {i : Nat} {p : Pattern}
    (all : Pattern.allRequireNamed alternatives) (there : alternatives[i]? = some p) :
    p.requiresNamed := by
  induction alternatives generalizing i with
  | nil => simp at there
  | cons first rest ih =>
    rw [Pattern.allRequireNamed, Bool.and_eq_true] at all
    cases i with
    | zero =>
      obtain rfl : first = p := by simpa using there
      exact all.1
    | succ i => exact ih all.2 (by simpa using there)

theorem Matcher.isNamed_of_accepts {m : Matcher} {n : Node}
    {children : List (Option String × Pattern)} {captures : List Nat} (accepted : m.accepts n)
    (named : (Pattern.node m children captures).requiresNamed) : n.isNamed := by
  cases m with
  | named kind =>
    simp only [Matcher.accepts, Bool.and_eq_true] at accepted
    exact accepted.1
  | anyNamed => exact accepted
  | any => contradiction
  | token kind => contradiction

/-- A pattern that stands at named nodes only binds nowhere else. -/
theorem Binds.isNamed {p : Pattern} {c : Cursor} {b : Binding} {captures : List Capture} :
    Binds p c b captures → p.requiresNamed → c.isNamed
  | .node accepted _ _, named => Matcher.isNamed_of_accepts accepted named
  | .oneOf there bound, named => bound.isNamed (requiresNamed_of_all named there)

end RouteScript.Query

namespace RouteScript

/-- Every node comes before its children, and these come in their order. -/
theorem Cursor.preorder_eq (c : Cursor) : c.preorder = c :: c.children.flatMap preorder := by
  obtain ⟨⟨e, children⟩, above⟩ := c
  have below (parent : Node) (k : Nat) (ns : List Node) : walkAll above parent k ns
      = ((ns.zipIdx k).map fun p =>
          (⟨p.1, (parent, p.2) :: above⟩ : Cursor)).flatMap preorder := by
    induction ns generalizing k with
    | nil => rfl
    | cons n ns ih =>
      rw [walkAll, ih, List.zipIdx_cons, List.map_cons, List.flatMap_cons]
      rfl
  rw [preorder, walk, below]
  rfl

mutual

/-- The cursors of a frozen tree have the numbers in preorder. -/
theorem Cursor.ids_walk (rows : List Nat) (d : Draft) (id : Nat) (above : List (Node × Nat)) :
    ∃ n, (Node.freezeFrom rows id d).2 = id + n ∧
      (walk above (Node.freezeFrom rows id d).1).map Cursor.id = List.range' id n := by
  obtain ⟨t, ds⟩ := d
  rw [Node.freezeFrom]
  generalize hparent : Rose.node _ _ = parent
  obtain ⟨n, next, below⟩ := ids_walkAll rows ds (id + 1) above parent 0
  subst hparent
  refine ⟨n + 1, by rw [next]; omega, ?_⟩
  rw [walk, List.map_cons, below, List.range'_succ]
  rfl

theorem Cursor.ids_walkAll (rows : List Nat) (ds : List Draft) (id : Nat)
    (above : List (Node × Nat)) (parent : Node) (index : Nat) :
    ∃ n, (Node.freezeAllFrom rows id ds).2 = id + n ∧
      (walkAll above parent index (Node.freezeAllFrom rows id ds).1).map Cursor.id =
        List.range' id n := by
  match ds with
  | [] => exact ⟨0, rfl, rfl⟩
  | d :: ds =>
    rw [Node.freezeAllFrom]
    obtain ⟨n, next, first⟩ := ids_walk rows d id ((parent, index) :: above)
    obtain ⟨m, last, others⟩ :=
      ids_walkAll rows ds (Node.freezeFrom rows id d).2 above parent (index + 1)
    refine ⟨n + m, by rw [last, next, Nat.add_assoc], ?_⟩
    rw [walkAll, List.map_append, first, others, next, List.range'_append_1]

end

theorem Cursor.id_injOn (language : String) (source : List Char) (d : Draft) :
    Set.InjOn Cursor.id {c | c ∈ (Cursor.root (.ofDraft language source d)).preorder} := by
  obtain ⟨n, _, ids⟩ := ids_walk (Text.rowStarts source) d 0 []
  have nodup : ((Cursor.root (.ofDraft language source d)).preorder.map Cursor.id).Nodup :=
    ids ▸ List.nodup_range'
  exact fun c hc c' hc' same => List.inj_on_of_nodup_map nodup hc hc' same

namespace Query

/-- The bindings of the alternatives of a pattern, the first of which has the index `k`. -/
structure EnumeratesAny (alternatives : List Pattern) (k : Nat) (c : Cursor)
    (found : List (Binding × List Capture)) : Prop where
  mem_iff : ∀ b captures, (b, captures) ∈ found ↔
    ∃ i p inner, alternatives[i]? = some p ∧ Binds p c inner captures ∧ b = .oneOf (k + i) inner
  sorted : found.Pairwise fun x y => x.1.Before y.1

/-- The ways to choose nodes for some patterns from those behind others. -/
structure EnumeratesAmong (patterns : List (Option String × Pattern)) (front behind : List Cursor)
    (found : List (List (Nat × Binding) × List Capture)) : Prop where
  mem_iff : ∀ chosen captures, (chosen, captures) ∈ found ↔
    Assigns patterns (front ++ behind) chosen captures ∧
      (chosen.map Prod.fst).Pairwise (· < ·) ∧ ∀ i ∈ chosen.map Prod.fst, front.length ≤ i
  sorted : found.Pairwise fun x y => Binding.ChosenBefore x.1 y.1

/-- A child fits if it has the role that is asked for and the pattern may stand at it. -/
theorem fits_iff {field : Option String} {p : Pattern} {child : Cursor} :
    fits field p child ↔ (∀ name, field = some name → child.node.field? = some name) ∧
      (p.requiresNamed → child.isNamed) := by
  have named : (!p.requiresNamed || child.isNamed) = true ↔ (p.requiresNamed → child.isNamed) := by
    cases p.requiresNamed <;> simp
  rw [fits, Bool.and_eq_true, named]
  cases field <;> simp

section Choices

variable {field : Option String} {p : Pattern} {rest : List (Option String × Pattern)}
  {front behind : List Cursor} {child : Cursor} {own : List (Binding × List Capture)}
  {later : List (List (Nat × Binding) × List Capture)}

/-- The choices that start with one child: its bindings, each with all choices behind it. -/
def choicesAt (i : Nat) (own : List (Binding × List Capture))
    (later : List (List (Nat × Binding) × List Capture)) :
    List (List (Nat × Binding) × List Capture) :=
  own.flatMap fun (b, first) => later.map fun (chosen, behind) =>
    ((i, b) :: chosen, first ++ behind)

theorem mem_choicesAt {i : Nat} {chosen : List (Nat × Binding)} {captures : List Capture} :
    (chosen, captures) ∈ choicesAt i own later ↔ ∃ b first more behind, (b, first) ∈ own ∧
      (more, behind) ∈ later ∧ chosen = (i, b) :: more ∧ captures = first ++ behind := by
  simp only [choicesAt, List.mem_flatMap, List.mem_map, Prod.exists, Prod.mk.injEq]
  constructor
  · rintro ⟨b, first, hb, more, behind, hm, rfl, rfl⟩
    exact ⟨b, first, more, behind, hb, hm, rfl, rfl⟩
  · rintro ⟨b, first, more, behind, hb, hm, rfl, rfl⟩
    exact ⟨b, first, hb, more, behind, hm, rfl, rfl⟩

theorem choicesAt_sorted (i : Nat) (hown : own.Pairwise fun x y => x.1.Before y.1)
    (hlater : later.Pairwise fun x y => Binding.ChosenBefore x.1 y.1) :
    (choicesAt i own later).Pairwise fun x y => Binding.ChosenBefore x.1 y.1 := by
  refine List.pairwise_flatMap.2 ⟨fun (b, first) _ => List.pairwise_map.2 ?_, ?_⟩
  · exact hlater.imp fun before => .later before
  · refine hown.imp fun {x y} before => ?_
    simp only [List.mem_map, forall_exists_index, and_imp]
    rintro _ _ _ rfl _ _ _ rfl
    exact .own before

theorem bindingsAmong_cons (nodes : List Cursor) :
    bindingsAmong ((field, p) :: rest) (child :: nodes) =
      (if fits field p child then (bindings p child).flatMap fun first =>
        (bindingsAmong rest nodes).map (first ++ ·) else [])
      ++ bindingsAmong ((field, p) :: rest) nodes := by
  simp [bindingsAmong, picks]

theorem choicesAt_captures (i : Nat) :
    (choicesAt i own later).map Prod.snd = (own.map Prod.snd).flatMap fun first =>
      (later.map Prod.snd).map (first ++ ·) := by
  simp [choicesAt, List.map_flatMap, List.flatMap_map, Function.comp_def]

/-- The choices that start at a child are the assignments that take it first. -/
theorem mem_choicesAt_iff (field : Option String) (hown : Enumerates p child own)
    (hlater : EnumeratesAmong rest (front ++ [child]) behind later)
    (chosen : List (Nat × Binding)) (captures : List Capture) :
    (chosen, captures) ∈ (if fits field p child then choicesAt front.length own later else []) ↔
      Assigns ((field, p) :: rest) (front ++ child :: behind) chosen captures ∧
        (chosen.map Prod.fst).Pairwise (· < ·) ∧
          (chosen.map Prod.fst).head? = some front.length := by
  have nodes : front ++ [child] ++ behind = front ++ child :: behind := by simp
  have here : (front ++ child :: behind)[front.length]? = some child := by simp
  constructor
  · intro first
    split at first
    · rename_i suits
      obtain ⟨b, head, more, tail, hb, hmore, rfl, rfl⟩ := mem_choicesAt.1 first
      obtain ⟨assigned, increasing, further⟩ := (hlater.mem_iff more tail).1 hmore
      rw [nodes] at assigned
      rw [List.length_append, List.length_singleton] at further
      refine ⟨.cons here (fits_iff.1 suits).1 ((hown.mem_iff b head).1 hb) assigned, ?_, rfl⟩
      exact List.pairwise_cons.2 ⟨further, increasing⟩
    · contradiction
  · rintro ⟨assigned, increasing, first⟩
    cases assigned with
    | @cons _ _ _ _ i child' b more head tail there role bound assigned =>
      obtain rfl : i = front.length := by simpa using first
      obtain rfl : child = child' := by simpa [here] using there
      obtain ⟨behind_it, increasing⟩ := List.pairwise_cons.1 increasing
      rw [if_pos (fits_iff.2 ⟨role, bound.isNamed⟩)]
      have bound := (hown.mem_iff b head).2 bound
      refine mem_choicesAt.2 ⟨b, head, more, tail, bound, ?_, rfl, rfl⟩
      refine (hlater.mem_iff more tail).2 ⟨by rwa [nodes], increasing, fun j hj => ?_⟩
      rw [List.length_append, List.length_singleton]
      exact behind_it j hj

/-- The choices that start at a child, and those that start behind it. -/
theorem EnumeratesAmong.cons {found : List (List (Nat × Binding) × List Capture)}
    (hown : Enumerates p child own)
    (hlater : EnumeratesAmong rest (front ++ [child]) behind later)
    (hfound : EnumeratesAmong ((field, p) :: rest) (front ++ [child]) behind found) :
    EnumeratesAmong ((field, p) :: rest) front (child :: behind)
      ((if fits field p child then choicesAt front.length own later else []) ++ found) := by
  have nodes : front ++ [child] ++ behind = front ++ child :: behind := by simp
  have here := mem_choicesAt_iff field hown hlater
  constructor
  · intro chosen captures
    rw [List.mem_append, here, hfound.mem_iff, nodes, List.length_append, List.length_singleton]
    constructor
    · rintro (⟨assigned, increasing, first⟩ | ⟨assigned, increasing, further⟩)
      · refine ⟨assigned, increasing, fun j hj => ?_⟩
        obtain ⟨more, eq⟩ := List.head?_eq_some_iff.1 first
        rw [eq] at hj increasing
        rcases List.mem_cons.1 hj with rfl | later
        · exact Nat.le.refl
        · exact Nat.le_of_lt ((List.pairwise_cons.1 increasing).1 j later)
      · exact ⟨assigned, increasing, fun j hj => Nat.le_of_succ_le (further j hj)⟩
    · rintro ⟨assigned, increasing, further⟩
      by_cases first : (chosen.map Prod.fst).head? = some front.length
      · exact .inl ⟨assigned, increasing, first⟩
      · refine .inr ⟨assigned, increasing, ?_⟩
        cases assigned with
        | @cons _ _ _ _ i _ _ _ _ _ _ _ _ _ =>
          have least : front.length ≤ i := further i (by simp)
          have other : i ≠ front.length := by simpa using first
          have above : front.length + 1 ≤ i := by omega
          exact List.forall_mem_cons.2 ⟨above, fun j hj => Nat.le_trans above
            (Nat.le_of_lt ((List.pairwise_cons.1 increasing).1 j hj))⟩
  · refine List.pairwise_append.2 ⟨?_, hfound.sorted, ?_⟩
    · split
      · exact choicesAt_sorted _ hown.sorted hlater.sorted
      · exact .nil
    · rintro ⟨chosen, captures⟩ first ⟨chosen', captures'⟩ second
      obtain ⟨assigned, _, head⟩ := (here chosen captures).1 first
      obtain ⟨assigned', _, further⟩ := (hfound.mem_iff chosen' captures').1 second
      cases assigned with
      | @cons _ _ _ _ i _ _ _ _ _ _ _ _ _ =>
        cases assigned' with
        | @cons _ _ _ _ i' _ _ _ _ _ _ _ _ _ =>
          have : i = front.length := by simpa using head
          have : front.length + 1 ≤ i' := by simpa using further i' (by simp)
          exact .index (by omega)

end Choices

theorem enumeratesAmong_noPatterns (front behind : List Cursor) :
    EnumeratesAmong [] front behind [([], [])] := by
  refine ⟨fun chosen captures => ⟨?_, ?_⟩, List.pairwise_singleton _ _⟩
  · intro h
    obtain ⟨rfl, rfl⟩ : chosen = [] ∧ captures = [] := by simpa using h
    exact ⟨.nil, .nil, by simp⟩
  · rintro ⟨assigned, _, _⟩
    cases assigned
    exact List.mem_singleton_self _

/-- No node is left for a pattern. -/
theorem enumeratesAmong_noNodes (field : Option String) (p : Pattern)
    (rest : List (Option String × Pattern)) (front : List Cursor) :
    EnumeratesAmong ((field, p) :: rest) front [] [] := by
  refine ⟨fun chosen captures => ⟨fun h => absurd h List.not_mem_nil, ?_⟩, .nil⟩
  rintro ⟨assigned, _, further⟩
  cases assigned with
  | @cons _ _ _ _ i _ _ _ _ _ there =>
    rw [List.append_nil] at there
    have inside : i < front.length := (List.getElem?_eq_some_iff.1 there).1
    have outside : front.length ≤ i := further i (by simp)
    omega

/-- If the search finds the bindings of a pattern and of those behind it, then of all of them. -/
theorem bindingsAmong_found_cons {p : Pattern} {rest : List (Option String × Pattern)}
    (hp : ∀ c, ∃ found, Enumerates p c found ∧ bindings p c = found.map Prod.snd)
    (hrest : ∀ front behind, ∃ found, EnumeratesAmong rest front behind found ∧
      bindingsAmong rest behind = found.map Prod.snd)
    (field : Option String) (front behind : List Cursor) :
    ∃ found, EnumeratesAmong ((field, p) :: rest) front behind found ∧
      bindingsAmong ((field, p) :: rest) behind = found.map Prod.snd := by
  induction behind generalizing front with
  | nil => exact ⟨[], enumeratesAmong_noNodes field p rest front, rfl⟩
  | cons child behind ih =>
    obtain ⟨own, hown, own_eq⟩ := hp child
    obtain ⟨later, hlater, later_eq⟩ := hrest (front ++ [child]) behind
    obtain ⟨found, hfound, found_eq⟩ := ih (front ++ [child])
    refine ⟨_, EnumeratesAmong.cons hown hlater hfound, ?_⟩
    rw [bindingsAmong_cons, own_eq, later_eq, found_eq, List.map_append, apply_ite (List.map _),
      choicesAt_captures]
    rfl

/-- The captures of a pattern itself stand before those of what binds below. -/
theorem enumerates_node {m : Matcher} {children : List (Option String × Pattern)} {c : Cursor}
    {found : List (List (Nat × Binding) × List Capture)} (captures : List Nat)
    (accepted : m.accepts c.node) (h : EnumeratesAmong children [] c.children found) :
    Enumerates (.node m children captures) c
      (found.map fun (chosen, inner) =>
        (.node chosen, captures.map (Capture.mk · c) ++ inner)) := by
  constructor
  · intro b all
    simp only [List.mem_map, Prod.exists, Prod.mk.injEq]
    constructor
    · rintro ⟨chosen, inner, mem, rfl, rfl⟩
      obtain ⟨assigned, increasing, _⟩ := (h.mem_iff chosen inner).1 mem
      exact .node accepted assigned increasing
    · intro bound
      cases bound with
      | @node _ _ _ _ chosen inner _ assigned increasing =>
        have mem := (h.mem_iff chosen inner).2 ⟨assigned, increasing, fun i _ => Nat.zero_le i⟩
        exact ⟨chosen, inner, mem, rfl, rfl⟩
  · exact List.pairwise_map.2 (h.sorted.imp .node)

theorem enumerates_oneOf {alternatives : List Pattern} {c : Cursor}
    {found : List (Binding × List Capture)} (captures : List Nat)
    (h : EnumeratesAny alternatives 0 c found) :
    Enumerates (.oneOf alternatives captures) c
      (found.map fun (b, inner) => (b, captures.map (Capture.mk · c) ++ inner)) := by
  constructor
  · intro b all
    simp only [List.mem_map, Prod.exists, Prod.mk.injEq]
    constructor
    · rintro ⟨b, inner, mem, rfl, rfl⟩
      obtain ⟨i, p, own, there, bound, rfl⟩ := (h.mem_iff b inner).1 mem
      rw [Nat.zero_add]
      exact .oneOf there bound
    · intro bound
      cases bound with
      | @oneOf _ _ _ i p own inner there bound =>
        have choice : Binding.oneOf i own = .oneOf (0 + i) own := by rw [Nat.zero_add]
        have mem := (h.mem_iff _ inner).2 ⟨i, p, own, there, bound, choice⟩
        exact ⟨_, inner, mem, rfl, rfl⟩
  · exact List.pairwise_map.2 h.sorted

/-- The bindings of the first alternative stand before those of the others. -/
theorem EnumeratesAny.cons {p : Pattern} {rest : List Pattern} {k : Nat} {c : Cursor}
    {own found : List (Binding × List Capture)} (hown : Enumerates p c own)
    (hfound : EnumeratesAny rest (k + 1) c found) :
    EnumeratesAny (p :: rest) k c
      ((own.map fun (b, captures) => (.oneOf k b, captures)) ++ found) := by
  constructor
  · intro b captures
    simp only [List.mem_append, List.mem_map, Prod.exists, Prod.mk.injEq, hfound.mem_iff]
    constructor
    · rintro (⟨inner, inside, mem, rfl, rfl⟩ | ⟨i, p, inner, there, bound, rfl⟩)
      · exact ⟨0, p, inner, rfl, (hown.mem_iff inner inside).1 mem, rfl⟩
      · exact ⟨i + 1, p, inner, there, bound, by rw [Nat.add_assoc, Nat.add_comm 1]⟩
    · rintro ⟨i, p', inner, there, bound, rfl⟩
      cases i with
      | zero =>
        obtain rfl : p = p' := by simpa using there
        exact .inl ⟨inner, captures, (hown.mem_iff inner captures).2 bound, rfl, rfl⟩
      | succ i =>
        exact .inr ⟨i, p', inner, there, bound, by rw [Nat.add_assoc, Nat.add_comm 1]⟩
  · refine List.pairwise_append.2 ⟨?_, hfound.sorted, ?_⟩
    · exact List.pairwise_map.2 (hown.sorted.imp .inner)
    · rintro x first ⟨b, captures⟩ second
      obtain ⟨⟨inner, _⟩, _, rfl⟩ := List.mem_map.1 first
      obtain ⟨i, _, _, _, _, rfl⟩ := (hfound.mem_iff b captures).1 second
      exact .alternative (by omega)

mutual

/-- The search at a node finds the bindings of a pattern. -/
theorem bindings_found (p : Pattern) (c : Cursor) :
    ∃ found, Enumerates p c found ∧ bindings p c = found.map Prod.snd := by
  match p with
  | .node m children captures =>
    by_cases accepted : m.accepts c.node
    · obtain ⟨found, h, found_eq⟩ := bindingsAmong_found children [] c.children
      refine ⟨_, enumerates_node captures accepted h, ?_⟩
      rw [bindings, if_pos accepted, found_eq, List.map_map, List.map_map]
      rfl
    · refine ⟨[], ⟨fun b inner => ⟨fun h => absurd h List.not_mem_nil, ?_⟩, .nil⟩, ?_⟩
      · intro bound
        cases bound with
        | node accepted' => exact absurd accepted' accepted
      · rw [bindings, if_neg accepted, List.map_nil]
  | .oneOf alternatives captures =>
    obtain ⟨found, h, found_eq⟩ := bindingsOfAny_found alternatives 0 c
    refine ⟨_, enumerates_oneOf captures h, ?_⟩
    rw [bindings, found_eq, List.map_map, List.map_map]
    rfl

theorem bindingsOfAny_found (alternatives : List Pattern) (k : Nat) (c : Cursor) :
    ∃ found, EnumeratesAny alternatives k c found ∧
      bindingsOfAny alternatives c = found.map Prod.snd := by
  match alternatives with
  | [] => exact ⟨[], ⟨by simp, .nil⟩, rfl⟩
  | p :: rest =>
    obtain ⟨own, hown, own_eq⟩ := bindings_found p c
    obtain ⟨found, hfound, found_eq⟩ := bindingsOfAny_found rest (k + 1) c
    refine ⟨_, EnumeratesAny.cons hown hfound, ?_⟩
    rw [bindingsOfAny, own_eq, found_eq, List.map_append, List.map_map]
    rfl

theorem bindingsAmong_found (patterns : List (Option String × Pattern))
    (front behind : List Cursor) :
    ∃ found, EnumeratesAmong patterns front behind found ∧
      bindingsAmong patterns behind = found.map Prod.snd := by
  match patterns with
  | [] => exact ⟨_, enumeratesAmong_noPatterns front behind, rfl⟩
  | (field, p) :: rest =>
    exact bindingsAmong_found_cons (bindings_found p) (bindingsAmong_found rest) field front behind

end

/-- What a capture is compared by. -/
def Capture.key (a : Capture) : Nat × Nat := (a.index, a.cursor.id)

theorem sameCaptures_iff {as bs : List Capture} :
    sameCaptures as bs ↔ as.map Capture.key = bs.map Capture.key := by
  induction as generalizing bs with
  | nil => cases bs <;> simp [sameCaptures]
  | cons a as ih =>
    cases bs with
    | nil => simp [sameCaptures]
    | cons b bs => simp [sameCaptures, Capture.same, Capture.key, ih]

theorem cons_dropRepeats (a : List Capture) (rest : List (List Capture)) :
    a :: dropRepeats (some a) rest =
      rest.destutter' (fun a b => a.map Capture.key ≠ b.map Capture.key) a := by
  induction rest generalizing a with
  | nil => rfl
  | cons b rest ih =>
    rw [dropRepeats, Option.any_some, List.destutter'_cons]
    by_cases same : a.map Capture.key = b.map Capture.key
    · rw [if_pos (sameCaptures_iff.2 same), if_neg (not_not_intro same), ih]
    · rw [if_neg (mt sameCaptures_iff.1 same), if_pos same, ih]

theorem dropRepeats_none (found : List (List Capture)) :
    dropRepeats none found =
      found.destutter fun a b => a.map Capture.key ≠ b.map Capture.key := by
  cases found with
  | nil => rfl
  | cons a rest =>
    rw [dropRepeats, Option.any_none, if_neg Bool.false_ne_true, cons_dropRepeats]
    rfl

/-- Every node comes before those below it, and the nodes of a tree differ by their numbers. There
is one list of the bindings of a pattern at a node from left to right. A query has a match for each
of them, except that captures which repeat those just before are left out: at every node in
preorder, and there for every pattern in the order of the source. -/
theorem run_enumerates :
    (∀ c : Cursor, c.preorder = c :: c.children.flatMap Cursor.preorder) ∧
      (∀ language source draft,
        Set.InjOn Cursor.id {c | c ∈ (Cursor.root (.ofDraft language source draft)).preorder}) ∧
      ∃! found : Pattern → Cursor → List (Binding × List Capture),
        (∀ p c, Enumerates p c (found p c)) ∧
          ∀ (q : Query) (root : Cursor), run q root = root.preorder.flatMap fun c =>
            q.patterns.zipIdx.flatMap fun (p, i) =>
              (((found p c).map Prod.snd).destutter fun a b =>
                a.map Capture.key ≠ b.map Capture.key).map (Match.mk i) := by
  refine ⟨Cursor.preorder_eq, Cursor.id_injOn, ?_⟩
  choose found enumerates bindings_eq using bindings_found
  refine ⟨found, ⟨enumerates, fun q root => ?_⟩, fun found' h => ?_⟩
  · rw [run]
    congr 1
    funext c
    simp only [matchesAt, dropRepeats_none, bindings_eq]
  · funext p c
    exact (h.1 p c).unique (enumerates p c)

end Query

end RouteScript
