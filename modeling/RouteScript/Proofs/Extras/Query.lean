import RouteScript.Proofs.Extras.Cursor
import RouteScript.Script.Vocabulary
/-!
# Queries without extra nodes

A query that asks for no comments and no directives has the same matches in a tree and in the tree
without its extra nodes, each at the places of its nodes there.
-/
namespace RouteScript

/-- The kinds of nodes that may stand anywhere. -/
def extraKinds : List String := [Kind.comment, Kind.deprecatedComment, Kind.directive]

namespace Query

namespace Pattern

mutual

/-- Whether a pattern asks for nodes of given kinds, and for no comments and directives. -/
def asksNoExtra : Pattern → Bool
  | node (.named kind) children _ => !extraKinds.contains kind && askNoExtra children
  | node _ _ _ => false
  | oneOf alternatives _ => allAskNoExtra alternatives

def askNoExtra : List (Option String × Pattern) → Bool
  | [] => true
  | (_, p) :: rest => asksNoExtra p && askNoExtra rest

def allAskNoExtra : List Pattern → Bool
  | [] => true
  | p :: rest => asksNoExtra p && allAskNoExtra rest

end

end Pattern

open Cursor (notExtra)

variable {number : Nat → Nat}

def Capture.stripped (number : Nat → Nat) (a : Capture) : Capture :=
  ⟨a.index, a.cursor.stripped number⟩

def Match.stripped (number : Nat → Nat) (m : Match) : Match :=
  ⟨m.pattern, m.captures.map (Capture.stripped number)⟩

/-- Extra nodes below a cursor, or at it, are comments and directives. -/
def Commented (c : Cursor) : Prop := ∀ d ∈ c.preorder, d.notExtra = false → d.kind ∈ extraKinds

theorem Commented.child {c d : Cursor} (h : Commented c) (hd : d ∈ c.children) : Commented d := by
  intro e he
  refine h e ?_
  rw [Cursor.preorder_eq]
  exact List.mem_cons_of_mem _ (List.mem_flatMap.2 ⟨d, hd, he⟩)

mutual

theorem bindings_extra (p : Pattern) {c : Cursor} (solid : p.asksNoExtra)
    (extra : c.kind ∈ extraKinds) :
    bindings p c = [] := by
  match p with
  | .node (.named kind) children captures =>
    have other : c.node.kind ≠ kind := by
      rintro rfl
      have extra : c.node.kind ∈ extraKinds := extra
      rw [Pattern.asksNoExtra, List.contains_iff_mem.2 extra] at solid
      exact Bool.false_ne_true solid
    simp [bindings, Matcher.accepts, other]
  | .node .anyNamed _ _ => exact absurd solid Bool.false_ne_true
  | .node .any _ _ => exact absurd solid Bool.false_ne_true
  | .node (.token _) _ _ => exact absurd solid Bool.false_ne_true
  | .oneOf alternatives captures =>
    rw [bindings, bindingsOfAny_extra alternatives solid extra, List.map_nil]

theorem bindingsOfAny_extra (alternatives : List Pattern) {c : Cursor}
    (solid : Pattern.allAskNoExtra alternatives) (extra : c.kind ∈ extraKinds) :
    bindingsOfAny alternatives c = [] := by
  match alternatives with
  | [] => rfl
  | p :: rest =>
    rw [Pattern.allAskNoExtra, Bool.and_eq_true] at solid
    rw [bindingsOfAny, bindings_extra p solid.1 extra, bindingsOfAny_extra rest solid.2 extra]
    rfl

end

theorem map_append_stripped (own : List Capture) (found : List (List Capture)) :
    (found.map (List.map (Capture.stripped number))).map (own.map (Capture.stripped number) ++ ·) =
      (found.map (own ++ ·)).map (List.map (Capture.stripped number)) := by
  simp only [List.map_map]
  exact List.map_congr_left fun inner _ => List.map_append.symm

theorem fits_stripped (field : Option String) (p : Pattern) (c : Cursor) :
    fits field p (c.stripped number) = fits field p c := by
  have named : (c.stripped number).isNamed = c.isNamed := congrArg Tag.named c.node.tag_stripped
  rw [fits, fits, Cursor.field?_stripped, named]

/-- A child that is left out has no part in any binding. -/
theorem bindingsAmong_stripped_cons {p : Pattern} {rest : List (Option String × Pattern)}
    (solid : p.asksNoExtra)
    (hp : ∀ c, c.notExtra → Commented c →
      bindings p (c.stripped number) = (bindings p c).map (List.map (Capture.stripped number)))
    (hrest : ∀ nodes : List Cursor, (∀ c ∈ nodes, Commented c) →
      bindingsAmong rest ((nodes.filter notExtra).map (Cursor.stripped number)) =
        (bindingsAmong rest nodes).map (List.map (Capture.stripped number)))
    (field : Option String) (nodes : List Cursor) (commented : ∀ c ∈ nodes, Commented c) :
    bindingsAmong ((field, p) :: rest) ((nodes.filter notExtra).map (Cursor.stripped number)) =
      (bindingsAmong ((field, p) :: rest) nodes).map (List.map (Capture.stripped number)) := by
  induction nodes with
  | nil => rfl
  | cons c nodes ih =>
    obtain ⟨here, later⟩ := List.forall_mem_cons.1 commented
    have tail := ih later
    rw [bindingsAmong_cons, List.map_append, ← tail, List.filter_cons]
    cases kept : c.notExtra with
    | true =>
      rw [if_pos rfl, List.map_cons, bindingsAmong_cons, fits_stripped, hp c kept here,
        hrest nodes later]
      congr 1
      split
      · rw [List.flatMap_map, List.map_flatMap]
        exact congrArg List.flatten (List.map_congr_left fun first _ => map_append_stripped first _)
      · rfl
    | false =>
      have nothing := bindings_extra p solid (here c c.mem_preorder_self kept)
      simp [nothing]

mutual

/-- A pattern binds at the place of a node as it binds at the node. -/
theorem bindings_stripped (p : Pattern) (solid : p.asksNoExtra) (c : Cursor) (kept : c.notExtra)
    (commented : Commented c) :
    bindings p (c.stripped number) = (bindings p c).map (List.map (Capture.stripped number)) := by
  have own (captures : List Nat) : captures.map (Capture.mk · (c.stripped number)) =
      (captures.map (Capture.mk · c)).map (Capture.stripped number) := by
    rw [List.map_map]
    rfl
  match p with
  | .node (.named kind) children captures =>
    rw [Pattern.asksNoExtra, Bool.and_eq_true] at solid
    have accepted : (Matcher.named kind).accepts (c.stripped number).node =
        (Matcher.named kind).accepts c.node :=
      congrArg (fun t : Tag => t.named && t.kind == kind) c.node.tag_stripped
    have below := bindingsAmong_stripped children solid.2 c.children fun d hd => commented.child hd
    rw [bindings, bindings, accepted, Cursor.children_stripped, below, own]
    split
    · exact map_append_stripped _ _
    · rfl
  | .node .anyNamed _ _ => exact absurd solid Bool.false_ne_true
  | .node .any _ _ => exact absurd solid Bool.false_ne_true
  | .node (.token _) _ _ => exact absurd solid Bool.false_ne_true
  | .oneOf alternatives captures =>
    rw [bindings, bindings, bindingsOfAny_stripped alternatives solid c kept commented, own]
    exact map_append_stripped _ _

theorem bindingsOfAny_stripped (alternatives : List Pattern)
    (solid : Pattern.allAskNoExtra alternatives)
    (c : Cursor) (kept : c.notExtra) (commented : Commented c) :
    bindingsOfAny alternatives (c.stripped number) =
      (bindingsOfAny alternatives c).map (List.map (Capture.stripped number)) := by
  match alternatives with
  | [] => rfl
  | p :: rest =>
    rw [Pattern.allAskNoExtra, Bool.and_eq_true] at solid
    rw [bindingsOfAny, bindingsOfAny, bindings_stripped p solid.1 c kept commented,
      bindingsOfAny_stripped rest solid.2 c kept commented, List.map_append]

theorem bindingsAmong_stripped (patterns : List (Option String × Pattern))
    (solid : Pattern.askNoExtra patterns) (nodes : List Cursor)
    (commented : ∀ c ∈ nodes, Commented c) :
    bindingsAmong patterns ((nodes.filter notExtra).map (Cursor.stripped number)) =
      (bindingsAmong patterns nodes).map (List.map (Capture.stripped number)) := by
  match patterns with
  | [] => rfl
  | (field, p) :: rest =>
    rw [Pattern.askNoExtra, Bool.and_eq_true] at solid
    exact bindingsAmong_stripped_cons solid.1 (fun c kept => bindings_stripped p solid.1 c kept)
      (fun nodes => bindingsAmong_stripped rest solid.2 nodes) field nodes commented

end

/-- Captures of nodes at or below a cursor that are not extra. -/
def Inside (c : Cursor) (captures : List Capture) : Prop :=
  ∀ a ∈ captures, a.cursor ∈ c.preorder ∧ a.cursor.notExtra

theorem Inside.own {c : Cursor} (kept : c.notExtra) {inner : List Capture} (h : Inside c inner)
    (captures : List Nat) : Inside c (captures.map (Capture.mk · c) ++ inner) := by
  intro a ha
  rcases List.mem_append.1 ha with ha | ha
  · obtain ⟨i, _, rfl⟩ := List.mem_map.1 ha
    exact ⟨c.mem_preorder_self, kept⟩
  · exact h a ha

theorem bindingsAmong_inside_cons {p : Pattern} {rest : List (Option String × Pattern)}
    (hp : ∀ c captures, Commented c → captures ∈ bindings p c → Inside c captures)
    (hrest : ∀ (nodes : List Cursor) captures, (∀ c ∈ nodes, Commented c) →
      captures ∈ bindingsAmong rest nodes → ∀ a ∈ captures, ∃ c ∈ nodes, Inside c [a])
    (field : Option String) (nodes : List Cursor) (commented : ∀ c ∈ nodes, Commented c)
    {captures : List Capture} (found : captures ∈ bindingsAmong ((field, p) :: rest) nodes) :
    ∀ a ∈ captures, ∃ c ∈ nodes, Inside c [a] := by
  induction nodes with
  | nil => simp [bindingsAmong, picks] at found
  | cons c nodes ih =>
    obtain ⟨here, later⟩ := List.forall_mem_cons.1 commented
    rw [bindingsAmong_cons, List.mem_append] at found
    intro a ha
    rcases found with found | found
    · split at found
      · obtain ⟨first, hfirst, found⟩ := List.mem_flatMap.1 found
        obtain ⟨behind, hbehind, rfl⟩ := List.mem_map.1 found
        rcases List.mem_append.1 ha with ha | ha
        · have inside := hp c first here hfirst a ha
          exact ⟨c, List.mem_cons_self, by simpa [Inside] using inside⟩
        · obtain ⟨d, hd, inside⟩ := hrest nodes behind later hbehind a ha
          exact ⟨d, List.mem_cons_of_mem _ hd, inside⟩
      · exact absurd found List.not_mem_nil
    · obtain ⟨d, hd, inside⟩ := ih later found a ha
      exact ⟨d, List.mem_cons_of_mem _ hd, inside⟩

mutual

theorem bindings_inside (p : Pattern) (solid : p.asksNoExtra) (c : Cursor) (captures : List Capture)
    (commented : Commented c) (found : captures ∈ bindings p c) : Inside c captures := by
  have kept : c.notExtra := by
    by_contra extra
    rw [Bool.not_eq_true] at extra
    rw [bindings_extra p solid (commented c c.mem_preorder_self extra)] at found
    exact absurd found List.not_mem_nil
  match p with
  | .node m children own =>
    have below : Pattern.askNoExtra children := by
      cases m with
      | named kind =>
        rw [Pattern.asksNoExtra, Bool.and_eq_true] at solid
        exact solid.2
      | anyNamed | any | token _ => exact absurd solid Bool.false_ne_true
    rw [bindings] at found
    split at found
    · obtain ⟨inner, hinner, rfl⟩ := List.mem_map.1 found
      refine Inside.own kept (fun a ha => ?_) own
      obtain ⟨d, hd, inside⟩ := bindingsAmong_inside children below c.children inner
        (fun d hd => commented.child hd) hinner a ha
      obtain ⟨there, kept⟩ := inside a (List.mem_singleton.2 rfl)
      refine ⟨?_, kept⟩
      rw [Cursor.preorder_eq]
      exact List.mem_cons_of_mem _ (List.mem_flatMap.2 ⟨d, hd, there⟩)
    · exact absurd found List.not_mem_nil
  | .oneOf alternatives own =>
    rw [bindings] at found
    obtain ⟨inner, hinner, rfl⟩ := List.mem_map.1 found
    exact Inside.own kept (bindingsOfAny_inside alternatives solid c inner commented hinner) own

theorem bindingsOfAny_inside (alternatives : List Pattern)
    (solid : Pattern.allAskNoExtra alternatives) (c : Cursor) (captures : List Capture)
    (commented : Commented c) (found : captures ∈ bindingsOfAny alternatives c) :
    Inside c captures := by
  match alternatives with
  | [] => exact absurd found List.not_mem_nil
  | p :: rest =>
    rw [Pattern.allAskNoExtra, Bool.and_eq_true] at solid
    rcases List.mem_append.1 found with found | found
    · exact bindings_inside p solid.1 c captures commented found
    · exact bindingsOfAny_inside rest solid.2 c captures commented found

theorem bindingsAmong_inside (patterns : List (Option String × Pattern))
    (solid : Pattern.askNoExtra patterns) (nodes : List Cursor) (captures : List Capture)
    (commented : ∀ c ∈ nodes, Commented c) (found : captures ∈ bindingsAmong patterns nodes) :
    ∀ a ∈ captures, ∃ c ∈ nodes, Inside c [a] := by
  match patterns with
  | [] =>
    rw [bindingsAmong, List.mem_singleton] at found
    simp [found]
  | (field, p) :: rest =>
    rw [Pattern.askNoExtra, Bool.and_eq_true] at solid
    exact bindingsAmong_inside_cons (bindings_inside p solid.1)
      (bindingsAmong_inside rest solid.2) field nodes commented found

end

/-- New numbers that keep the nodes below a cursor apart, but for extra ones. -/
def Apart (number : Nat → Nat) (root : Cursor) : Prop :=
  ∀ c ∈ root.preorder, ∀ d ∈ root.preorder, c.notExtra → d.notExtra →
    number c.id = number d.id → c.id = d.id

theorem map_key_stripped_iff {root : Cursor} (apart : Apart number root) {as bs : List Capture}
    (ha : Inside root as) (hb : Inside root bs) :
    (as.map (Capture.stripped number)).map Capture.key =
        (bs.map (Capture.stripped number)).map Capture.key
      ↔ as.map Capture.key = bs.map Capture.key := by
  have key (a : Capture) : (a.stripped number).key = (a.index, number a.cursor.id) := by
    rw [Capture.key, Capture.stripped, Cursor.id_stripped]
  induction as generalizing bs with
  | nil => cases bs <;> simp
  | cons a as ih =>
    cases bs with
    | nil => simp
    | cons b bs =>
      obtain ⟨⟨ina, kepta⟩, ha⟩ := List.forall_mem_cons.1 ha
      obtain ⟨⟨inb, keptb⟩, hb⟩ := List.forall_mem_cons.1 hb
      have first : number a.cursor.id = number b.cursor.id ↔ a.cursor.id = b.cursor.id :=
        ⟨apart _ ina _ inb kepta keptb, congrArg number⟩
      simp only [List.map_cons, List.cons.injEq, ih ha hb, key]
      simp only [Capture.key, Prod.mk.injEq, first]

theorem dropRepeats_stripped {root : Cursor} (apart : Apart number root)
    {found : List (List Capture)} (inside : ∀ captures ∈ found, Inside root captures) :
    dropRepeats none (found.map (List.map (Capture.stripped number))) =
      (dropRepeats none found).map (List.map (Capture.stripped number)) := by
  rw [dropRepeats_none, dropRepeats_none]
  refine (List.map_destutter fun as ha bs hb => ?_).symm
  exact not_congr (map_key_stripped_iff apart (inside as ha) (inside bs hb)).symm

variable {q : Query} {root : Cursor}

theorem Commented.below {c : Cursor} (h : Commented root) (hc : c ∈ root.preorder) :
    Commented c := fun d hd => h d (Cursor.mem_preorder_trans hc hd)

theorem matchesAt_extra (solid : ∀ p ∈ q.patterns, p.asksNoExtra) {c : Cursor}
    (extra : c.kind ∈ extraKinds) : matchesAt q c = [] := by
  refine List.flatMap_eq_nil_iff.2 fun e hp => ?_
  obtain ⟨p, i⟩ := e
  dsimp only
  rw [bindings_extra p (solid p (List.fst_mem_of_mem_zipIdx hp)) extra]
  rfl

theorem matchesAt_stripped (solid : ∀ p ∈ q.patterns, p.asksNoExtra) (commented : Commented root)
    (apart : Apart number root) {c : Cursor} (hc : c ∈ root.preorder) (kept : c.notExtra) :
    matchesAt q (c.stripped number) = (matchesAt q c).map (Match.stripped number) := by
  rw [matchesAt, matchesAt, List.map_flatMap]
  refine congrArg List.flatten (List.map_congr_left fun e hp => ?_)
  obtain ⟨p, i⟩ := e
  have solid := solid p (List.fst_mem_of_mem_zipIdx hp)
  have inside : ∀ captures ∈ bindings p c, Inside root captures := fun captures found a ha =>
    have there := bindings_inside p solid c captures (commented.below hc) found a ha
    ⟨Cursor.mem_preorder_trans hc there.1, there.2⟩
  dsimp only
  rw [bindings_stripped p solid c kept (commented.below hc), dropRepeats_stripped apart inside,
    List.map_map, List.map_map]
  rfl

/-- A query that asks for no extra nodes has its matches at the places of the same nodes. -/
theorem run_stripped (solid : ∀ p ∈ q.patterns, p.asksNoExtra) (kept : root.notExtra)
    (commented : Commented root)
    (leafy : ∀ c ∈ root.preorder, c.notExtra = false → c.children = [])
    (apart : Apart number root) :
    run q (root.stripped number) = (run q root).map (Match.stripped number) := by
  have nothing : ∀ c ∈ root.preorder, c.notExtra = false →
      (matchesAt q c).map (Match.stripped number) = [] := fun c hc extra => by
    rw [matchesAt_extra solid (commented c hc extra), List.map_nil]
  rw [run, run, Cursor.preorder_stripped root kept leafy, List.flatMap_map, List.map_flatMap,
    ← flatMap_filter nothing]
  refine congrArg List.flatten (List.map_congr_left fun c hc => ?_)
  obtain ⟨hc, kept⟩ := List.mem_filter.1 hc
  exact matchesAt_stripped solid commented apart hc kept

/-- The captures of its matches are nodes at or below the root and not extra. -/
theorem run_inside (solid : ∀ p ∈ q.patterns, p.asksNoExtra) (commented : Commented root) :
    ∀ m ∈ run q root, Inside root m.captures := by
  intro m hm
  obtain ⟨c, hc, hm⟩ := List.mem_flatMap.1 hm
  obtain ⟨⟨p, i⟩, hp, hm⟩ := List.mem_flatMap.1 hm
  obtain ⟨captures, found, rfl⟩ := List.mem_map.1 hm
  rw [dropRepeats_none] at found
  intro a ha
  have there := bindings_inside p (solid p (List.fst_mem_of_mem_zipIdx hp)) c captures
    (commented.below hc) ((List.destutter_sublist _ _).subset found) a ha
  exact ⟨Cursor.mem_preorder_trans hc there.1, there.2⟩

end Query

end RouteScript
