import RouteScript.Proofs.Braces.Items
import RouteScript.Proofs.Nesting.Spans
import RouteScript.Proofs.Query.Match
import RouteScript.Diagnostic.Rules
/-!
# Blocks nest

The depth of blocks at the end of a list of braces says whether they are properly nested. The braces
of a neat draft lead back to the depth they start from, so the braces of a script nest if its tree
has no error node.

Without markup, syntax errors are the error nodes of a tree, and among these is one that is not
empty. So braces that do not nest never go without a report.
-/
namespace RouteScript

inductive Brace where
  | opening
  | closing
  deriving DecidableEq, Repr

namespace Brace

/-- How many blocks are open behind some braces, if none closes a block that is not open. -/
def depth : Nat → List Brace → Option Nat
  | k, [] => some k
  | k, opening :: rest => depth (k + 1) rest
  | 0, closing :: _ => none
  | k + 1, closing :: rest => depth k rest

/-- Every brace that opens a block goes with one that closes it, and the other way round. -/
def Nested (braces : List Brace) : Prop := depth 0 braces = some 0

instance (braces : List Brace) : Decidable (Nested braces) :=
  inferInstanceAs (Decidable (depth 0 braces = some 0))

/-- Braces that do not change the depth, wherever they stand. -/
def Neutral (braces : List Brace) : Prop := ∀ k, depth k braces = some k

theorem depth_append (k : Nat) (front behind : List Brace) :
    depth k (front ++ behind) = (depth k front).bind (depth · behind) := by
  induction front generalizing k with
  | nil => rfl
  | cons brace rest ih =>
    cases brace with
    | opening => exact ih (k + 1)
    | closing =>
      cases k with
      | zero => rfl
      | succ k => exact ih k

theorem neutral_nil : Neutral [] := fun _ => rfl

/-- A block whose braces are all that is left. -/
theorem neutral_pair : Neutral [opening, closing] := fun _ => rfl

/-- Parts that do not change the depth may be left out. -/
theorem depth_flatMap_filter {α : Type} (f : α → List Brace) (p : α → Bool) {parts : List α}
    (h : ∀ a ∈ parts, p a = false → Neutral (f a)) (k : Nat) :
    depth k (parts.flatMap f) = depth k ((parts.filter p).flatMap f) := by
  induction parts generalizing k with
  | nil => rfl
  | cons a rest ih =>
    have others := ih fun b hb => h b (by simp [hb])
    rw [List.flatMap_cons, depth_append, List.filter_cons]
    by_cases kept : p a
    · rw [if_pos kept, List.flatMap_cons, depth_append]
      exact congrArg ((depth k (f a)).bind ·) (funext others)
    · rw [if_neg kept, h a (by simp) (by simpa using kept) k]
      exact others k

end Brace

/-- Which brace a leaf consists of, if it does. -/
def Tag.brace? (source : List Char) (t : Tag) : Option Brace :=
  let text := Text.slice source t.start t.stop
  if text = ['{'] then some .opening else if text = ['}'] then some .closing else none

namespace Tag.Spelt

variable {source : List Char} {t : Tag} (h : t.Spelt source)
include h

theorem brace?_opening (kind : t.kind = Kind.blockStart) : t.brace? source = some .opening := by
  simp [brace?, h.opening.2 kind]

theorem brace?_closing (kind : t.kind = Kind.blockEnd) : t.brace? source = some .closing := by
  simp [brace?, h.closing.2 kind]

theorem brace?_none (plain : t.isBrace = false) : t.brace? source = none := by
  simp only [isBrace, Bool.or_eq_false_iff, beq_eq_false_iff_ne] at plain
  simp [brace?, mt h.opening.1 plain.1, mt h.closing.1 plain.2]

end Tag.Spelt

theorem Tag.isSealed_of_kind {t : Tag} {kind : String} (known : t.kind = kind)
    (plain : kind ∉ [Kind.pseudoVariable, Kind.pvarExpression, Kind.xml]) :
    t.isSealed = false := by
  subst known
  simpa [isSealed, and_assoc] using plain

namespace Draft

variable {source : List Char} {t : Tag} {children : List Draft}

/-- The braces among the leaves outside variables and markup. -/
def braces (source : List Char) (d : Draft) : List Brace :=
  d.plainLeaves.filterMap (Tag.brace? source)

theorem braces_node (plain : t.isSealed = false) (some_child : children ≠ []) :
    braces source (.node t children) = children.flatMap (braces source) := by
  have nonempty : children.isEmpty = false := by simpa using some_child
  rw [braces, plainLeaves_node, plain, nonempty, if_neg Bool.false_ne_true,
    if_neg Bool.false_ne_true, List.filterMap_flatMap]
  rfl

theorem neat_node (h : Neat source (.node t children)) (plain : t.isSealed = false) :
    Arranged (.node t children) ∧ ∀ c ∈ children, c.Neat source := by
  obtain ⟨arranged, below⟩ := Rose.forall_nodes_node.1 h.arranged
  refine ⟨arranged, fun c hc => ⟨below c hc, fun l hl => h.spelt l ?_⟩⟩
  have nonempty : children.isEmpty = false := by simpa using List.ne_nil_of_mem hc
  rw [plainLeaves_node, plain, nonempty, if_neg Bool.false_ne_true, if_neg Bool.false_ne_true]
  exact List.mem_flatMap.2 ⟨c, hc, hl⟩

/-- The braces of blocks among the children of a node: none, or those around its structure. -/
theorem Arranged.fence {d : Draft} (h : d.Arranged) :
    (d.children.filter fun c => c.label.isBrace) = [] ∨
      ∃ first last, (d.children.filter fun c => c.label.isBrace) = [first, last] ∧
        IsLeafOfKind Kind.blockStart first ∧ IsLeafOfKind Kind.blockEnd last := by
  by_cases block : d.label.kind = Kind.compoundStatement
  · right
    obtain ⟨first, items, last, structural, opening, closing, inner⟩ := h.block block
    have braces : (d.children.filter fun c => c.label.isBrace)
        = (d.children.filter fun c => !c.label.extra).filter fun c => c.label.isBrace := by
      rw [List.filter_filter]
      refine List.filter_congr fun c hc => ?_
      cases brace : c.label.isBrace with
      | false => rfl
      | true => simp [(h.other c hc brace).2]
    have none_inside : (items.filter fun c => c.label.isBrace) = [] :=
      List.filter_eq_nil_iff.2 fun c hc => by simp [inner c hc]
    have starts : first.label.isBrace := by simp [Tag.isBrace, opening.1]
    have ends : last.label.isBrace := by simp [Tag.isBrace, closing.1]
    refine ⟨first, last, ?_, opening, closing⟩
    rw [braces, structural, List.filter_cons, if_pos starts, List.filter_append, none_inside]
    simp [ends]
  · left
    exact List.filter_eq_nil_iff.2 fun c hc brace => block (h.other c hc brace).1

theorem Neat.leaf {d : Draft} (h : d.Neat source) (childless : d.children = [])
    (opened : d.label.isSealed = false) :
    d.label.Spelt source ∧ d.braces source = (d.label.brace? source).toList := by
  obtain ⟨t, children⟩ := d
  obtain rfl : children = [] := childless
  rw [Rose.label] at opened
  have leaves : plainLeaves (.node t []) = [t] := by
    rw [plainLeaves_node, if_neg (Bool.eq_false_iff.1 opened)]
    rfl
  refine ⟨h.spelt t (by simp [leaves]), ?_⟩
  rw [braces, leaves]
  cases brace : t.brace? source <;> simp [Rose.label, brace]

/-- The braces of a neat draft nest, unless it is a brace itself. -/
theorem Neat.neutral {d : Draft} (h : d.Neat source) (plain : d.label.isBrace = false) :
    Brace.Neutral (d.braces source) := by
  induction d using Rose.induction with
  | node t children ih =>
    by_cases hidden : t.isSealed
    · rw [braces, plainLeaves_node, if_pos hidden]
      exact Brace.neutral_nil
    have opened : t.isSealed = false := by simpa using hidden
    by_cases childless : children = []
    · obtain ⟨spelt, leaf⟩ := h.leaf childless opened
      rw [leaf, spelt.brace?_none plain]
      exact Brace.neutral_nil
    obtain ⟨arranged, neat⟩ := neat_node h opened
    intro k
    -- Children that are no braces are neutral, so the braces of the block itself decide.
    rw [braces_node opened childless,
      Brace.depth_flatMap_filter _ (fun c : Draft => c.label.isBrace)
        fun c hc noBrace => ih c hc (neat c hc) noBrace]
    obtain no_brace | ⟨first, last, fence, opening, closing⟩ := arranged.fence
    · rw [Rose.children] at no_brace
      rw [no_brace]
      rfl
    · rw [Rose.children] at fence
      have inside (c : Draft) (hc : c ∈ [first, last]) : c.Neat source := by
        rw [← fence] at hc
        exact neat c (List.mem_filter.1 hc).1
      obtain ⟨spelt, starts⟩ := (inside first (by simp)).leaf opening.2
        (Tag.isSealed_of_kind opening.1 (by decide))
      obtain ⟨spelt', ends⟩ := (inside last (by simp)).leaf closing.2
        (Tag.isSealed_of_kind closing.1 (by decide))
      rw [fence, List.flatMap_cons, List.flatMap_singleton, starts, ends,
        spelt.brace?_opening opening.1, spelt'.brace?_closing closing.1]
      exact Brace.neutral_pair k

end Draft

open Draft Script

namespace Tree

/-- The leaves below the root that are outside variables and markup, in preorder. -/
def plainLeaves (t : Tree) : List Tag := t.root.thaw.children.flatMap Draft.plainLeaves

/-- The braces among these leaves. -/
def braces (t : Tree) : List Brace := t.plainLeaves.filterMap (Tag.brace? t.source)

theorem children_thaw_root (text : List Char) :
    (ofScript text).root.thaw.children = (items (.ofText text)).1 := by
  rw [thaw_ofScript]
  rfl

/-- The braces of a script nest if its items hold no error nodes. -/
theorem nested_of_items {text : List Char}
    (h : ∀ d ∈ (items (.ofText text)).1, ¬ d.Faulty) : Brace.Nested (ofScript text).braces := by
  have neutral (d : Draft) (hd : d ∈ (items (.ofText text)).1) :
      Brace.Neutral (d.braces text) := by
    obtain ⟨neat, plain⟩ := (items_checks text d hd).resolve_left (h d hd)
    exact neat.neutral plain
  have all : (ofScript text).braces = (items (.ofText text)).1.flatMap (Draft.braces text) := by
    rw [braces, plainLeaves, children_thaw_root, List.filterMap_flatMap]
    rfl
  have none_left := Brace.depth_flatMap_filter (Draft.braces text) (fun _ => false)
    (fun d hd _ => neutral d hd) 0
  rw [Brace.Nested, all, none_left, List.filter_false]
  rfl

section Sound

variable {text : List Char} (h : (ofScript text).hasError = false)
include h

theorem not_faulty_of_hasError : ∀ d ∈ (items (.ofText text)).1, ¬ d.Faulty := by
  rintro d hd ⟨n, hn, error, _⟩
  have noError := isError_of_hasError h n (mem_nodes_of_item hd hn)
  exact Bool.false_ne_true (noError.symm.trans error)

theorem neat_of_hasError : ∀ d ∈ (items (.ofText text)).1, d.Neat text := fun d hd =>
  ((items_checks text d hd).resolve_left (not_faulty_of_hasError h d hd)).1

theorem spelt_of_hasError : ∀ l ∈ (ofScript text).plainLeaves, l.Spelt text := by
  rw [plainLeaves, children_thaw_root]
  intro l hl
  obtain ⟨d, hd, hl⟩ := List.mem_flatMap.1 hl
  exact (neat_of_hasError h d hd).spelt l hl

theorem fenced_of_hasError :
    ∀ n ∈ (ofScript text).nodes, n.label.kind = Kind.compoundStatement → n.Fenced := by
  rw [nodes, thaw_ofScript]
  refine Rose.forall_nodes_node.2 ⟨fun block => ?_, fun d hd n hn block => ?_⟩
  · have noBlock : Kind.sourceFile ≠ Kind.compoundStatement := by decide
    exact absurd block noBlock
  · exact ((neat_of_hasError h d hd).arranged n hn).block block

end Sound

end Tree

namespace Draft

/-- A tight error node in which no other is ends in no comment. -/
theorem Tight.ended {t : Tag} {children : List Draft} (h : Tight (.node t children))
    (error : t.isError) (innermost : ∀ c ∈ children, ¬ Faulty c) : Ended (.node t children) := by
  obtain ⟨framed, below⟩ := tight_node.1 h
  refine ⟨h, Rose.forall_nodes_node.2 ⟨fun c hc => ?_, fun d hd n hn c hc => ?_⟩⟩
  · have kind : t.kind = errorKind := by
      simp only [Tag.isError, Bool.and_eq_true, beq_iff_eq] at error
      exact error.2
    refine Bool.eq_false_iff.2 fun extra => ?_
    have unclosed := (framed.last c hc).2 extra
    simp [isUnclosed, Rose.label, kind, errorKind, Kind.compoundStatement] at unclosed
  · refine Bool.eq_false_iff.2 fun extra => innermost d hd ?_
    have framed := below d hd n hn
    have unclosed := (framed.last c hc).2 extra
    rw [isUnclosed, Bool.and_eq_true, Option.any_eq_true] at unclosed
    obtain ⟨_, brace, head, malformed⟩ := unclosed
    exact ⟨brace, Rose.mem_nodes_of_child hn (List.mem_of_head? head), malformed,
      (framed.first brace head).1⟩

/-- Where there is an error node, there is one that is not empty. -/
theorem Faulty.exists_long {d : Draft} (h : d.Faulty) (tight : d.Tight)
    (spread : Spread d.solidLeaves) : ∃ n ∈ d.nodes, isError n ∧ start n < stop n := by
  induction d using Rose.induction with
  | node t children ih =>
    by_cases inner : ∃ c ∈ children, Faulty c
    · obtain ⟨c, hc, faulty⟩ := inner
      have sub : (solidLeaves c).Sublist (solidLeaves (.node t children)) := by
        rw [solidLeaves_node t (List.ne_nil_of_mem hc)]
        exact List.sublist_flatten_of_mem (List.mem_map_of_mem hc)
      obtain ⟨n, hn, long⟩ := ih c hc faulty ((tight_node.1 tight).2 c hc) (spread.sublist sub)
      refine ⟨n, ?_, long⟩
      rw [Rose.nodes_node]
      exact List.mem_cons_of_mem _ (List.mem_flatMap.2 ⟨c, hc, hn⟩)
    · obtain ⟨error, notExtra⟩ := (faulty_node.1 h).resolve_right inner
      have innermost (c : Draft) (hc : c ∈ children) (faulty : Faulty c) : False :=
        inner ⟨c, hc, faulty⟩
      exact ⟨_, Rose.mem_nodes_self _, error,
        ((tight.ended error innermost).hull notExtra).long spread⟩

end Draft

end RouteScript

namespace RouteScript

/-- The cursors below a node are at the nodes below it. -/
theorem Cursor.map_node_preorder (c : Cursor) : c.preorder.map Cursor.node = c.node.nodes := by
  obtain ⟨n, above⟩ := c
  induction n using Rose.induction generalizing above with
  | node e children ih =>
    have below : (Cursor.children ⟨.node e children, above⟩).flatMap
        (fun c => c.preorder.map Cursor.node) = children.flatMap Rose.nodes := by
      conv_rhs => rw [← List.zipIdx_map_fst 0 children]
      rw [Cursor.children, List.flatMap_map, List.flatMap_map]
      refine congrArg List.flatten (List.map_congr_left fun e he => ?_)
      exact ih e.1 (List.fst_mem_of_mem_zipIdx he) _
    rw [preorder_eq, List.map_cons, List.map_flatMap, below, Rose.nodes_node]

namespace Diagnostic

open Query

/-- A named node of a kind. -/
def isOfKind (kind : String) (c : Cursor) : Bool := c.node.isNamed && c.node.kind == kind

theorem bindings_ofKind (kind : String) (index : Nat) (c : Cursor) :
    bindings (ofKind kind [] [index]) c = if isOfKind kind c then [[⟨index, c⟩]] else [] := by
  simp [ofKind, bindings, bindingsAmong, Matcher.accepts, isOfKind]

/-- A query for two kinds finds the nodes of each under its own name. -/
theorem nodes_run (first second : String) (names : List String) (root : Cursor) :
    let found := Query.run ⟨[ofKind first [] [0], ofKind second [] [1]], names⟩ root
    found.flatMap (·.nodes 0) = root.preorder.filter (isOfKind first) ∧
      found.flatMap (·.nodes 1) = root.preorder.filter (isOfKind second) := by
  have here (c : Cursor) :
      let found := matchesAt ⟨[ofKind first [] [0], ofKind second [] [1]], names⟩ c
      found.flatMap (·.nodes 0) = [c].filter (isOfKind first) ∧
        found.flatMap (·.nodes 1) = [c].filter (isOfKind second) := by
    simp only [matchesAt, List.zipIdx_cons, List.zipIdx_nil, List.flatMap_cons, List.flatMap_nil,
      bindings_ofKind, List.filter_singleton]
    cases isOfKind first c <;> cases isOfKind second c <;> simp [dropRepeats, Match.nodes]
  dsimp only [Query.run]
  induction root.preorder with
  | nil => exact ⟨rfl, rfl⟩
  | cons c rest ih =>
    rw [List.flatMap_cons, List.flatMap_append, List.flatMap_append, (here c).1, (here c).2, ih.1,
      ih.2, ← List.filter_append, ← List.filter_append]
    exact ⟨rfl, rfl⟩

/-- Without markup, the syntax errors of a tree are its error nodes. -/
theorem findings_syntaxErrors {t : Tree}
    (plain : ∀ n : Node, n ∈ t.root.nodes → n.kind ≠ Kind.xml) :
    syntaxErrors.findings t =
      (t.root.nodes.filter Node.isError).map fun n => ⟨n.range, .error, "Syntax error"⟩ := by
  obtain ⟨errors, markup⟩ := nodes_run Kind.error Kind.xml ["error", "xml"] (Cursor.root t)
  have nodes : (Cursor.root t).preorder.map Cursor.node = t.root.nodes :=
    Cursor.map_node_preorder _
  have none_inside : (Cursor.root t).preorder.filter (isOfKind Kind.xml) = [] := by
    refine List.filter_eq_nil_iff.2 fun c hc ofKind => ?_
    have here : c.node ∈ t.root.nodes := nodes ▸ List.mem_map_of_mem hc
    simp only [isOfKind, Bool.and_eq_true, beq_iff_eq] at ofKind
    exact plain c.node here ofKind.2
  have ranges : ((Cursor.root t).preorder.filter (isOfKind Kind.error)).map Cursor.range
      = (t.root.nodes.filter Node.isError).map Node.range := by
    rw [← nodes, List.filter_map, List.map_map]
    rfl
  simp only [Rule.findings, syntaxErrors]
  rw [errors, markup, none_inside, ranges]
  simp [Function.comp_def]

end Diagnostic

open Draft Script Diagnostic

namespace Tree

/-- Braces that do not nest are reported. -/
structure Braced (t : Tree) : Prop where
  /-- Without error nodes, leaves that consist of a brace open or close a block. -/
  spelt : t.hasError = false → ∀ l ∈ t.plainLeaves, l.Spelt t.source
  /-- Without error nodes, blocks start and end with their only braces. -/
  fenced : t.hasError = false →
    ∀ n ∈ t.nodes, n.label.kind = Kind.compoundStatement → n.Fenced
  error : ¬ Brace.Nested t.braces → t.hasError
  reported : ¬ Brace.Nested t.braces → (∀ n ∈ t.nodes, n.label.kind ≠ Kind.xml) →
    ∀ flags : Flags, flags.syntaxErrors → ∃ d ∈ analyze rules flags t, d.severity = .error ∧
      d.range.start < d.range.stop ∧ d.range.startPoint.lt d.range.stopPoint

/-- An error node of a tree is reported if it is asked for and there is no markup. -/
theorem mem_analyze_of_isError {t : Tree} (plain : ∀ n ∈ t.nodes, n.label.kind ≠ Kind.xml)
    {flags : Flags} (asked : flags.syntaxErrors) {n : Node} (hn : n ∈ t.root.nodes)
    (error : n.isError) : ⟨n.range, .error, "Syntax error"⟩ ∈ analyze rules flags t := by
  have noMarkup (n : Node) (hn : n ∈ t.root.nodes) : n.kind ≠ Kind.xml := by
    have here := plain (Node.thaw n) (nodes_thaw t ▸ List.mem_map_of_mem hn)
    rwa [Node.label_thaw] at here
  have enabled : syntaxErrors ∈ rules.filter (·.enabled flags) :=
    List.mem_filter.2 ⟨by simp [rules], asked⟩
  refine List.mem_flatMap.2 ⟨syntaxErrors, enabled, ?_⟩
  rw [findings_syntaxErrors noMarkup]
  exact List.mem_map_of_mem (List.mem_filter.2 ⟨hn, error⟩)

/-- In a script with an error node, one of its error nodes is not empty. -/
theorem exists_long_of_faulty {text : List Char} {d : Draft}
    (hd : d ∈ (items (.ofText text)).1) (faulty : d.Faulty) :
    ∃ n : Node, n ∈ (ofScript text).root.nodes ∧ n.isError ∧ n.start < n.stop := by
  have sub : d.solidLeaves.Sublist ((items (.ofText text)).1.flatMap solidLeaves) :=
    List.sublist_flatten_of_mem (List.mem_map_of_mem hd)
  obtain ⟨n, hn, error, long⟩ := faulty.exists_long (items_tight text d hd).1
    ((spread_ofScript text).sublist sub)
  have inside := mem_nodes_of_item hd hn
  rw [nodes_thaw] at inside
  obtain ⟨⟨e, children⟩, here, rfl⟩ := List.mem_map.1 inside
  rw [Node.thaw, Rose.map_node] at error long
  exact ⟨_, here, error, long⟩

/-- The braces of a script nest, or they are reported. -/
theorem ofScript_braced (text : List Char) : (ofScript text).Braced := by
  refine ⟨spelt_of_hasError, fenced_of_hasError, fun unbalanced => ?_,
    fun unbalanced plain flags asked => ?_⟩
  · by_contra sound
    exact unbalanced (nested_of_items (not_faulty_of_hasError (by simpa using sound)))
  · have fault : ∃ d ∈ (items (.ofText text)).1, d.Faulty := by
      by_contra sound
      exact unbalanced (nested_of_items fun d hd faulty => sound ⟨d, hd, faulty⟩)
    obtain ⟨d, hd, faulty⟩ := fault
    obtain ⟨n, hn, error, long⟩ := exists_long_of_faulty hd faulty
    obtain ⟨start, stop⟩ := placed_ofScript text n hn
    refine ⟨_, mem_analyze_of_isError plain asked hn error, rfl, long, ?_⟩
    rw [Node.range, start, stop]
    exact (pointAt_lt_iff _).2 long

/-- A block that does not close. -/
theorem ofScript_braced_open :
    ¬ Brace.Nested (ofScript "request_route \x7b drop;".toList).braces ∧
      ∃ d ∈ analyze rules ⟨false, true⟩ (ofScript "request_route \x7b drop;".toList),
        d.severity = .error ∧ d.range.start < d.range.stop := by
  have unbalanced : ¬ Brace.Nested (ofScript "request_route \x7b drop;".toList).braces := by
    decide +kernel
  have plain : ∀ n ∈ (ofScript "request_route \x7b drop;".toList).nodes,
      n.label.kind ≠ Kind.xml := by decide +kernel
  obtain ⟨d, found, error, long, _⟩ :=
    (ofScript_braced _).reported unbalanced plain ⟨false, true⟩ rfl
  exact ⟨unbalanced, d, found, error, long⟩

example : (ofScript "request_route { drop; }".toList).hasError = false ∧
    (ofScript "request_route { drop; }".toList).braces = [.opening, .closing] := by
  decide +kernel

end Tree

end RouteScript
