import RouteScript.Proofs.Braces.Tree
import RouteScript.Proofs.Formed.Items
import RouteScript.Proofs.Siblings
/-!
# Unreachable code

What the rule reports for a block of statements without labels: one warning for every statement but
the last that ends its control path, from the next statement to the last one.
-/
namespace RouteScript

namespace Diagnostic

open Query (Match bindings bindingsAmong bindingsOfAny matchesAt dropRepeats)

/-- Whether a statement consists of an action that ends its control path. -/
def isTerminal (statement : Cursor) : Bool :=
  significantKinds statement == [Kind.coreFunction]
    || significantKinds statement == [Kind.returnStatement]

/-- What stands behind the statements that end their control paths, up to the last statement. -/
def behindTerminals (statements : List Cursor) : List Range :=
  ((statements.zip statements.tail).filter (isTerminal ·.1)).map fun pair =>
    pair.2.range.through (statements.getLastD pair.2).range

/-- What a rule reports by those of its matches that pass a test. -/
def Rule.findingsOf (r : Rule) (t : Tree) (test : Match → Bool) : List Diagnostic :=
  match r.query with
  | some q => r.diagnose ((q.run (Cursor.root t)).filter test)
  | none => []

/-- What the rule reports for the statements of one block. -/
def unreachableIn (t : Tree) (block : Cursor) : List Diagnostic :=
  unreachableCode.findingsOf t fun m => (m.node? 1).any block.isBelow

/-- An action after which control does not go on. -/
def endsPath (c : Cursor) : Bool := isOfKind Kind.coreFunction c || isOfKind Kind.returnStatement c

/-- Such an action, as a query asks for it. -/
def terminalPattern : Query.Pattern :=
  .oneOf [ofKind Kind.coreFunction [] [], ofKind Kind.returnStatement [] []] [0]

/-- The query of the rule. -/
def terminalStatements : Query :=
  ⟨[.node (.named Kind.statement) [(none, terminalPattern)] [1]], ["terminal", "statement"]⟩

/-- The range that the rule reports for a statement, if it does. -/
def rangesBehind (c : Cursor) : List Range :=
  if isOfKind Kind.statement c && isTerminal c then (unreachableRange? c).toList else []

theorem rangesBehind_of_other {c : Cursor} (other : isOfKind Kind.statement c = false) :
    rangesBehind c = [] := by
  rw [rangesBehind, other, Bool.false_and, if_neg Bool.false_ne_true]

theorem isOfKind_unique {kind kind' : String} {c : Cursor} (different : kind ≠ kind')
    (ofKind : isOfKind kind c) : isOfKind kind' c = false := by
  simp only [isOfKind, Bool.and_eq_true, beq_iff_eq] at ofKind
  simp [isOfKind, ofKind.2, different]

theorem bindings_terminalPattern (c : Cursor) :
    bindings terminalPattern c = if endsPath c then [[⟨0, c⟩]] else [] := by
  have plain (kind : String) :
      bindings (ofKind kind [] []) c = if isOfKind kind c then [[]] else [] := by
    simp [ofKind, bindings, bindingsAmong, Query.Matcher.accepts, isOfKind]
  have one : isOfKind Kind.coreFunction c → isOfKind Kind.returnStatement c = false :=
    isOfKind_unique (by decide)
  simp only [terminalPattern, bindings, bindingsOfAny, plain, endsPath]
  by_cases core : isOfKind Kind.coreFunction c
  · simp [core, one core]
  · by_cases returns : isOfKind Kind.returnStatement c <;> simp [core, returns]

theorem bindingsAmong_terminalPattern (nodes : List Cursor) :
    bindingsAmong [(none, terminalPattern)] nodes =
      (nodes.filter endsPath).map fun c => [⟨0, c⟩] := by
  induction nodes with
  | nil => rfl
  | cons c nodes ih =>
    rw [Query.bindingsAmong_cons, ih, bindings_terminalPattern, List.filter_cons]
    cases ends : endsPath c
    · simp
    · have named : c.isNamed := by
        simp only [endsPath, isOfKind, Bool.or_eq_true, Bool.and_eq_true] at ends
        exact ends.elim And.left And.left
      simp [Query.fits, named, bindingsAmong]

/-- The matches at a statement are at the actions right below it. -/
theorem matchesAt_terminalStatements (c : Cursor) :
    matchesAt terminalStatements c = if isOfKind Kind.statement c then
      (dropRepeats none ((c.children.filter endsPath).map fun d => [⟨1, c⟩, ⟨0, d⟩])).map (.mk 0)
      else [] := by
  have here : bindings (.node (.named Kind.statement) [(none, terminalPattern)] [1]) c =
      if isOfKind Kind.statement c then
        (c.children.filter endsPath).map fun d => [⟨1, c⟩, ⟨0, d⟩] else [] := by
    simp only [bindings, bindingsAmong_terminalPattern, Query.Matcher.accepts, isOfKind,
      List.map_map]
    rfl
  have patterns : terminalStatements.patterns =
      [.node (.named Kind.statement) [(none, terminalPattern)] [1]] := rfl
  simp only [matchesAt, patterns, List.zipIdx_cons, List.zipIdx_nil, List.flatMap_cons,
    List.flatMap_nil, List.append_nil, here]
  split <;> rfl

theorem node?_of_mem_matchesAt {c : Cursor} {m : Match} (hm : m ∈ matchesAt terminalStatements c) :
    m.node? 1 = some c := by
  rw [matchesAt_terminalStatements] at hm
  split at hm
  · obtain ⟨captures, hcaptures, rfl⟩ := List.mem_map.1 hm
    rw [Query.dropRepeats_none] at hcaptures
    obtain ⟨d, _, rfl⟩ := List.mem_map.1 ((List.destutter_sublist _ _).subset hcaptures)
    rfl
  · contradiction

section Script

variable {text : List Char} {block c : Cursor}

theorem isSignificant_of_ofKind {kind : String} (structural : kind ∉ extraKinds)
    (hc : c ∈ (Tree.ofScript text).cursors) (ofKind : isOfKind kind c) : c.isSignificant := by
  simp only [isOfKind, Bool.and_eq_true, beq_iff_eq] at ofKind
  obtain ⟨named, same⟩ := ofKind
  have notExtra : c.notExtra := by
    by_contra extra
    exact structural (same ▸ Tree.kind_of_extra hc (by simpa using extra))
  exact Bool.and_eq_true_iff.2 ⟨named, notExtra⟩

/-- What is no significant node is of no kind of the structure. -/
theorem isOfKind_eq_false {kind : String} (structural : kind ∉ extraKinds)
    (hc : c ∈ (Tree.ofScript text).cursors) (other : c.isSignificant = false) :
    isOfKind kind c = false := by
  by_contra ofKind
  have significant := isSignificant_of_ofKind structural hc (by simpa using ofKind)
  exact Bool.false_ne_true (other.symm.trans significant)

/-- A statement that ends its control path gives one range at most, and all others give none. -/
theorem ranges_matchesAt (hc : c ∈ (Tree.ofScript text).cursors) :
    ((matchesAt terminalStatements c).filterMap fun m => (m.node? 1).bind unreachableRange?) =
      rangesBehind c := by
  by_cases single : c.significantChildren.length = 1
  · obtain ⟨d, only⟩ := List.length_eq_one_iff.1 single
    have hd : d ∈ c.significantChildren := by simp [only]
    have ends : c.children.filter endsPath = [d].filter endsPath := by
      rw [← only, Cursor.significantChildren, List.filter_filter]
      refine List.filter_congr fun e he => ?_
      cases ended : endsPath e with
      | false => rfl
      | true =>
        have he := Cursor.mem_preorder_of_child hc he
        rcases Bool.or_eq_true_iff.1 ended with core | returns
        · simp [isSignificant_of_ofKind (by decide) he core]
        · simp [isSignificant_of_ofKind (by decide) he returns]
    have named : d.node.isNamed := (Bool.and_eq_true_iff.1 (List.mem_filter.1 hd).2).1
    have terminal : isTerminal c = endsPath d := by
      simp [isTerminal, significantKinds, only, endsPath, isOfKind, named, Cursor.kind]
    rw [matchesAt_terminalStatements, rangesBehind, ends, terminal, List.filter_singleton]
    cases isOfKind Kind.statement c <;> cases endsPath d <;> rfl
  · have nothing : unreachableRange? c = none := by
      simp [unreachableRange?, single]
    rw [rangesBehind, nothing, Option.toList_none, ite_self]
    refine List.filterMap_eq_nil_iff.2 fun m hm => ?_
    rw [node?_of_mem_matchesAt hm, Option.bind_some, nothing]

/-- The matches at statements right below a block are those at its children. -/
theorem run_below (hblock : block ∈ (Tree.ofScript text).cursors) :
    (terminalStatements.run (Cursor.root (Tree.ofScript text))).filter
      (fun m => (m.node? 1).any block.isBelow) =
        block.children.flatMap (matchesAt terminalStatements) := by
  have below : (Tree.ofScript text).cursors.filter block.isBelow = block.children :=
    Tree.filter_isBelow hblock
  have test (c : Cursor) : (matchesAt terminalStatements c).filter
      (fun m => (m.node? 1).any block.isBelow) =
        if block.isBelow c then matchesAt terminalStatements c else [] := by
    have same (m : Match) (hm : m ∈ matchesAt terminalStatements c) :
        (m.node? 1).any block.isBelow = block.isBelow c := by
      rw [node?_of_mem_matchesAt hm, Option.any_some]
    rw [List.filter_congr same]
    cases block.isBelow c <;> simp
  rw [← below, Query.run, List.filter_flatMap,
    ← flatMap_filter (p := block.isBelow) fun c _ other => by simp [test, other]]
  refine congrArg List.flatten (List.map_congr_left fun c hc => ?_)
  rw [test, if_pos (List.mem_filter.1 hc).2]

/-- Comments in a block give no ranges. -/
theorem ranges_children (hblock : block ∈ (Tree.ofScript text).cursors) :
    (block.children.flatMap fun c =>
      (matchesAt terminalStatements c).filterMap fun m => (m.node? 1).bind unreachableRange?) =
        block.significantChildren.flatMap rangesBehind := by
  have inside (c : Cursor) (hc : c ∈ block.children) : c ∈ (Tree.ofScript text).cursors :=
    Cursor.mem_preorder_of_child hblock hc
  refine (congrArg List.flatten (List.map_congr_left fun c hc =>
    ranges_matchesAt (inside c hc))).trans (flatMap_filter fun c hc other => ?_).symm
  exact rangesBehind_of_other (isOfKind_eq_false (by decide) (inside c hc) other)

/-- What the rule reports for a block comes from its statements that end their control paths. -/
theorem unreachableIn_eq (hblock : block ∈ (Tree.ofScript text).cursors) :
    unreachableIn (Tree.ofScript text) block =
      (block.significantChildren.flatMap rangesBehind).map
        (⟨·, .warning, "Unreachable code"⟩) := by
  change ((((Query.run terminalStatements _).filter _).filterMap (·.node? 1)).filterMap
    unreachableRange?).map _ = _
  rw [run_below hblock, List.filterMap_filterMap, List.filterMap_flatMap, ranges_children hblock]

/-- What the rule reports for a statement that ends its control path, by what stands behind it. -/
theorem unreachableRange?_of_split (hblock : block ∈ (Tree.ofScript text).cursors)
    (holds : block.kind = Kind.compoundStatement ∨ block.kind = Kind.sourceFile)
    {front behind : List Cursor} (split : block.significantChildren = front ++ c :: behind)
    (terminal : isTerminal c) : unreachableRange? c = behind.head?.bind fun next =>
      if next.kind != Kind.statement || isLabel next then none
      else (lastStatement? block).map fun last => next.range.through last.range := by
  have single : c.significantChildren.length = 1 := by
    have kinds : (significantKinds c).length = 1 := by
      rcases Bool.or_eq_true_iff.1 terminal with core | returns
      · rw [eq_of_beq core]; rfl
      · rw [eq_of_beq returns]; rfl
    simpa [significantKinds] using kinds
  have child : c ∈ block.children := by
    have significant : c ∈ block.significantChildren := by simp [split]
    exact (List.mem_filter.1 significant).1
  have parent : c.parent? = some block := Cursor.parent?_of_mem_children child
  have next := (Tree.significant_siblings hblock split).1
  cases behind with
  | nil => simp [unreachableRange?, single, parent, next]
  | cons n behind =>
    rcases holds with kind | kind <;> cases last : lastStatement? block <;>
      simp [unreachableRange?, single, parent, kind, next, last]

end Script

/-- A block of statements none of which is a label, whether it is closed or not. -/
structure Straight (t : Tree) (block : Cursor) (statements : List Cursor) : Prop where
  mem : block ∈ t.cursors
  compound : block.kind = Kind.compoundStatement
  nodes : ∃ (opening : Cursor) (closing : Option Cursor),
    block.significantChildren = opening :: (statements ++ closing.toList) ∧
      ∀ brace ∈ closing, brace.kind = Kind.blockEnd
  statement : ∀ s ∈ statements, s.kind = Kind.statement
  unlabelled : ∀ s ∈ statements, isLabel s = false

namespace Straight

variable {text : List Char} {block s : Cursor} {statements front behind : List Cursor}

theorem isOfKind_of_mem (h : Straight (Tree.ofScript text) block statements)
    (hs : s ∈ statements) : isOfKind Kind.statement s := by
  obtain ⟨opening, closing, nodes, _⟩ := h.nodes
  have significant : s ∈ block.significantChildren := by simp [nodes, hs]
  have named := (Bool.and_eq_true_iff.1 (List.mem_filter.1 significant).2).1
  exact Bool.and_eq_true_iff.2 ⟨named, beq_iff_eq.2 (h.statement s hs)⟩

/-- The last statement of the block is found, with or without a brace behind it. -/
theorem lastStatement?_eq (h : Straight (Tree.ofScript text) block statements)
    (nonempty : statements ≠ []) : lastStatement? block = statements.getLast? := by
  obtain ⟨front, s, rfl⟩ := (List.eq_nil_or_concat statements).resolve_left nonempty
  obtain ⟨opening, closing, nodes, brace⟩ := h.nodes
  have ended (more : List Cursor) (c : Cursor) : (opening :: (more ++ [c])).getLast? = some c :=
    List.getLast?_concat (l := opening :: more)
  cases closing with
  | none =>
    have last : block.significantChildren.getLast? = some s := by simp [nodes, ended]
    have kind : s.kind = Kind.statement := h.statement s (by simp)
    simp [lastStatement?, last, kind, Kind.statement, Kind.blockEnd]
  | some closing =>
    have split : block.significantChildren = (opening :: (front ++ [s])) ++ closing :: [] := by
      simp [nodes]
    have last : block.significantChildren.getLast? = some closing := by
      rw [split, List.getLast?_concat]
    have before := (Tree.significant_siblings h.mem split).2
    simp [lastStatement?, last, brace closing rfl, before, ended]

/-- Behind a statement that ends its control path, the rest of the block cannot be reached. -/
theorem unreachableRange?_eq (h : Straight (Tree.ofScript text) block (front ++ s :: behind))
    (terminal : isTerminal s) : unreachableRange? s = behind.head?.map fun next =>
      next.range.through ((front ++ s :: behind).getLastD next).range := by
  obtain ⟨opening, closing, nodes, brace⟩ := h.nodes
  have split : block.significantChildren =
      (opening :: front) ++ s :: (behind ++ closing.toList) := by simp [nodes]
  rw [unreachableRange?_of_split h.mem (.inl h.compound) split terminal]
  cases behind with
  | nil =>
    cases closing with
    | none => rfl
    | some closing =>
      have kind : closing.kind = Kind.blockEnd := brace closing rfl
      simp [kind, Kind.blockEnd, Kind.statement]
  | cons n behind =>
    have kind : n.kind = Kind.statement := h.statement n (by simp)
    have label : isLabel n = false := h.unlabelled n (by simp)
    have last := h.lastStatement?_eq (by simp)
    cases found : (front ++ s :: n :: behind).getLast? with
    | none => simp at found
    | some final =>
      rw [found] at last
      simp [kind, label, last, List.getLastD_eq_getLast?, found]

/-- What the statements behind some others give. -/
theorem flatMap_range (h : Straight (Tree.ofScript text) block (front ++ behind)) :
    behind.flatMap rangesBehind =
      ((behind.zip behind.tail).filter (isTerminal ·.1)).map fun pair =>
        pair.2.range.through ((front ++ behind).getLastD pair.2).range := by
  induction behind generalizing front with
  | nil => rfl
  | cons s behind ih =>
    have statement : isOfKind Kind.statement s := h.isOfKind_of_mem (by simp)
    have later := @ih (front ++ [s]) (by simpa using h)
    have first : rangesBehind s =
        (((behind.head?.map fun next => (s, next)).toList).filter (isTerminal ·.1)).map fun pair =>
          pair.2.range.through ((front ++ s :: behind).getLastD pair.2).range := by
      rw [rangesBehind, statement, Bool.true_and]
      cases terminal : isTerminal s with
      | false => cases behind <;> simp [terminal]
      | true =>
        rw [if_pos rfl, h.unreachableRange?_eq terminal]
        cases behind <;> simp [terminal]
    have pairs : (s :: behind).zip behind =
        (behind.head?.map fun next => (s, next)).toList ++ behind.zip behind.tail := by
      cases behind <;> rfl
    rw [List.flatMap_cons, first, later, List.tail_cons, pairs,
      List.filter_append, List.map_append]
    simp

end Straight

/-- In a block without labels, each statement but the last that ends its control path gives one
warning, which reaches from the next statement to the last one. -/
theorem unreachableIn_straight {text : List Char} {block : Cursor} {statements : List Cursor}
    (h : Straight (Tree.ofScript text) block statements) :
    unreachableIn (Tree.ofScript text) block =
      (behindTerminals statements).map (⟨·, .warning, "Unreachable code"⟩) ∧
      (unreachableIn (Tree.ofScript text) block).Sublist
        (unreachableCode.findings (Tree.ofScript text)) := by
  refine ⟨?_, ?_⟩
  · obtain ⟨opening, closing, nodes, brace⟩ := h.nodes
    have other {kind : String} (different : kind ≠ Kind.statement) {c : Cursor}
        (same : c.kind = kind) : isOfKind Kind.statement c = false :=
      Bool.and_eq_false_imp.2 fun _ => beq_eq_false_iff_ne.2 fun statement =>
        different (same.symm.trans statement)
    have first : isOfKind Kind.statement opening = false := by
      have head : block.significantChildren.head? = some opening := by simp [nodes]
      rcases List.mem_cons.1 (Tree.opening_ofScript h.mem h.compound head) with start | error
      · exact other (by decide) start
      · exact other (by decide) (List.mem_singleton.1 error)
    have last : closing.toList.flatMap rangesBehind = [] :=
      List.flatMap_eq_nil_iff.2 fun c hc =>
        rangesBehind_of_other (other (by decide) (brace c (by simpa using hc)))
    have inner := Straight.flatMap_range (show Straight _ block ([] ++ statements) from h)
    rw [unreachableIn_eq h.mem, nodes, List.flatMap_cons, rangesBehind_of_other first,
      List.nil_append, List.flatMap_append, last, List.append_nil, inner]
    rfl
  · exact ((List.filter_sublist.filterMap _).filterMap _).map _

/-- A block that does not close, with comments and another block in it. -/
theorem unreachableIn_straight_unclosed :
    let text := "route \x7b\ndrop; # a\nif (1) \x7b return; exit; \x7d\nexit /* b */;\nlog(2);\n".toList
    ∃ block statements, Straight (Tree.ofScript text) block statements ∧
      unreachableIn (Tree.ofScript text) block =
        [⟨⟨18, 64, ⟨2, 0⟩, ⟨4, 7⟩⟩, .warning, "Unreachable code"⟩,
          ⟨⟨57, 64, ⟨4, 0⟩, ⟨4, 7⟩⟩, .warning, "Unreachable code"⟩] := by
  intro text
  have facts : ∃ block ∈ (Tree.ofScript text).cursors, block.kind = Kind.compoundStatement ∧
      block.significantChildren ≠ [] ∧
      (∀ s ∈ block.significantChildren.tail, s.kind = Kind.statement ∧ isLabel s = false) ∧
      (behindTerminals block.significantChildren.tail).map (⟨·, .warning, "Unreachable code"⟩) =
        [(⟨⟨18, 64, ⟨2, 0⟩, ⟨4, 7⟩⟩, .warning, "Unreachable code"⟩ : Diagnostic),
          ⟨⟨57, 64, ⟨4, 0⟩, ⟨4, 7⟩⟩, .warning, "Unreachable code"⟩] := by
    decide +kernel
  obtain ⟨block, mem, compound, some_child, plain, warnings⟩ := facts
  have straight : Straight (Tree.ofScript text) block block.significantChildren.tail :=
    ⟨mem, compound, ⟨block.significantChildren.head some_child, none, by simp, by simp⟩,
      fun s hs => (plain s hs).1, fun s hs => (plain s hs).2⟩
  exact ⟨block, _, straight, (unreachableIn_straight straight).1.trans warnings⟩

end Diagnostic

end RouteScript
