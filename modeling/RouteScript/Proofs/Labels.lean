import RouteScript.Proofs.Unreachable
import RouteScript.Proofs.Errors.Report
/-!
# Labels behind dead code

Control comes to a label from outside its block. The rule for unreachable code looks for a label
right behind a statement that ends its control path, and nowhere else. So its warnings are around
just those labels that have dead code before them.
-/
namespace RouteScript

open Draft Script

namespace Tree

variable {text : List Char} {block c s : Cursor} {front behind : List Cursor}

/-- A node in which statements stand beside each other: a block, or the top of a script. -/
def HoldsStatements (t : Tree) (block : Cursor) : Prop :=
  block = Cursor.root t ∨ block ∈ t.cursors ∧ block.kind = Kind.compoundStatement

theorem HoldsStatements.mem {t : Tree} (h : t.HoldsStatements block) : block ∈ t.cursors := by
  rcases h with rfl | ⟨hblock, _⟩
  · exact Cursor.mem_preorder_self _
  · exact hblock

theorem significant_sublist (c : Cursor) :
    c.significantChildren.Sublist (c.children.filter Cursor.notExtra) := by
  have both : c.significantChildren =
      (c.children.filter Cursor.notExtra).filter Cursor.isNamed := by
    rw [List.filter_filter]
    rfl
  exact both ▸ List.filter_sublist

theorem map_draft_notExtra (c : Cursor) : (c.children.filter Cursor.notExtra).map Cursor.draft
    = c.draft.children.filter fun d => !d.label.extra :=
  c.map_draft_filter fun t => !t.extra

/-- Significant siblings start in order. -/
theorem significant_starts (hblock : block ∈ (ofScript text).cursors) :
    block.significantChildren.Pairwise fun a b => a.node.start < b.node.start := by
  have spread := spread_below hblock
  have tight : ∀ d ∈ block.draft.children, Draft.Tight d := by
    rw [← Cursor.map_draft_children]
    exact List.forall_mem_map.2 fun d hd => tight_of_mem_children hblock hd
  have leaves : block.children.flatMap Cursor.solidLeaves
      = block.draft.children.flatMap Draft.solidLeaves := by
    rw [← Cursor.map_draft_children, List.flatMap_map]
    rfl
  have starts := Tight.starts tight (leaves ▸ spread)
  rw [← map_draft_notExtra, List.pairwise_map] at starts
  simp only [← Cursor.start_eq] at starts
  exact starts.sublist (significant_sublist block)

/-- What stands in a block ends in order, behind the brace that opens it. -/
theorem significant_stops (h : (ofScript text).HoldsStatements block) :
    block.significantChildren.tail.Pairwise fun a b => a.node.stop ≤ b.node.stop := by
  have climbing : block.draft.Climbing := by
    rcases h with rfl | ⟨hblock, compound⟩
    · have items : (Cursor.root (ofScript text)).draft.children = (items (.ofText text)).1 :=
        congrArg Rose.children (thaw_ofScript text)
      rw [Climbing, items]
      exact (items_climb text).tail
    · exact (confined_cursor hblock).block (block.kind_eq.symm.trans compound)
  rw [Climbing, ← map_draft_notExtra, ← List.map_tail, List.pairwise_map] at climbing
  simp only [← Cursor.stop_eq] at climbing
  exact climbing.sublist (significant_sublist block).tail

/-- What starts no earlier than a significant sibling stands at or behind it. -/
theorem mem_of_start_le (hblock : block ∈ (ofScript text).cursors)
    (split : block.significantChildren = front ++ s :: behind) (hc : c ∈ block.significantChildren)
    (low : s.node.start ≤ c.node.start) : c ∈ s :: behind := by
  have starts := significant_starts hblock
  rw [split] at starts hc
  refine (List.mem_append.1 hc).resolve_left fun before => ?_
  have less := (List.pairwise_append.1 starts).2.2 c before s (by simp)
  omega

/-- But for the first, a significant sibling ends no later than what stands behind it. -/
theorem stop_le_of_mem (h : (ofScript text).HoldsStatements block)
    (split : block.significantChildren = front ++ s :: behind) (further : front ≠ [])
    (hc : c ∈ s :: behind) : s.node.stop ≤ c.node.stop := by
  have stops := significant_stops h
  rw [split, List.tail_append_of_ne_nil further] at stops
  rcases List.mem_cons.1 hc with rfl | later
  · exact Nat.le.refl
  · exact (List.pairwise_cons.1 (List.pairwise_append.1 stops).2.1).1 c later

end Tree

namespace Diagnostic

/-- A statement that ends its control path, and the dead one behind it, which is no label. -/
def Ends (s next : Cursor) : Prop :=
  (isOfKind Kind.statement s ∧ isTerminal s) ∧ next.kind = Kind.statement ∧ isLabel next = false

/-- A dead statement of the block stands before a node of it. -/
def BehindDead (block c : Cursor) : Prop :=
  ∃ front s next rest, block.significantChildren = front ++ s :: next :: rest ∧ Ends s next ∧
    c ∈ rest

variable {text : List Char} {block label s : Cursor} {front behind : List Cursor}

/-- The last statement of a block is at or behind any statement of it. -/
theorem exists_lastStatement (hblock : block ∈ (Tree.ofScript text).cursors)
    (split : block.significantChildren = front ++ s :: behind)
    (statement : s.kind = Kind.statement) :
    ∃ last ∈ s :: behind, lastStatement? block = some last := by
  obtain ⟨more, last, ended⟩ : ∃ more last, s :: behind = more ++ [last] :=
    ⟨_, _, (List.dropLast_append_getLast (List.cons_ne_nil s behind)).symm⟩
  have whole : block.significantChildren = (front ++ more) ++ last :: [] := by
    rw [split, ended, List.append_assoc]
  have tail : block.significantChildren.getLast? = some last := by
    rw [whole, List.getLast?_concat]
  by_cases closing : last.kind = Kind.blockEnd
  · have before := (Tree.significant_siblings hblock whole).2
    cases more with
    | nil =>
      cases ended
      rw [statement] at closing
      exact absurd closing (by decide)
    | cons _ more =>
      cases ended
      rw [List.getLast?_append, List.getLast?_eq_some_getLast (List.cons_ne_nil s more)] at before
      exact ⟨_, List.mem_append_left [last] (List.getLast_mem (List.cons_ne_nil s more)),
        by simp [lastStatement?, tail, closing, before]⟩
  · exact ⟨last, by simp [ended], by simp [lastStatement?, tail, closing]⟩

/-- What the rule reports at one statement. -/
theorem mem_rangesBehind_iff (h : (Tree.ofScript text).HoldsStatements block)
    (split : block.significantChildren = front ++ s :: behind) {r : Range} :
    r ∈ rangesBehind s ↔ ∃ next rest last, behind = next :: rest ∧ Ends s next ∧
      lastStatement? block = some last ∧ next.range.through last.range = r := by
  have kinds : block.kind = Kind.compoundStatement ∨ block.kind = Kind.sourceFile := by
    rcases h with rfl | ⟨_, compound⟩
    · exact .inr rfl
    · exact .inl compound
  rw [rangesBehind]
  by_cases ends : isOfKind Kind.statement s && isTerminal s
  · have both := Bool.and_eq_true_iff.1 ends
    rw [if_pos ends, unreachableRange?_of_split h.mem kinds split both.2]
    cases behind <;> simp [Ends, both]
  · rw [if_neg ends]
    have never (next : Cursor) : ¬ Ends s next := fun h => ends (Bool.and_eq_true_iff.2 h.1)
    simp [never]

/-- A warning is around a label just when the label is behind dead code, and takes all of that code
to be unreachable. So a label is safe right behind the end of a control path, but not later. -/
theorem covers_label_iff (h : (Tree.ofScript text).HoldsStatements block)
    (child : label ∈ block.children) (statement : isOfKind Kind.statement label)
    (labelled : isLabel label) :
    (∃ d ∈ unreachableIn (Tree.ofScript text) block, d.range.covers label.range) ↔
      BehindDead block label := by
  have significant : label ∈ block.significantChildren :=
    List.mem_filter.2 ⟨child, isSignificant_of_ofKind (by decide)
      (Cursor.mem_preorder_of_child h.mem child) statement⟩
  have kind : label.kind = Kind.statement := eq_of_beq (Bool.and_eq_true_iff.1 statement).2
  rw [unreachableIn_eq h.mem]
  constructor
  · rintro ⟨_, warned, covers⟩
    obtain ⟨r, there, rfl⟩ := List.mem_map.1 warned
    obtain ⟨s, hs, there⟩ := List.mem_flatMap.1 there
    obtain ⟨front, behind, split⟩ := List.append_of_mem hs
    obtain ⟨next, rest, last, rfl, ends, _, rfl⟩ := (mem_rangesBehind_iff h split).1 there
    refine ⟨front, s, next, rest, split, ends, ?_⟩
    have low : next.node.start ≤ label.node.start :=
      of_decide_eq_true (Bool.and_eq_true_iff.1 covers).1
    have split' : block.significantChildren = (front ++ [s]) ++ next :: rest := by simp [split]
    have later := Tree.mem_of_start_le h.mem split' significant low
    refine (List.mem_cons.1 later).resolve_left fun dead => ?_
    rw [dead, ends.2.2] at labelled
    contradiction
  · rintro ⟨front, s, next, rest, split, ends, behind⟩
    obtain ⟨mid, back, rfl⟩ := List.append_of_mem behind
    have split' : block.significantChildren = (front ++ s :: next :: mid) ++ label :: back := by
      simp [split]
    obtain ⟨last, at_end, found⟩ := exists_lastStatement h.mem split' kind
    have warned : next.range.through last.range ∈ block.significantChildren.flatMap rangesBehind :=
      List.mem_flatMap.2 ⟨s, by simp [split], (mem_rangesBehind_iff h split).2
        ⟨next, _, last, rfl, ends, found, rfl⟩⟩
    refine ⟨_, List.mem_map_of_mem warned, Bool.and_eq_true_iff.2 ⟨?_, ?_⟩⟩
    · have starts := Tree.significant_starts h.mem
      rw [split, List.pairwise_append] at starts
      have less := (List.pairwise_cons.1 (List.pairwise_cons.1 starts.2.1).2).1 label (by simp)
      exact decide_eq_true (Nat.le_of_lt less)
    · exact decide_eq_true (Tree.stop_le_of_mem h split' (by simp) at_end)

/-- The second label is right behind the end of a control path, and the third one is not. -/
theorem covers_label_default :
    let text := ("route \x7b switch (1) \x7b case 1: exit; case 2: exit; log(1); default: " ++
      "\x7d \x7d").toList
    ∃ block second third, (Tree.ofScript text).HoldsStatements block ∧
      (second ∈ block.children ∧ isOfKind Kind.statement second ∧ isLabel second) ∧
      (third ∈ block.children ∧ isOfKind Kind.statement third ∧ isLabel third) ∧
      ¬ BehindDead block second ∧ BehindDead block third := by
  intro text
  have facts : ∃ block ∈ (Tree.ofScript text).cursors, block.kind = Kind.compoundStatement ∧
      ∃ second ∈ block.children, (isOfKind Kind.statement second ∧ isLabel second) ∧
        (¬ ∃ d ∈ unreachableIn (Tree.ofScript text) block, d.range.covers second.range) ∧
        ∃ third ∈ block.children, (isOfKind Kind.statement third ∧ isLabel third) ∧
          ∃ d ∈ unreachableIn (Tree.ofScript text) block, d.range.covers third.range := by
    decide +kernel
  obtain ⟨block, mem, compound, second, child, label, safe, third, child', label', caught⟩ := facts
  have holds : (Tree.ofScript text).HoldsStatements block := .inr ⟨mem, compound⟩
  exact ⟨block, second, third, holds, ⟨child, label⟩, ⟨child', label'⟩,
    (covers_label_iff holds child label.1 label.2).not.1 safe,
    (covers_label_iff holds child' label'.1 label'.2).1 caught⟩

/-- The only warning is for the code behind `break`, and it takes in the label behind that code. -/
theorem covers_label_dead :
    let text := ("request_route \x7b\nswitch ($rU) \x7b\ncase 1:\nbreak;\ndrop;\n" ++
      "case 2:\nlog(2);\n\x7d\n\x7d\n").toList
    ∃ block label, (Tree.ofScript text).HoldsStatements block ∧
      (label ∈ block.children ∧ isOfKind Kind.statement label ∧ isLabel label) ∧
      ∃ d ∈ unreachableIn (Tree.ofScript text) block,
        unreachableCode.findings (Tree.ofScript text) = [d] ∧ d.range.covers label.range := by
  intro text
  have facts : ∃ block ∈ (Tree.ofScript text).cursors, block.kind = Kind.compoundStatement ∧
      ∃ label ∈ block.children, (isOfKind Kind.statement label ∧ isLabel label) ∧
        ∃ d ∈ unreachableIn (Tree.ofScript text) block,
          unreachableCode.findings (Tree.ofScript text) = [d] ∧ d.range.covers label.range := by
    decide +kernel
  obtain ⟨block, mem, compound, label, child, labelled, warned⟩ := facts
  exact ⟨block, label, .inr ⟨mem, compound⟩, ⟨child, labelled⟩, warned⟩

end Diagnostic

end RouteScript
