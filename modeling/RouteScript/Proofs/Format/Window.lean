import RouteScript.Proofs.Format.Depth
/-!
# The window of a line

The tokens of a line are read from a window that moves over the tokens of a text in one go. Tokens
do not overlap, so the window of each line holds just the tokens that have a part on it.
-/
namespace RouteScript.Format

open Token (InOrder inOrder_all)

/-- Behind the longest part with a property no token has it, if it does not come back. -/
theorem forall_dropWhile {p : Token → Bool} {ts : List Token}
    (lost : ts.Pairwise fun t u => p u → p t) : ∀ t ∈ ts.dropWhile p, ¬ p t := by
  induction ts with
  | nil => simp
  | cons t ts ih =>
    obtain ⟨before, lost⟩ := List.pairwise_cons.1 lost
    by_cases here : p t
    · rw [List.dropWhile_cons_of_pos here]
      exact ih lost
    · rw [List.dropWhile_cons_of_neg here]
      exact List.forall_mem_cons.2 ⟨here, fun u hu there => here (before u hu there)⟩

namespace Line

variable {ahead : List Token}

/-- The tokens ahead of a line are those that are over, those on it, and those behind it. -/
theorem window_cut (inOrder : InOrder ahead) (l : Line) : ∃ past behind,
    ahead = past ++ ((l.window ahead).1 ++ behind) ∧
      (l.window ahead).2 =
        ((l.window ahead).1.getLast?.filter fun t => l.stop < t.stop).toList ++ behind ∧
      (∀ t ∈ past, t.stop ≤ l.start) ∧
      (∀ t ∈ (l.window ahead).1, l.start < t.stop ∧ t.start < l.stop) ∧
      ∀ t ∈ behind, l.stop ≤ t.start := by
  let passed (t : Token) : Bool := t.stop ≤ l.start
  let early (t : Token) : Bool := t.start < l.stop
  let rest := ahead.dropWhile passed
  have ordered : ahead.Pairwise fun t u => (passed u → passed t) ∧ (early u → early t) := by
    refine inOrder.ordered.imp_of_mem fun {t u} ht hu stop => ?_
    have := inOrder.nonempty t ht
    have := inOrder.nonempty u hu
    simp only [passed, early, decide_eq_true_eq]
    omega
  have inside : ∀ t ∈ rest, ¬ passed t := forall_dropWhile (ordered.imp And.left)
  have later : ∀ t ∈ rest.dropWhile early, ¬ early t :=
    forall_dropWhile ((ordered.imp And.right).sublist (List.dropWhile_sublist _))
  refine ⟨ahead.takeWhile passed, rest.dropWhile early, ?_, rfl, fun t ht => ?_, fun t ht => ?_,
    fun t ht => ?_⟩
  · simp only [window, rest, passed, early, List.takeWhile_append_dropWhile]
  · have stop := List.mem_takeWhile_imp ht
    simpa only [passed, decide_eq_true_eq] using stop
  · have stop := inside t ((List.takeWhile_sublist _).subset ht)
    have start := List.mem_takeWhile_imp ht
    simp only [passed, decide_eq_true_eq] at stop start
    exact ⟨by omega, start⟩
  · have start := later t ht
    simp only [early, decide_eq_true_eq] at start
    omega

theorem window_fst (inOrder : InOrder ahead) (l : Line) : (l.window ahead).1 = l.tokens ahead := by
  obtain ⟨past, behind, cut, -, passed, on, later⟩ := window_cut inOrder l
  conv_rhs => rw [cut, tokens_past passed, tokens_later later, tokens_all on]

theorem isInfix_tokens (inOrder : InOrder ahead) (l : Line) : l.tokens ahead <:+: ahead := by
  obtain ⟨past, behind, cut, -⟩ := window_cut inOrder l
  rw [← window_fst inOrder]
  exact ⟨past, behind, by rw [List.append_assoc, ← cut]⟩

/-- What the window leaves behind is over with the line. -/
theorem window_snd (inOrder : InOrder ahead) (l : Line) :
    ∃ past, ahead = past ++ (l.window ahead).2 ∧ ∀ t ∈ past, t.stop ≤ l.stop := by
  obtain ⟨past, behind, cut, left, passed, on, -⟩ := window_cut inOrder l
  have passed : ∀ t ∈ past, t.stop ≤ l.stop := fun t ht =>
    Nat.le_trans (passed t ht) (Nat.le_add_right _ _)
  rw [left]
  generalize (l.window ahead).1 = own at cut on ⊢
  rcases own.eq_nil_or_concat' with rfl | ⟨front, last, rfl⟩
  · exact ⟨past, cut, passed⟩
  have ordered := inOrder.ordered
  rw [cut, List.pairwise_append, List.pairwise_append, List.pairwise_append] at ordered
  have before : ∀ t ∈ front, t.stop ≤ l.stop := fun t ht =>
    have apart := ordered.2.1.1.2.2 t ht last (List.mem_singleton_self last)
    Nat.le_trans apart (Nat.le_of_lt (on last (by simp)).2)
  rw [List.getLast?_concat]
  by_cases crosses : l.stop < last.stop
  · rw [Option.filter_some_pos (by simpa using crosses)]
    refine ⟨past ++ front, by simp [cut], List.forall_mem_append.2 ⟨passed, before⟩⟩
  · rw [Option.filter_some_neg (by simpa using crosses)]
    refine ⟨past ++ (front ++ [last]), by simp [cut], ?_⟩
    simp only [List.forall_mem_append, List.forall_mem_singleton]
    exact ⟨passed, before, Nat.le_of_not_lt crosses⟩

end Line

theorem formatAhead_eq {ahead : List Token} (inOrder : InOrder ahead) (unit : List Char)
    (start depth : Nat) (pieces : List (List Char × Bool)) :
    formatAhead unit ahead depth (linesFrom start pieces)
      = formatLines unit ahead depth (linesFrom start pieces) := by
  induction pieces generalizing ahead start depth with
  | nil => rfl
  | cons piece pieces ih =>
    let l : Line := ⟨start, if piece.2 then piece.1 ++ ['\n'] else piece.1⟩
    obtain ⟨past, cut, passed⟩ := Line.window_snd inOrder l
    have left : InOrder (l.window ahead).2 :=
      inOrder.sublist (List.IsSuffix.sublist ⟨past, cut.symm⟩)
    have rest (depth : Nat) : formatAhead unit (l.window ahead).2 depth (linesFrom l.stop pieces)
        = formatLines unit ahead depth (linesFrom l.stop pieces) := by
      conv_rhs => rw [cut]
      rw [ih left, formatLines_past fun t ht m hm =>
        Nat.le_trans (passed t ht) (start_linesFrom l.stop pieces m hm)]
    have lines : linesFrom start (piece :: pieces) = l :: linesFrom l.stop pieces := rfl
    simp only [lines, formatAhead, formatLines, Line.window_fst inOrder, rest]

/-- A text is formatted line by line, each with the tokens that have a part on it. -/
theorem format_eq (options : Options) (text : List Char) : format options text
    = formatLines options.unit (Token.all text) 0 (linesFrom 0 (Text.pieces text)) :=
  formatAhead_eq (inOrder_all text) options.unit 0 0 (Text.pieces text)

end RouteScript.Format
