import RouteScript.Proofs.Format.Line
/-!
# Braces and depths

The depth at an offset is the number of braces opened before it, less those closed. The depth can be
followed over a list of tokens just when no beginning of the list closes more than was open, and
it depends on the braces alone, each of which is a single character and so starts on one line only.
-/
namespace RouteScript

namespace Token

/-- Opening braces among tokens. -/
def opened (ts : List Token) : Nat := ts.countP fun t => t.kind = .lBrace

/-- Closing braces among tokens. -/
def closed (ts : List Token) : Nat := ts.countP fun t => t.kind = .rBrace

/-- No beginning closes more braces than it opens, and all that are opened are closed. -/
structure Balanced (ts : List Token) : Prop where
  closed_le : ∀ front, front <+: ts → closed front ≤ opened front
  closed_eq : closed ts = opened ts

def isBrace (t : Token) : Bool := t.kind = .lBrace || t.kind = .rBrace

section Lists

variable (t : Token) (ts us : List Token)

@[simp] theorem opened_nil : opened [] = 0 := rfl

@[simp] theorem closed_nil : closed [] = 0 := rfl

theorem opened_cons : opened (t :: ts) = opened ts + if t.kind = .lBrace then 1 else 0 := by
  simp [opened, List.countP_cons]

theorem closed_cons : closed (t :: ts) = closed ts + if t.kind = .rBrace then 1 else 0 := by
  simp [closed, List.countP_cons]

@[simp] theorem opened_append : opened (ts ++ us) = opened ts + opened us := List.countP_append

@[simp] theorem closed_append : closed (ts ++ us) = closed ts + closed us := List.countP_append

end Lists

/-- Tokens that stand apart, in their order, with braces of one byte. -/
structure InOrder (ts : List Token) : Prop where
  nonempty : ∀ t ∈ ts, t.start < t.stop
  ordered : ts.Pairwise fun t u => t.stop ≤ u.start
  brace : ∀ t ∈ ts, t.isBrace → t.stop = t.start + 1

theorem stop_of_spelling {t : Token} (spelled : t.Spelled) {w : String}
    (h : t.kind.spelling? = some w) : t.stop = t.start + Text.size w.toList := by
  rw [stop, spelled.text w h]

theorem inOrder_all (text : List Char) : InOrder (all text) := by
  have cut := allFrom_cut 0 true text
  refine ⟨fun t ht => (cut.bounds t ht).2.1, cut.pairwise, fun t ht brace => ?_⟩
  have spelled := allFrom_spelled 0 true text t ht
  rw [isBrace, Bool.or_eq_true, decide_eq_true_eq, decide_eq_true_eq] at brace
  rcases brace with opening | closing
  · exact stop_of_spelling spelled (congrArg Kind.spelling? opening)
  · exact stop_of_spelling spelled (congrArg Kind.spelling? closing)

/-- Tokens that start before an offset. -/
def before (n : Nat) (ts : List Token) : List Token := ts.filter fun t => t.start < n

theorem InOrder.sublist {ts us : List Token} (inOrder : InOrder ts) (h : us.Sublist ts) :
    InOrder us :=
  ⟨fun t ht => inOrder.nonempty t (h.subset ht), inOrder.ordered.sublist h,
    fun t ht => inOrder.brace t (h.subset ht)⟩

theorem InOrder.pairwise_start {ts : List Token} (inOrder : InOrder ts) :
    ts.Pairwise fun t u => t.start < u.start :=
  inOrder.ordered.imp_of_mem fun ht _ stop => Nat.lt_of_lt_of_le (inOrder.nonempty _ ht) stop

/-- Of tokens in their order those before an offset come first. -/
theorem filter_start {ts : List Token} (ordered : ts.Pairwise fun t u => t.start < u.start)
    (test : Token → Bool) (n : Nat) : ts.filter test
      = ts.filter (fun t => test t && t.start < n) ++ ts.filter fun t => test t && n ≤ t.start := by
  induction ts with
  | nil => rfl
  | cons t ts ih =>
    obtain ⟨later, ordered⟩ := List.pairwise_cons.1 ordered
    rw [List.filter_cons, ih ordered, List.filter_cons, List.filter_cons]
    by_cases early : t.start < n
    · have late : ¬ n ≤ t.start := by omega
      cases test t <;> simp [early, late]
    · have late : n ≤ t.start := by omega
      have none : ts.filter (fun u => test u && u.start < n) = [] := by
        refine List.filter_eq_nil_iff.2 fun u hu => ?_
        have := later u hu
        simp only [Bool.and_eq_true, decide_eq_true_eq, not_and]
        omega
      rw [none]
      cases test t <;> simp [early, late]

end Token

namespace Format

open Token

theorem depthBehind_other {t : Token} (other : t.isBrace = false) (depth : Nat) :
    depthBehind depth t = some depth := by
  simp only [isBrace, Bool.or_eq_false_iff, decide_eq_false_iff_not] at other
  rw [depthBehind, if_neg other.1, if_neg other.2]

/-- The depth is followed by the braces alone. -/
theorem foldlM_isBrace (ts : List Token) (depth : Nat) :
    (ts.filter isBrace).foldlM depthBehind depth = ts.foldlM depthBehind depth := by
  induction ts generalizing depth with
  | nil => rfl
  | cons t ts ih =>
    cases brace : t.isBrace with
    | false =>
      rw [List.filter_cons_of_neg (by simp [brace]), List.foldlM_cons,
        depthBehind_other brace, Option.bind_eq_bind, Option.bind_some, ih]
    | true =>
      rw [List.filter_cons_of_pos brace, List.foldlM_cons, List.foldlM_cons]
      exact congrArg _ (funext ih)

theorem foldlM_append (ts us : List Token) (depth : Nat) :
    (ts ++ us).foldlM depthBehind depth
      = (ts.foldlM depthBehind depth).bind (us.foldlM depthBehind ·) := List.foldlM_append

theorem depthBehind_eq_some_iff {t : Token} {depth d : Nat} :
    depthBehind depth t = some d ↔ depth + opened [t] = d + closed [t] := by
  simp only [depthBehind, opened_cons, closed_cons, opened_nil, closed_nil]
  by_cases opening : t.kind = .lBrace
  · simp [opening]
  · by_cases closing : t.kind = .rBrace
    · by_cases none : depth = 0
      · simp [closing, none]
      · simp only [closing, none, if_true, if_false, reduceCtorEq, Option.some_inj]
        omega
    · simp [opening, closing]

/-- The depth can be followed as long as no more braces are closed than were open. -/
theorem foldlM_eq_some_iff {ts : List Token} {depth d : Nat} :
    ts.foldlM depthBehind depth = some d ↔
      (∀ front, front <+: ts → closed front ≤ depth + opened front) ∧
        depth + opened ts = d + closed ts := by
  induction ts generalizing depth with
  | nil => simp [List.foldlM_nil, pure, eq_comm]
  | cons t ts ih =>
    have split (us : List Token) : opened (t :: us) = opened [t] + opened us ∧
        closed (t :: us) = closed [t] + closed us :=
      ⟨opened_append [t] us, closed_append [t] us⟩
    rw [List.foldlM_cons, Option.bind_eq_bind, Option.bind_eq_some_iff, (split ts).1, (split ts).2]
    simp only [depthBehind_eq_some_iff, ih]
    constructor
    · rintro ⟨d', step, fronts, total⟩
      refine ⟨fun front hfront => ?_, by omega⟩
      rcases List.prefix_cons_iff.1 hfront with rfl | ⟨front, rfl, inner⟩
      · exact Nat.zero_le _
      · have := fronts front inner
        rw [(split front).1, (split front).2]
        omega
    · rintro ⟨fronts, total⟩
      have some_depth (front : List Token) (hfront : front <+: ts) :
          closed [t] + closed front ≤ depth + (opened [t] + opened front) := by
        rw [← (split front).1, ← (split front).2]
        exact fronts _ (List.cons_prefix_cons.2 ⟨rfl, hfront⟩)
      have first := some_depth [] List.nil_prefix
      rw [opened_nil, closed_nil] at first
      refine ⟨depth + opened [t] - closed [t], by omega, fun front hfront => ?_, by omega⟩
      have := some_depth front hfront
      omega

theorem balanced_iff {ts : List Token} : Balanced ts ↔ ts.foldlM depthBehind 0 = some 0 := by
  simp only [foldlM_eq_some_iff, Nat.zero_add]
  exact ⟨fun h => ⟨h.closed_le, h.closed_eq.symm⟩, fun h => ⟨h.1, h.2.symm⟩⟩

/-- Where the depth can be followed it is at least the number of braces closed first. -/
theorem takeWhile_le {ts : List Token} {depth d : Nat} (h : ts.foldlM depthBehind depth = some d) :
    (ts.takeWhile fun t => t.kind = .rBrace).length ≤ depth := by
  have first := (foldlM_eq_some_iff.1 h).1 _ ( List.takeWhile_prefix fun t => t.kind = .rBrace)
  have closing : ∀ t ∈ ts.takeWhile fun t => t.kind = .rBrace, t.kind = .rBrace :=
    fun t ht => by simpa using List.mem_takeWhile_imp ht
  have all : closed (ts.takeWhile fun t => t.kind = .rBrace)
      = (ts.takeWhile fun t => t.kind = .rBrace).length :=
    List.countP_eq_length.2 fun t ht => by simpa using closing t ht
  have none : opened (ts.takeWhile fun t => t.kind = .rBrace) = 0 :=
    List.countP_eq_zero.2 fun t ht => by simp [closing t ht]
  omega

namespace Line

variable {l : Line} {ts : List Token}

theorem isBrace_tokens (inOrder : InOrder ts) : (l.tokens ts).filter isBrace
    = (ts.filter fun t => decide (t.start < l.stop) && l.start ≤ t.start).filter isBrace := by
  rw [tokens, List.filter_filter, List.filter_filter]
  refine List.filter_congr fun t ht => ?_
  cases brace : t.isBrace with
  | false => rfl
  | true =>
    have stop := inOrder.brace t ht brace
    rw [Bool.true_and, Bool.true_and, Bool.and_comm]
    congr 2
    exact propext (by omega)

/-- The depth behind a line, from the depth at its start. -/
theorem foldlM_before (inOrder : InOrder ts) (order : l.start ≤ l.stop) (depth : Nat) :
    (before l.stop ts).foldlM depthBehind depth
      = ((before l.start ts).foldlM depthBehind depth).bind
          ((l.tokens ts).foldlM depthBehind ·) := by
  have first : ts.filter (fun t => decide (t.start < l.stop) && decide (t.start < l.start))
      = before l.start ts := by
    refine List.filter_congr fun t _ => ?_
    rw [← Bool.decide_and, decide_eq_decide]
    omega
  have on (depth : Nat) : (l.tokens ts).foldlM depthBehind depth
      = (ts.filter fun t => decide (t.start < l.stop) && l.start ≤ t.start).foldlM
          depthBehind depth := by
    rw [← foldlM_isBrace, isBrace_tokens inOrder, foldlM_isBrace]
  rw [before, filter_start inOrder.pairwise_start _ l.start, first, foldlM_append]
  simp only [on]

end Line

end Format

end RouteScript
