import RouteScript.Proofs.Precedence.Statement
/-!
# Operators from left to right

Operands joined by binary operators are read to the last of them, so that no operator follows. Their
tree is the one of the sequence in which they were read; if an operand cannot be read, what is left
are the trees of those before it, with the operators that wait for it.
-/
namespace RouteScript.Script

open Draft

variable {operand : Reader Outcome} {s : Stream} {t : Token} {rest : List Token} {left : Draft}
  {precedence levels : Nat}

/-- The reader goes on in the source. -/
def Forward {α : Type} (r : Reader α) : Prop := ∀ s : Stream, s.Sound → s.Passes (r s).2

theorem Forward.passes {α : Type} {r : Reader α} {a : α} {s' : Stream} (forward : Forward r)
    (hs : s.Sound) (read : r s = (a, s')) : s.Passes s' := by
  have passes := forward s hs
  rwa [read] at passes

/-- The node of an operator between its operands. -/
def join (left : Draft) (t : Token) (right : Draft) : Reader Draft := do
  return wrap (← node Kind.binary [left.withField Field.left,
    (tokenLeaf t).withField Field.operator, right.withField Field.right])

theorem join_snd (left : Draft) (t : Token) (right : Draft) (s : Stream) :
    ∃ waiting, waiting.Sublist s.waiting ∧ (join left t right s).2 = { s with waiting } :=
  ⟨_, List.filter_sublist, rfl⟩

theorem passes_join (hs : s.Sound) (left : Draft) (t : Token) (right : Draft) :
    s.Passes (join left t right s).2 := by
  obtain ⟨waiting, fewer, eq⟩ := join_snd left t right s
  exact eq ▸ hs.drop_waiting fun d hd => fewer.subset hd

/-- What a round of a loop does that finds an operator. -/
def joinNext (operand : Reader Outcome) (left : Draft) (t : Token) (s : Stream) :
    (Draft ⊕ Outcome) × Stream :=
  match operand (next s).2 with
  | (.ok right, s') => (.inl (join left t right s').1, (join left t right s').2)
  | (.error consumed, s') => (.inr (.error (left :: tokenLeaf t :: consumed)), s')

theorem chainStep_goes_on (operand : Reader Outcome) (left : Draft) (tokens : s.tokens = t :: rest)
    (known : precedence? t.kind = some precedence) :
    chainStep operand precedence left s = joinNext operand left t s := by
  have same : (precedence? t.kind != some precedence) = false := by simp [known]
  simp only [chainStep, bind, StateT.bind, peek, tokens, List.head?_cons, same, joinNext,
    Bool.false_eq_true, if_false]
  rcases next s with ⟨_, s'⟩
  dsimp only
  rcases operand s' with ⟨_ | _, _⟩ <;> rfl

theorem chainStep_ends (operand : Reader Outcome) (left : Draft)
    (none : ∀ t, s.tokens.head? = some t → precedence? t.kind ≠ some precedence) :
    chainStep operand precedence left s = (.inr (.ok left), s) := by
  simp only [chainStep, bind, StateT.bind, peek]
  cases head : s.tokens.head? with
  | none => rfl
  | some t =>
    have other : (precedence? t.kind != some precedence) = true := by simpa using none t head
    simp only [other]
    rfl

theorem passes_joinNext (forward : Forward operand) (hs : s.Sound) (left : Draft)
    (tokens : s.tokens = t :: rest) : s.Passes (joinNext operand left t s).2 ∧
      s.position < (joinNext operand left t s).2.position := by
  obtain ⟨passes, further⟩ := passes_next hs tokens
  have passes' := forward _ passes.sound
  unfold joinNext
  cases read : operand (next s).2 with
  | mk out s' =>
    rw [read] at passes'
    have beyond := Nat.lt_of_lt_of_le further passes'.position
    cases out with
    | ok right =>
      exact ⟨(passes.trans passes').trans (passes_join passes'.sound _ _ _), beyond⟩
    | error consumed => exact ⟨passes.trans passes', beyond⟩

theorem chainStep_advancing (forward : Forward operand) (precedence : Nat) :
    Advancing (fun _ => True) (chainStep operand precedence) := by
  intro left s _ hs
  by_cases found : ∃ t, s.tokens.head? = some t ∧ precedence? t.kind = some precedence
  · obtain ⟨t, head, known⟩ := found
    obtain ⟨rest, tokens⟩ := List.head?_eq_some_iff.1 head
    obtain ⟨passes, further⟩ := passes_joinNext forward hs left tokens
    unfold Gives
    rw [chainStep_goes_on operand left tokens known]
    exact ⟨passes, fun _ _ => ⟨trivial, further⟩⟩
  · unfold Gives
    rw [chainStep_ends operand left fun t head known => found ⟨t, head, known⟩]
    exact ⟨hs.refl, fun _ eq => by contradiction⟩

theorem chain_succ (operand : Reader Outcome) (levels : Nat) (s : Stream) :
    chain operand (levels + 1) s = match chain operand levels s with
      | (.ok left, s') =>
        repeatUntil (chainStep (chain operand levels) (tightest - levels)) .ok left s'
      | (.error consumed, s') => (.error consumed, s') := by
  simp only [chain, bind, StateT.bind]
  rcases chain operand levels s with ⟨_ | _, _⟩ <;> rfl

theorem chain_forward (forward : Forward operand) (levels : Nat) :
    Forward (chain operand levels) := by
  induction levels with
  | zero => exact forward
  | succ levels ih =>
    intro s hs
    have passes := ih s hs
    rw [chain_succ]
    cases read : chain operand levels s with
    | mk out s' =>
      rw [read] at passes
      cases out with
      | error consumed => exact passes
      | ok left =>
        change Gives
          (repeatUntil (chainStep (chain operand levels) (tightest - levels)) .ok left) s'
          fun _ s'' => s.Passes s''
        refine gives_repeatUntil (chainStep_advancing ih _) (fun _ s'' => s.Passes s'')
          (fun left s'' _ hs' kept => ?_) trivial passes.sound passes
        have onward := (chainStep_advancing ih (tightest - levels) left s'' trivial hs').1
        unfold Gives
        cases (chainStep (chain operand levels) (tightest - levels) left s'').1 <;>
          exact kept.trans onward

/-- The leaf of an operator in its node. -/
def operatorLeaf (t : Token) : Draft := (tokenLeaf t).withField Field.operator

/-- Operands, each with an operator behind it, that are read from one stream on to another. Nodes
may take comments that wait behind an operand. -/
inductive OpenStrand (operand : Reader Outcome) : Stream → List (Draft ⊕ Draft) → Stream → Prop
  | start (s : Stream) : OpenStrand operand s [] s
  | next {s s₁ s₂ : Stream} {items : List (Draft ⊕ Draft)} {d : Draft} {waiting : List Draft}
      {t : Token} {rest : List Token} (before : OpenStrand operand s items s₁)
      (read : operand s₁ = (.ok d, s₂)) (fewer : waiting.Sublist s₂.waiting)
      (tokens : s₂.tokens = t :: rest) (known : (precedence? t.kind).isSome) :
      OpenStrand operand s (items ++ [.inl (unwrap d), .inr (operatorLeaf t)])
        (Script.next { s₂ with waiting }).2

/-- Operands with operators between them. -/
def Strand (operand : Reader Outcome) (s : Stream) (items : List (Draft ⊕ Draft)) (s' : Stream) :
    Prop :=
  ∃ front s₁ d s₂ waiting, OpenStrand operand s front s₁ ∧ operand s₁ = (.ok d, s₂) ∧
    waiting.Sublist s₂.waiting ∧ s' = { s₂ with waiting } ∧ items = front ++ [.inl (unwrap d)]

/-- What is left of operands, each with the operator behind it, when the next one fails. -/
def Fails (operand : Reader Outcome) (s : Stream) (consumed : List Draft) (s' : Stream) : Prop :=
  ∃ (kept : List (Draft × Token)) (s₁ : Stream) (failed : List Draft),
    OpenStrand operand s
        (kept.flatMap fun k => k.1.operation.flat ++ [.inr (operatorLeaf k.2)]) s₁ ∧
      operand s₁ = (.error failed, s') ∧
      consumed = (kept.flatMap fun k => [k.1, tokenLeaf k.2]) ++ failed

/-- If an operator stands next, it binds looser than this. -/
def Looser (low : Nat) (s : Stream) : Prop :=
  ∀ t, s.tokens.head? = some t → ∀ p, precedence? t.kind = some p → p < low

section Sequences

variable {s s' s'' : Stream} {items items' front : List (Draft ⊕ Draft)} {waiting : List Draft}

theorem OpenStrand.trans (h : OpenStrand operand s items s')
    (h' : OpenStrand operand s' items' s'') :
    OpenStrand operand s (items ++ items') s'' := by
  induction h' with
  | start => rwa [List.append_nil]
  | next _ read fewer tokens known ih =>
    rw [← List.append_assoc]
    exact .next ih read fewer tokens known

theorem Strand.next (h : Strand operand s items s') (tokens : s'.tokens = t :: rest)
    (known : (precedence? t.kind).isSome) :
    OpenStrand operand s (items ++ [.inr (operatorLeaf t)]) (Script.next s').2 := by
  obtain ⟨front, s₁, d, s₂, waiting, before, read, fewer, rfl, rfl⟩ := h
  rw [List.append_assoc]
  exact .next before read fewer tokens known

theorem OpenStrand.strand (h : OpenStrand operand s front s') (h' : Strand operand s' items s'') :
    Strand operand s (front ++ items) s'' := by
  obtain ⟨front', s₁, d, s₂, waiting, before, read, fewer, rfl, rfl⟩ := h'
  exact ⟨_, s₁, d, s₂, waiting, h.trans before, read, fewer, rfl, (List.append_assoc _ _ _).symm⟩

theorem Strand.drop (h : Strand operand s items s') (fewer : waiting.Sublist s'.waiting) :
    Strand operand s items { s' with waiting } := by
  obtain ⟨front, s₁, d, s₂, waiting', before, read, fewer', rfl, rfl⟩ := h
  exact ⟨front, s₁, d, s₂, waiting, before, read, fewer.trans fewer', rfl, rfl⟩

theorem OpenStrand.fails {left : Draft} {consumed : List Draft}
    (h : OpenStrand operand s (left.operation.flat ++ [.inr (operatorLeaf t)]) s')
    (h' : Fails operand s' consumed s'') :
    Fails operand s (left :: tokenLeaf t :: consumed) s'' := by
  obtain ⟨kept, s₁, failed, before, read, rfl⟩ := h'
  exact ⟨(left, t) :: kept, s₁, failed, h.trans before, read, rfl⟩

end Sequences

/-- What operands joined by operators give: a tree of all of them, or what was left of them. -/
def Joins (operand : Reader Outcome) (low : Nat) (s : Stream) : Outcome → Stream → Prop
  | .ok d, s' => (∃ inner, d = wrap inner) ∧ Strand operand s d.operation.flat s' ∧ Looser low s'
  | .error consumed, s' => Fails operand s consumed s'

theorem operation_eq_of_unwrap {d e : Draft} (h : unwrap d = unwrap e) :
    d.operation = e.operation := by
  cases parts : (unwrap d).operands? with
  | none => rw [operation_operand parts, operation_operand (d := e) (h ▸ parts), h]
  | some parts' =>
    obtain ⟨left, operator, right⟩ := parts'
    rw [operation_join parts, operation_join (d := e) (h ▸ parts)]

theorem operation_of_isOperand {d : Draft} (h : d.IsOperand) :
    d.operation = .operand (unwrap d) := by
  obtain ⟨inner, rfl, plain⟩ := h
  refine operation_operand (Option.eq_none_iff_forall_ne_some.2 fun parts eq => ?_)
  exact plain ((operands?_eq_some_iff.1 eq).1 ▸ List.mem_cons_self)

theorem join_operation {s : Stream} (hs : s.Sound) (a : Draft) (t : Token) (b : Draft) :
    ∃ inner, (join (wrap a) t (wrap b) s).1 = wrap inner ∧ (wrap inner).operation
      = .join (wrap a).operation (operatorLeaf t) (wrap b).operation := by
  let given := [(wrap a).withField Field.left, operatorLeaf t, (wrap b).withField Field.right]
  have notExtra : ((absorb given s).1.filter fun c => !c.label.extra) = given :=
    (Checks.absorb given hs rfl).2.2.trans <| List.filter_eq_self.2 <| by
      simp [given, operatorLeaf, label_withField, (isLeaf_tokenLeaf t).structural, wrap_notExtra]
  have parts : (branch Kind.binary (absorb given s).1).operands? = some
      ((wrap a).withField Field.left, operatorLeaf t, (wrap b).withField Field.right) :=
    operands?_eq_some_iff.2 ⟨rfl, notExtra⟩
  refine ⟨branch Kind.binary (absorb given s).1, rfl, ?_⟩
  rw [operation_join (d := wrap (branch Kind.binary (absorb given s).1)) parts,
    operation_eq_of_unwrap (d := (wrap a).withField Field.left) (e := wrap a) rfl,
    operation_eq_of_unwrap (d := (wrap b).withField Field.right) (e := wrap b) rfl]

/-- A round that finds an operator joins what was read with what stands behind it. -/
theorem joinNext_joins {inner : Reader Outcome} {low : Nat} {s s' : Stream}
    (forward : Forward inner) (h : ∀ s : Stream, s.Sound → Gives inner s (Joins operand low s))
    (kept : Joins operand low s (.ok left) s') (hs' : s'.Sound) (tokens : s'.tokens = t :: rest)
    (known : (precedence? t.kind).isSome) (low' : Nat) :
    Sum.elim (fun d => Joins operand low s (.ok d)) (Joins operand low' s)
      (joinNext inner left t s').1 (joinNext inner left t s').2 := by
  obtain ⟨⟨a, rfl⟩, strand, _⟩ := kept
  have before := strand.next tokens known
  obtain ⟨onward, _⟩ := passes_next hs' tokens
  have later := h _ onward.sound
  have onward' := forward _ onward.sound
  unfold Gives at later
  unfold joinNext
  cases read : inner (next s').2 with
  | mk out s₂ =>
    rw [read] at later onward'
    cases out with
    | error consumed => exact before.fails later
    | ok right =>
      obtain ⟨⟨b, rfl⟩, strand', looser⟩ := later
      obtain ⟨inner, made, operation⟩ := join_operation onward'.sound a t b
      obtain ⟨waiting, fewer, eq⟩ := join_snd (wrap a) t (wrap b) s₂
      refine ⟨⟨inner, made⟩, ?_, ?_⟩
      · rw [made, operation, eq, OperatorTree.flat, ← List.singleton_append, ← List.append_assoc]
        exact (before.strand strand').drop fewer
      · rw [eq]
        exact looser

/-- A round of a loop goes on with an operator of its precedence, or none of this precedence follows
any more. -/
theorem chainStep_joins {inner : Reader Outcome} {s s' : Stream} (forward : Forward inner)
    (h : ∀ s : Stream, s.Sound → Gives inner s (Joins operand (precedence + 1) s))
    (kept : Joins operand (precedence + 1) s (.ok left) s') (hs' : s'.Sound) :
    Gives (chainStep inner precedence left) s'
      (Sum.elim (fun d => Joins operand (precedence + 1) s (.ok d)) (Joins operand precedence s)) := by
  unfold Gives
  by_cases found : ∃ t, s'.tokens.head? = some t ∧ precedence? t.kind = some precedence
  · obtain ⟨t, head, known⟩ := found
    obtain ⟨rest, tokens⟩ := List.head?_eq_some_iff.1 head
    rw [chainStep_goes_on _ _ tokens known]
    exact joinNext_joins forward h kept hs' tokens (by rw [known]; rfl) precedence
  · rw [chainStep_ends _ _ fun t head known => found ⟨t, head, known⟩]
    refine ⟨kept.1, kept.2.1, fun t head p known => ?_⟩
    have low := kept.2.2 t head p known
    have other : p ≠ precedence := fun same => found ⟨t, head, same ▸ known⟩
    omega

section Chains

variable (forward : Forward operand)
  (plain : ∀ s d s', s.Sound → operand s = (.ok d, s') → d.IsOperand)

include plain

/-- An operand alone is a sequence without an operator, and no operator binds tighter. -/
theorem operand_joins (s : Stream) (hs : s.Sound) :
    Gives operand s (Joins operand (tightest + 1) s) := by
  unfold Gives
  cases read : operand s with
  | mk out s' =>
    cases out with
    | error consumed => exact ⟨[], s, consumed, .start s, read, rfl⟩
    | ok d =>
      have single := plain s d s' hs read
      have strand : Strand operand s d.operation.flat s' := by
        rw [operation_of_isOperand single]
        exact ⟨[], s, d, s', _, .start s, read, .refl _, rfl, rfl⟩
      exact ⟨single.imp fun _ eq => eq.1, strand,
        fun t _ p known => Nat.lt_succ_of_le (precedence?_bounds known).2⟩

include forward

/-- Operands joined by operators of at least some precedence are read from left to right, until an
operator follows that binds looser or an operand fails. -/
theorem chain_joins (le : levels ≤ tightest) (s : Stream) (hs : s.Sound) :
    Gives (chain operand levels) s (Joins operand (tightest + 1 - levels) s) := by
  induction levels generalizing s with
  | zero => exact operand_joins plain s hs
  | succ levels ih =>
    have next : tightest + 1 - levels = tightest - levels + 1 := by omega
    have ih (s : Stream) (hs : s.Sound) := next ▸ ih (by omega) s hs
    have inner := chain_forward forward levels
    have first := ih s hs
    unfold Gives at first ⊢
    rw [chain_succ, Nat.add_sub_add_right]
    cases read : chain operand levels s with
    | mk out s' =>
      have sound : s'.Sound := (inner.passes hs read).sound
      rw [read] at first
      cases out with
      | error consumed => exact first
      | ok left =>
        have rounds : Gives
            (repeatUntil (chainStep (chain operand levels) (tightest - levels)) .ok left) s'
            (Joins operand (tightest - levels) s) :=
          gives_repeatUntil (chainStep_advancing inner _)
            (fun left s' => Joins operand (tightest - levels + 1) s (.ok left) s')
            (fun _ _ _ sound kept => (chainStep_joins inner ih kept sound).mono fun result _ h => by
              cases result <;> exact h) trivial sound first
        exact rounds

end Chains

end RouteScript.Script
