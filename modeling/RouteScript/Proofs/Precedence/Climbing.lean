import RouteScript.Proofs.Precedence.Reading
/-!
# Precedence climbing

Instead of one loop for each precedence there may be one for all: it takes any operator that binds
at least as tightly as it should, and reads what stands right of it in the same way, from the next
precedence on. Both read the same, since no loop ever finds an operator that is tighter than those
which it has found before.
-/
namespace RouteScript.Script

/-- Extends `left` by one operator of at least this precedence and what stands right of it. -/
def climbStep (right : Nat → Reader Outcome) (lowest : Nat) (left : Draft) :
    Reader (Draft ⊕ Outcome) := do
  match ← peek with
  | none => return .inr (.ok left)
  | some t =>
    match precedence? t.kind with
    | none => return .inr (.ok left)
    | some precedence =>
      if precedence < lowest then
        return .inr (.ok left)
      let _ ← next
      match ← right (precedence + 1) with
      | .ok operand => return .inl (← join left t operand)
      | .error consumed => return .inr (.error (left :: tokenLeaf t :: consumed))

/-- Operands joined by operators of at least this precedence. Each operator raises it for what
stands right of it, so it is enough to go as deep as there are precedences. -/
def climb (operand : Reader Outcome) : Nat → Nat → Reader Outcome
  | 0, _ => operand
  | depth + 1, lowest => do
    match ← operand with
    | .error consumed => return .error consumed
    | .ok left => repeatUntil (climbStep (climb operand depth) lowest) .ok left

variable {right : Nat → Reader Outcome} {operand : Reader Outcome} {s : Stream} {t : Token}
  {rest : List Token} {left : Draft} {precedence lowest : Nat}

theorem climbStep_goes_on (right : Nat → Reader Outcome) (left : Draft)
    (tokens : s.tokens = t :: rest) (known : precedence? t.kind = some precedence)
    (le : lowest ≤ precedence) :
    climbStep right lowest left s = joinNext (right (precedence + 1)) left t s := by
  simp only [climbStep, bind, StateT.bind, peek, tokens, List.head?_cons, known,
    Nat.not_lt.2 le, if_false, joinNext]
  rcases next s with ⟨_, s'⟩
  dsimp only
  rcases right (precedence + 1) s' with ⟨_ | _, _⟩ <;> rfl

theorem climbStep_ends (right : Nat → Reader Outcome) (left : Draft) (looser : Looser lowest s) :
    climbStep right lowest left s = (.inr (.ok left), s) := by
  simp only [climbStep, bind, StateT.bind, peek]
  cases head : s.tokens.head? with
  | none => rfl
  | some t =>
    dsimp only
    cases known : precedence? t.kind with
    | none => rfl
    | some p =>
      simp only [looser t head p known, if_true]
      rfl

/-- An operator of at least some precedence is next, or none. -/
theorem found_or_looser (lowest : Nat) (s : Stream) :
    (∃ t rest precedence, s.tokens = t :: rest ∧ precedence? t.kind = some precedence ∧
      lowest ≤ precedence) ∨ Looser lowest s := by
  by_cases found : ∃ t p, s.tokens.head? = some t ∧ precedence? t.kind = some p ∧ lowest ≤ p
  · obtain ⟨t, p, head, known, le⟩ := found
    obtain ⟨rest, tokens⟩ := List.head?_eq_some_iff.1 head
    exact .inl ⟨t, rest, p, tokens, known, le⟩
  · exact .inr fun t head p known => Nat.lt_of_not_le fun le => found ⟨t, p, head, known, le⟩

theorem climbStep_advancing (forward : ∀ p, Forward (right p)) (lowest : Nat) :
    Advancing (fun _ => True) (climbStep right lowest) := by
  intro left s _ hs
  unfold Gives
  rcases found_or_looser lowest s with ⟨t, rest, p, tokens, known, le⟩ | looser
  · obtain ⟨passes, further⟩ := passes_joinNext (forward (p + 1)) hs left tokens
    rw [climbStep_goes_on right left tokens known le]
    exact ⟨passes, fun _ _ => ⟨trivial, further⟩⟩
  · rw [climbStep_ends right left looser]
    exact ⟨hs.refl, fun _ eq => by contradiction⟩

/-- Less is left ahead of a stream that is further on. -/
theorem ahead_lt {s' : Stream} (hs : s.Sound) (passes : s.Passes s')
    (further : s.position < s'.position) : s'.size - s'.position < s.size - s.position := by
  have size : s'.size = s.size := passes.size hs
  have bound : s'.position ≤ s'.size := passes.sound.toWhole.position_le
  omega

/-- Loops are the same if their rounds are. -/
theorem repeatUntil_congr {α β : Type} {step step' : α → Reader (α ⊕ β)} {unfinished : α → β}
    (h : Advancing (fun _ => True) step) (same : ∀ a s, s.Sound → step a s = step' a s) (a : α)
    {s : Stream} (hs : s.Sound) :
    repeatUntil step unfinished a s = repeatUntil step' unfinished a s := by
  have h' : Advancing (fun _ => True) step' := fun a s ha hs => by
    have gives := h a s ha hs
    unfold Gives at gives ⊢
    rwa [← same a s hs]
  generalize ahead : s.size - s.position = n
  induction n using Nat.strongRecOn generalizing a s with
  | ind n ih =>
    obtain ⟨passes, further⟩ := h a s trivial hs
    rw [repeatUntil_eq h trivial hs, repeatUntil_eq h' trivial hs, ← same a s hs]
    cases round : step a s with
    | mk result s' =>
      rw [round] at passes further
      cases result with
      | inr b => rfl
      | inl a' =>
        exact ih _ (ahead ▸ ahead_lt hs passes (further a' rfl).2) a' passes.sound rfl

/-- What stands right of an operator, read by one loop for each precedence. -/
def tighter (operand : Reader Outcome) (lowest : Nat) : Reader Outcome :=
  chain operand (tightest + 1 - lowest)

/-- One loop for the operators of at least some precedence. -/
def loop (operand : Reader Outcome) (lowest : Nat) (left : Draft) : Reader Outcome :=
  repeatUntil (climbStep (tighter operand) lowest) .ok left

theorem joinNext_onward {result : Draft ⊕ Outcome} {s' : Stream} (forward : Forward operand)
    (hs : s.Sound) (tokens : s.tokens = t :: rest)
    (round : joinNext operand left t s = (result, s')) :
    s'.Sound ∧ s'.size - s'.position < s.size - s.position := by
  obtain ⟨passes, further⟩ := passes_joinNext forward hs left tokens
  rw [round] at passes further
  exact ⟨passes.sound, ahead_lt hs passes further⟩

/-- A round that finds an operator fails only if the operand behind it does. -/
theorem joinNext_fails {out : Outcome} {s' : Stream}
    (h : joinNext operand left t s = (.inr out, s')) : ∃ consumed, out = .error consumed := by
  unfold joinNext at h
  cases read : operand (next s).2 with
  | mk result s₂ =>
    rw [read] at h
    cases result with
    | ok d => cases h
    | error consumed => exact ⟨_, (Sum.inr.inj (congrArg Prod.fst h)).symm⟩

section Loops

variable (forward : Forward operand)
include forward

theorem loop_advancing (lowest : Nat) :
    Advancing (fun _ => True) (climbStep (tighter operand) lowest) :=
  climbStep_advancing (fun _ => chain_forward forward _) lowest

theorem loop_ends (hs : s.Sound) (left : Draft) (looser : Looser lowest s) :
    loop operand lowest left s = (.ok left, s) := by
  rw [loop, repeatUntil_eq (loop_advancing forward lowest) trivial hs,
    climbStep_ends _ left looser]

theorem loop_goes_on (hs : s.Sound) (left : Draft) (tokens : s.tokens = t :: rest)
    (known : precedence? t.kind = some precedence) (le : lowest ≤ precedence) :
    loop operand lowest left s = match joinNext (tighter operand (precedence + 1)) left t s with
      | (.inl left', s') => loop operand lowest left' s'
      | (.inr out, s') => (out, s') := by
  rw [loop, repeatUntil_eq (loop_advancing forward lowest) trivial hs,
    climbStep_goes_on _ left tokens known le]
  rcases joinNext (tighter operand (precedence + 1)) left t s with ⟨_ | _, _⟩ <;> rfl

variable (plain : ∀ s d s', s.Sound → operand s = (.ok d, s') → d.IsOperand)
include plain

/-- Behind a round no operator is left that could have belonged to its right operand. -/
theorem looser_joinNext {left' : Draft} {s' : Stream} (pos : 1 ≤ lowest)
    (le : lowest ≤ tightest + 1) (hs : s.Sound) (tokens : s.tokens = t :: rest)
    (round : joinNext (tighter operand lowest) left t s = (.inl left', s')) :
    Looser lowest s' := by
  have few : tightest + 1 - lowest ≤ tightest := by omega
  have joins := chain_joins forward plain few _ (passes_next hs tokens).1.sound
  rw [Nat.sub_sub_self le] at joins
  unfold Gives at joins
  unfold joinNext tighter at round
  cases read : chain operand (tightest + 1 - lowest) (next s).2 with
  | mk out s₂ =>
    rw [read] at round joins
    cases out with
    | error consumed => cases round
    | ok right =>
      obtain ⟨-, -, looser⟩ := joins
      obtain ⟨waiting, -, eq⟩ := join_snd left t right s₂
      obtain rfl : (join left t right s₂).2 = s' := congrArg Prod.snd round
      rw [eq]
      exact looser

/-- A loop is the one for the next precedence, and behind it the one for its own precedence. -/
theorem loop_eq (pos : 1 ≤ lowest) (le : lowest ≤ tightest) (left : Draft) (hs : s.Sound) :
    loop operand lowest left s = match loop operand (lowest + 1) left s with
      | (.ok left', s') =>
        repeatUntil (chainStep (tighter operand (lowest + 1)) lowest) .ok left' s'
      | (.error consumed, s') => (.error consumed, s') := by
  have inner (p : Nat) : Forward (tighter operand p) := chain_forward forward _
  have advancing := chainStep_advancing (inner (lowest + 1)) lowest
  generalize ahead : s.size - s.position = n
  induction n using Nat.strongRecOn generalizing left s with
  | ind n ih =>
    rcases found_or_looser lowest s with ⟨t, rest, p, tokens, known, low⟩ | looser
    · rw [loop_goes_on forward hs left tokens known low]
      rcases Nat.eq_or_lt_of_le low with rfl | tight
      · -- the operator is too loose for the inner loop, which comes back to it only in a new round
        have looser : Looser (lowest + 1) s := fun u head q known' => by
          obtain rfl : t = u := by simpa [tokens] using head
          obtain rfl : lowest = q := by simpa [known] using known'
          exact Nat.lt_succ_self _
        rw [loop_ends forward hs left looser]
        dsimp only
        rw [repeatUntil_eq advancing trivial hs, chainStep_goes_on _ left tokens known]
        cases round : joinNext (tighter operand (lowest + 1)) left t s with
        | mk result s' =>
          obtain ⟨sound, less⟩ := joinNext_onward (inner _) hs tokens round
          cases result with
          | inr out => rfl
          | inl left' =>
            have ended := loop_ends forward sound left'
              (looser_joinNext forward plain (by omega) (by omega) hs tokens round)
            dsimp only
            rw [ih _ (ahead ▸ less) left' sound rfl, ended]
      · rw [loop_goes_on forward hs left tokens known tight]
        cases round : joinNext (tighter operand (p + 1)) left t s with
        | mk result s' =>
          obtain ⟨sound, less⟩ := joinNext_onward (inner _) hs tokens round
          cases result with
          | inr out =>
            obtain ⟨consumed, rfl⟩ := joinNext_fails round
            rfl
          | inl left' => exact ih _ (ahead ▸ less) left' sound rfl
    · have looser' : Looser (lowest + 1) s := fun t head p known =>
        Nat.lt_succ_of_lt (looser t head p known)
      rw [loop_ends forward hs left looser, loop_ends forward hs left looser']
      dsimp only
      rw [repeatUntil_eq advancing trivial hs, chainStep_ends _ left fun t head known =>
        absurd (looser t head _ known) (Nat.lt_irrefl _)]

/-- The loops for the tightest precedences, one behind the other, are the one loop for all. -/
theorem chain_eq_loop {levels : Nat} (le : levels ≤ tightest) (hs : s.Sound) :
    chain operand levels s = match operand s with
      | (.ok left, s') => loop operand (tightest + 1 - levels) left s'
      | (.error consumed, s') => (.error consumed, s') := by
  induction levels with
  | zero =>
    rw [chain]
    cases read : operand s with
    | mk out s' =>
      have sound : s'.Sound := (forward.passes hs read).sound
      cases out with
      | error consumed => rfl
      | ok left =>
        exact (loop_ends forward sound left fun t _ p known =>
          Nat.lt_succ_of_le (precedence?_bounds known).2).symm
  | succ levels ih =>
    rw [chain_succ, ih (by omega)]
    cases read : operand s with
    | mk out s' =>
      have sound : s'.Sound := (forward.passes hs read).sound
      cases out with
      | error consumed => rfl
      | ok left =>
        have lowest : tightest + 1 - (levels + 1) + 1 = tightest + 1 - levels := by omega
        have own : tightest - levels = tightest + 1 - (levels + 1) := by omega
        have inner : tighter operand (tightest + 1 - levels) = chain operand levels :=
          congrArg (chain operand) (Nat.sub_sub_self (by omega))
        have pos : 1 ≤ tightest + 1 - (levels + 1) := by omega
        have loops := loop_eq forward plain pos (by omega) left sound
        rw [lowest, inner, ← own] at loops
        dsimp only
        rw [← own]
        refine Eq.trans ?_ loops.symm
        rcases loop operand (tightest + 1 - levels) left s' with ⟨_ | _, _⟩ <;> rfl

/-- Precedence climbing reads what one loop for each precedence reads. -/
theorem climb_eq_tighter {depth : Nat} (pos : 1 ≤ lowest) (le : lowest ≤ tightest + 1)
    (deep : tightest < depth + lowest) (hs : s.Sound) :
    climb operand depth lowest s = tighter operand lowest s := by
  induction depth generalizing lowest s with
  | zero =>
    have none : tightest + 1 - lowest = 0 := by omega
    rw [climb, tighter, none, chain]
  | succ depth ih =>
    have rounds (left : Draft) (s : Stream) (hs : s.Sound) :
        climbStep (tighter operand) lowest left s =
          climbStep (climb operand depth) lowest left s := by
      rcases found_or_looser lowest s with ⟨t, rest, p, tokens, known, low⟩ | looser
      · have most : p ≤ tightest := (precedence?_bounds known).2
        have pos : 1 ≤ p + 1 := Nat.le_add_left 1 p
        have behind := ih pos (by omega) (by omega) (passes_next hs tokens).1.sound
        rw [climbStep_goes_on _ left tokens known low, climbStep_goes_on _ left tokens known low,
          joinNext, joinNext, behind]
      · rw [climbStep_ends _ left looser, climbStep_ends _ left looser]
    rw [tighter, chain_eq_loop forward plain (by omega) hs, Nat.sub_sub_self le]
    simp only [climb, bind, StateT.bind]
    cases read : operand s with
    | mk out s' =>
      have sound : s'.Sound := (forward.passes hs read).sound
      cases out with
      | error consumed => rfl
      | ok left =>
        exact (repeatUntil_congr (loop_advancing forward lowest) rounds left sound).symm

end Loops

/-- All operators bind at least as tightly as the loosest, so climbing may start below it. -/
theorem climb_zero (operand : Reader Outcome) (depth : Nat) (s : Stream) :
    climb operand depth 0 s = climb operand depth 1 s := by
  cases depth with
  | zero => rfl
  | succ depth =>
    have rounds : climbStep (climb operand depth) 0 = climbStep (climb operand depth) 1 := by
      funext left s
      rcases found_or_looser 1 s with ⟨t, rest, p, tokens, known, low⟩ | looser
      · rw [climbStep_goes_on _ left tokens known (Nat.zero_le p),
          climbStep_goes_on _ left tokens known low]
      · have none : Looser 0 s := fun t head p known =>
          absurd (looser t head p known) (Nat.not_lt.2 (precedence?_bounds known).1)
        rw [climbStep_ends _ left none, climbStep_ends _ left looser]
    rw [climb, climb, rounds]

end RouteScript.Script
