import RouteScript.Proofs.Lossless.Items
/-!
# Loops without a bound

The loops of the grammar have a bound on their rounds, which they never reach. `Finishes` carries a
reading out with loops that have none and end by themselves only, and lists the turns behind which a
loop went on. A reader halts at a stream if this gives what the reader gives there, and all the
turns go on in the source. The number of tokens ahead is no measure for that: markup may turn few of
them into many, and a group that does not close is taken back. The place of the next one is.
-/
namespace RouteScript.Script

variable {α β σ : Type}

/-- From one stream to a sound one further on in the same source. -/
def Stream.Further (s s' : Stream) : Prop := s.Passes s' ∧ s.position < s'.position

/-- A turn of a loop behind which the loop goes on. -/
inductive Turn where
  /-- Of a loop over tokens, from one stream to another. -/
  | tokens (before after : Stream)
  /-- Of the loop over markup, from one offset to another. -/
  | markup (before after : Nat)

/-- A turn that takes something of this source. -/
def Turn.GoesOn (source : List Char) : Turn → Prop
  | tokens before after => before.Sound ∧ before.source = source ∧ before.Further after
  | markup before after => before < after ∧ after ≤ Text.size source

/-- One turn over markup: its leaves, the open elements if the loop goes on, and what is behind. -/
def markupStep (depth : Int) (offset : Nat) : List Char → List Draft × Option Int × Nat × List Char
  | [] => ([], none, offset, [])
  | c :: rest =>
    if c ≠ '<' then
      let run := (c :: rest).takeWhile (· ≠ '<')
      (textLeaves offset run, some depth, offset + Text.size run,
        (c :: rest).dropWhile (· ≠ '<'))
    else
      match (c :: rest).dropWhile (· ≠ '>') with
      | [] =>
        let stop := offset + Text.size (c :: rest)
        ([.leaf Kind.error true offset stop], none, stop, [])
      | close :: after =>
        let tag := (c :: rest).takeWhile (· ≠ '>') ++ [close]
        let stop := offset + Text.size tag
        let depth := depth + tagDepth tag
        let gap := after.takeWhile Text.isBlank
        ([.leaf Kind.xmlTag true offset stop],
          if depth > 0 then (some depth, stop, after)
          else if (Text.trimStart after).head? = some '<' then
            (some depth, stop + Text.size gap, Text.trimStart after)
          else (none, stop, after))

/-- The loop over markup: the leaves it gives, and the offset and text behind it. -/
inductive Scans : Int → Nat → List Char → List Draft → Nat × List Char → List Turn → Prop
  | ends {depth : Int} {offset stop : Nat} {text rest : List Char} {leaves : List Draft}
      (last : markupStep depth offset text = (leaves, none, stop, rest)) :
      Scans depth offset text leaves (stop, rest) []
  | again {depth depth' : Int} {offset stop : Nat} {text rest : List Char}
      {leaves leaves' : List Draft} {behind : Nat × List Char} {turns : List Turn}
      (turn : markupStep depth offset text = (leaves, some depth', stop, rest))
      (more : Scans depth' stop rest leaves' behind turns) :
      Scans depth offset text (leaves ++ leaves') behind (.markup offset stop :: turns)

/-- The steps of a reader. None of them has a loop that reads on. -/
inductive IsStep : {α : Type} → Reader α → Prop
  | pure {α : Type} (a : α) : IsStep (Pure.pure a)
  | peek : IsStep peek
  | peekKind : IsStep peekKind
  | peekSecondKind : IsStep peekSecondKind
  | next : IsStep next
  | absorb (children : List Draft) : IsStep (absorb children)
  | place (children : List Draft) (item : Draft) : IsStep (place children item)
  | flush (children : List Draft) : IsStep (flush children)

/--
Reading from a stream ends, with a result and at another stream, through these turns. Steps follow
one another; a loop has its own rules only, by which it has to come to an end.
-/
inductive Finishes : {α : Type} → Reader α → Stream → α → Stream → List Turn → Prop
  | step {α : Type} {r : Reader α} {s : Stream} (h : IsStep r) : Finishes r s (r s).1 (r s).2 []
  | bind {α β : Type} {x : Reader α} {k : α → Reader β} {s s₁ s₂ : Stream} {a : α} {b : β}
      {turns turns' : List Turn} (first : Finishes x s a s₁ turns)
      (rest : Finishes (k a) s₁ b s₂ turns') : Finishes (x >>= k) s b s₂ (turns ++ turns')
  | ends {α β : Type} {step : α → Reader (α ⊕ β)} {unfinished : α → β} {a : α} {b : β}
      {s s' : Stream} {turns : List Turn} (last : Finishes (step a) s (.inr b) s' turns) :
      Finishes (repeatUntil step unfinished a) s b s' turns
  | again {α β : Type} {step : α → Reader (α ⊕ β)} {unfinished : α → β} {a a' : α} {b : β}
      {s s₁ s₂ : Stream} {turns turns' : List Turn}
      (turn : Finishes (step a) s (.inl a') s₁ turns)
      (more : Finishes (repeatUntil step unfinished a') s₁ b s₂ turns') :
      Finishes (repeatUntil step unfinished a) s b s₂ (turns ++ .tokens s s₁ :: turns')
  | refuse {σ : Type} {step : σ → Token → Option σ} {state : σ} {s : Stream}
      (last : ∀ t, s.tokens.head? = some t → step state t = none) :
      Finishes (collect step state) s (state, []) s []
  | accept {σ : Type} {step : σ → Token → Option σ} {state state' final : σ} {s s' : Stream}
      {t : Token} {leaves : List Draft} {turns : List Turn} (head : s.tokens.head? = some t)
      (turn : step state t = some state')
      (more : Finishes (collect step state') (next s).2 (final, leaves) s' turns) :
      Finishes (collect step state) s (final, tokenLeaf t :: leaves) s'
        (.tokens s (next s).2 :: turns)
  | balanced {opening closing : Token.Kind} {s s' : Stream} {final : Group} {leaves : List Draft}
      {turns : List Turn}
      (group : Finishes (collect (Group.step opening closing) ⟨0, false, false⟩) s (final, leaves)
        s' turns) :
      Finishes (balanced opening closing) s (if final.closed then some leaves else none)
        (if final.closed then s' else s) turns
  | markup {s s' : Stream} {t : Token} {leaves : List Draft} {offset : Nat} {rest : List Char}
      {d : Draft} {turns turns' : List Turn} (head : s.tokens.head? = some t)
      (scan : Scans 0 t.start ((Text.after? s.source t.start).getD []) leaves (offset, rest) turns)
      (xml : Finishes (node Kind.xml leaves)
        ({ s with tokens := Token.allFrom offset false rest } : Stream).settle d s' turns') :
      Finishes markup s d s' (turns ++ turns')

/-- At a sound stream, reading without a bound on the loops ends with what the reader gives. -/
def Halts (r : Reader α) (s : Stream) : Prop :=
  s.Sound → s.Passes (r s).2 ∧
    ∃ turns, Finishes r s (r s).1 (r s).2 turns ∧ ∀ turn ∈ turns, turn.GoesOn s.source

theorem IsStep.passes {r : Reader α} (h : IsStep r) {s : Stream} (hs : s.Sound) :
    s.Passes (r s).2 := by
  cases h with
  | pure a => exact hs.refl
  | peek => exact hs.refl
  | peekKind => exact hs.refl
  | peekSecondKind => exact hs.refl
  | next =>
    cases tokens : s.tokens with
    | nil => simpa [Script.next, tokens] using hs.refl
    | cons t rest => exact (passes_next hs tokens).1
  | absorb children => exact hs.drop_waiting fun d hd => (List.mem_filter.1 hd).1
  | place children item => exact hs.drop_waiting fun d hd => (List.mem_filter.1 hd).1
  | flush children => exact hs.drop_waiting (by simp)

namespace Halts

theorem step {r : Reader α} (h : IsStep r) (s : Stream) : Halts r s := fun hs =>
  ⟨h.passes hs, [], .step h, by simp⟩

theorem pure (a : α) (s : Stream) : Halts (Pure.pure a) s := .step (.pure a) s

/-- What is known of the first result and the stream behind it may be used for the rest. -/
theorem bindGives {x : Reader α} {k : α → Reader β} {s : Stream} {mid : α → Stream → Prop}
    (first : Halts x s) (known : s.Sound → Gives x s mid)
    (rest : ∀ a s', mid a s' → Halts (k a) s') : Halts (x >>= k) s := by
  intro hs
  obtain ⟨passes, turns, finishes, onward⟩ := first hs
  obtain ⟨passes', turns', finishes', onward'⟩ := rest _ _ (known hs) passes.sound
  rw [passes.source] at onward'
  exact ⟨passes.trans passes', turns ++ turns', .bind finishes finishes', fun turn ht =>
    (List.mem_append.1 ht).elim (onward turn) (onward' turn)⟩

theorem bind {x : Reader α} {k : α → Reader β} {s : Stream} (first : Halts x s)
    (rest : ∀ a s', Halts (k a) s') : Halts (x >>= k) s := by
  have nothing : s.Sound → Gives x s fun _ _ => True := fun _ => trivial
  exact bindGives first nothing fun a s' _ => rest a s'

theorem peek {k : Option Token → Reader β} {s : Stream}
    (none : s.tokens = [] → Halts (k .none) s)
    (some : ∀ t rest, s.tokens = t :: rest → Halts (k (.some t)) s) :
    Halts (Script.peek >>= k) s := by
  have seen : s.Sound → Gives Script.peek s fun o s' => s' = s ∧ o = s.tokens.head? :=
    fun _ => ⟨rfl, rfl⟩
  refine bindGives (.step .peek s) seen ?_
  rintro o s' ⟨rfl, rfl⟩
  cases tokens : s'.tokens with
  | nil => exact none tokens
  | cons t rest => exact some t rest tokens

theorem isAt {kind : Token.Kind} {k : Bool → Reader β} {s : Stream}
    (yes : ∀ t rest, s.tokens = t :: rest → t.kind = kind → Halts (k true) s)
    (no : Halts (k false) s) : Halts (Script.isAt kind >>= k) s := by
  have seen : s.Sound → Gives (Script.isAt kind) s fun b s' =>
      s' = s ∧ b = (s.tokens.head?.map Token.kind == .some kind) := fun _ => ⟨rfl, rfl⟩
  refine bindGives (.bind (.step .peekKind s) fun _ _ => .pure _ _) seen ?_
  rintro b s' ⟨rfl, rfl⟩
  cases tokens : s'.tokens with
  | nil => exact no
  | cons t rest =>
    by_cases same : t.kind = kind
    · simpa [same] using yes t rest tokens same
    · simpa [beq_false_of_ne same] using no

end Halts

section Steps

variable (s : Stream)

theorem isAtWord_halts (word : String) : Halts (isAtWord word) s :=
  .bind (.step .peek s) fun t _ => by cases t <;> exact .pure _ _

theorem isAdjacent_halts (offset : Nat) (kind : Token.Kind) : Halts (isAdjacent offset kind) s :=
  .bind (.step .peek s) fun t _ => by cases t <;> exact .pure _ _

theorem nextLeaf_halts : Halts nextLeaf s := .bind (.step .next s) fun _ _ => .pure _ _

theorem nextKeyword_halts : Halts nextKeyword s := .bind (.step .next s) fun _ _ => .pure _ _

theorem optionalLeaf_halts (kind : Token.Kind) : Halts (optionalLeaf kind) s :=
  .isAt (fun _ _ _ _ => nextLeaf_halts s) (.pure _ s)

theorem node_halts (kind : String) (children : List Draft) : Halts (node kind children) s :=
  .bind (.step (.absorb children) s) fun _ _ => .pure _ _

theorem errorNode_halts (children : List Draft) : Halts (errorNode children) s :=
  .bind (.step (.absorb children) s) fun _ _ => .pure _ _

theorem errorNodes_halts (children : List Draft) : Halts (errorNodes children) s := by
  unfold errorNodes
  split
  · exact .pure _ s
  · exact .bind (errorNode_halts s children) fun _ _ => .pure _ _

end Steps

/-- A loop halts if its turns do and go on. -/
theorem Halts.repeatUntil {inv : α → Prop} {step : α → Reader (α ⊕ β)} {unfinished : α → β}
    (advancing : Advancing inv step) (turn : ∀ a s, inv a → Halts (step a) s) {a : α} (ha : inv a)
    (s : Stream) : Halts (Script.repeatUntil step unfinished a) s := by
  intro hs
  -- On what is left of the source: the tokens ahead may become more.
  generalize left : s.size - s.position = n
  induction n using Nat.strongRecOn generalizing a s with
  | ind n ih =>
    obtain ⟨passes, next⟩ := advancing a s ha hs
    obtain ⟨-, turns, finishes, onward⟩ := turn a s ha hs
    rw [repeatUntil_eq advancing ha hs]
    cases taken : step a s with
    | mk result s' =>
      rw [taken] at passes next finishes
      cases result with
      | inr b => exact ⟨passes, turns, .ends finishes, onward⟩
      | inl a' =>
        obtain ⟨ha', further⟩ : inv a' ∧ s.position < s'.position := next a' rfl
        have size : s'.size = s.size := passes.size hs
        have bound : s'.position ≤ s'.size := passes.sound.toWhole.position_le
        obtain ⟨passes', turns', finishes', onward'⟩ :=
          ih _ (by omega) ha' s' passes.sound rfl
        rw [show s'.source = s.source from passes.source] at onward'
        refine ⟨passes.trans passes', turns ++ .tokens s s' :: turns', .again finishes finishes',
          fun turn ht => ?_⟩
        rcases List.mem_append.1 ht with ht | ht
        · exact onward turn ht
        · rcases List.mem_cons.1 ht with rfl | ht
          · exact ⟨hs, rfl, passes, further⟩
          · exact onward' turn ht

/-- Comments at the head of the tokens are taken in any case. -/
theorem takeSteps_trivia (step : σ → Token → Option σ) (state : σ) (ts : List Token) :
    takeSteps step state ts =
      ((takeSteps step state (ts.dropWhile Token.isTrivia)).1,
        ts.takeWhile Token.isTrivia ++ (takeSteps step state (ts.dropWhile Token.isTrivia)).2.1,
        (takeSteps step state (ts.dropWhile Token.isTrivia)).2.2) := by
  induction ts with
  | nil => rfl
  | cons t ts ih =>
    cases trivia : t.isTrivia with
    | true =>
      rw [takeSteps, if_pos trivia, ih, List.takeWhile_cons_of_pos trivia,
        List.dropWhile_cons_of_pos trivia]
      rfl
    | false => simp [trivia]

theorem collect_refuse {step : σ → Token → Option σ} {state : σ} {s : Stream} (hs : s.Sound)
    (last : ∀ t, s.tokens.head? = some t → step state t = none) :
    collect step state s = ((state, []), s) := by
  obtain ⟨source, size, waiting, tokens⟩ := s
  cases tokens with
  | nil => simp [collect, takeSteps]
  | cons t rest =>
    have significant : t.isTrivia = false := by
      simpa [Token.isSignificant] using hs.settled t rfl
    simp [collect, takeSteps, significant, last t rfl]

theorem collect_accept {step : σ → Token → Option σ} {state state' : σ} {s : Stream} (hs : s.Sound)
    {t : Token} {rest : List Token} (tokens : s.tokens = t :: rest)
    (turn : step state t = some state') :
    collect step state s =
      let read := collect step state' (next s).2
      ((read.1.1, tokenLeaf t :: read.1.2), read.2) := by
  have significant : t.isSignificant := hs.settled t (by simp [tokens])
  have solid : t.isTrivia = false := by simpa [Token.isSignificant] using significant
  rw [next_snd tokens]
  simp only [collect, tokens, takeSteps, solid, turn, Stream.settle]
  -- The comments behind the token are taken with it here, and by the rest of the loop there.
  rw [takeSteps_trivia step state' rest]
  simp [significant, solid, trivia_takeWhile, significant_takeWhile]

/-- Every turn that takes tokens one by one takes one. -/
theorem collect_halts (step : σ → Token → Option σ) (state : σ) (s : Stream) :
    Halts (collect step state) s := by
  intro hs
  refine ⟨(collect_lossless step state s hs solid_nil).1.passes, ?_⟩
  generalize left : s.size - s.position = n
  induction n using Nat.strongRecOn generalizing state s with
  | ind n ih =>
    have refused (last : ∀ t, s.tokens.head? = some t → step state t = none) :
        ∃ turns, Finishes (collect step state) s (collect step state s).1 (collect step state s).2
          turns ∧ ∀ turn ∈ turns, turn.GoesOn s.source := by
      rw [collect_refuse hs last]
      exact ⟨[], .refuse last, by simp⟩
    cases tokens : s.tokens with
    | nil => exact refused (by simp [tokens])
    | cons t rest =>
      cases turn : step state t with
      | none => exact refused (by simp [tokens, turn])
      | some state' =>
        obtain ⟨passes, further⟩ := passes_next hs tokens
        have size : (next s).2.size = s.size := passes.size hs
        have bound : (next s).2.position ≤ (next s).2.size := passes.sound.toWhole.position_le
        obtain ⟨turns, finishes, onward⟩ := ih _ (by omega) state' (next s).2 passes.sound rfl
        rw [collect_accept hs tokens turn]
        refine ⟨.tokens s (next s).2 :: turns, .accept (by simp [tokens]) turn finishes, ?_⟩
        rw [passes.source] at onward
        exact List.forall_mem_cons.2 ⟨⟨hs, rfl, passes, further⟩, onward⟩

theorem collectWhile_halts (accepts : Token → Bool) (s : Stream) :
    Halts (collectWhile accepts) s :=
  .bind (collect_halts _ _ s) fun _ _ => .pure _ _

/-- A group that does not close is taken back, behind turns that went on. -/
theorem balanced_halts (opening closing : Token.Kind) (s : Stream) :
    Halts (balanced opening closing) s := by
  intro hs
  refine ⟨(balanced_lossless opening closing s hs solid_nil).1.passes, ?_⟩
  obtain ⟨-, turns, finishes, onward⟩ :=
    collect_halts (Group.step opening closing) ⟨0, false, false⟩ s hs
  refine ⟨turns, ?_, onward⟩
  rw [balanced_eq]
  generalize collect (Group.step opening closing) ⟨0, false, false⟩ s = read at finishes
  obtain ⟨⟨final, leaves⟩, s'⟩ := read
  cases closed : final.closed with
  | true => simpa [closed] using Finishes.balanced finishes
  | false => simpa [closed] using Finishes.balanced finishes

theorem markupLeaves_succ (rounds : Nat) (depth : Int) (offset : Nat) (text : List Char) :
    markupLeaves (rounds + 1) depth offset text =
      match markupStep depth offset text with
      | (leaves, none, behind) => (leaves, behind)
      | (leaves, some depth', stop, rest) =>
        (leaves ++ (markupLeaves rounds depth' stop rest).1,
          (markupLeaves rounds depth' stop rest).2) := by
  cases text with
  | nil => rfl
  | cons c rest =>
    rw [markupLeaves, markupStep]
    split
    · rfl
    · cases (c :: rest).dropWhile (· ≠ '>') with
      | nil => rfl
      | cons close after =>
        dsimp only
        split
        · rfl
        · split <;> rfl

/-- A turn over markup takes what is in front of the text, and something if the loop goes on. -/
theorem exists_front (depth : Int) (offset : Nat) (text : List Char) :
    ∃ front, text = front ++ (markupStep depth offset text).2.2.2 ∧
      (markupStep depth offset text).2.2.1 = offset + Text.size front ∧
      ((markupStep depth offset text).2.1.isSome → front ≠ []) := by
  cases text with
  | nil => exact ⟨[], rfl, rfl, by simp [markupStep]⟩
  | cons c rest =>
    rw [markupStep]
    split
    · rename_i noTag
      refine ⟨_, List.takeWhile_append_dropWhile.symm, rfl, fun _ => ?_⟩
      rw [List.takeWhile_cons_of_pos (by simpa using noTag)]
      simp
    · have whole := List.takeWhile_append_dropWhile (p := (· ≠ '>')) (l := c :: rest)
      split
      · exact ⟨c :: rest, (List.append_nil _).symm, rfl, by simp⟩
      · rename_i close after behind
        rw [behind, List.append_cons] at whole
        have nonempty : (c :: rest).takeWhile (· ≠ '>') ++ [close] ≠ [] := by simp
        generalize (c :: rest).takeWhile (· ≠ '>') ++ [close] = tag at whole nonempty
        dsimp only
        split
        · exact ⟨tag, whole.symm, rfl, fun _ => nonempty⟩
        · split
          · refine ⟨tag ++ after.takeWhile Text.isBlank, ?_, ?_, fun _ => by simp [nonempty]⟩
            · rw [List.append_assoc, Text.trimStart, List.takeWhile_append_dropWhile, whole]
            · rw [Text.size_append, Nat.add_assoc]
          · exact ⟨tag, whole.symm, rfl, fun _ => nonempty⟩

/-- With more rounds than there are characters the loop over markup ends by itself. -/
theorem scans_markupLeaves {source : List Char} (rounds : Nat) (depth : Int) (offset : Nat)
    (text : List Char) (enough : text.length < rounds)
    (within : offset + Text.size text ≤ Text.size source) :
    ∃ turns, Scans depth offset text (markupLeaves rounds depth offset text).1
        (markupLeaves rounds depth offset text).2 turns ∧
      ∀ turn ∈ turns, turn.GoesOn source := by
  induction rounds generalizing depth offset text with
  | zero => omega
  | succ rounds ih =>
    obtain ⟨front, split, stop_eq, some_front⟩ := exists_front depth offset text
    rw [markupLeaves_succ]
    rcases turn : markupStep depth offset text with ⟨leaves, _ | depth', stop, rest⟩
    · exact ⟨[], .ends turn, by simp⟩
    · rw [turn] at split stop_eq some_front
      dsimp only at split stop_eq some_front ⊢
      subst split stop_eq
      have nonempty : front ≠ [] := some_front rfl
      have long := Text.size_pos nonempty
      have shorter := List.length_pos_iff.2 nonempty
      rw [List.length_append] at enough
      rw [Text.size_append, ← Nat.add_assoc] at within
      obtain ⟨turns, scans, onward⟩ :=
        ih depth' (offset + Text.size front) rest (by omega) within
      refine ⟨_, .again turn scans, List.forall_mem_cons.2 ⟨⟨?_, ?_⟩, onward⟩⟩
      · omega
      · omega

theorem markup_halts {s : Stream} {t : Token} {rest : List Token} (tokens : s.tokens = t :: rest)
    (opens : t.kind = .lt) : Halts markup s := by
  intro hs
  have passes := (markup_lossless tokens opens hs solid_nil).1.passes
  obtain ⟨behind, there⟩ := hs.place tokens
  have size : t.start + Text.size (t.text ++ behind) = Text.size s.source := there.size
  obtain ⟨turns, scans, onward⟩ := scans_markupLeaves
    ((t.text ++ behind).length + 1) 0 t.start _ (Nat.lt_succ_self _) (Nat.le_of_eq size)
  have eval := markup_eq tokens there.after?
  refine ⟨passes, ?_⟩
  rw [eval]
  generalize markupLeaves ((t.text ++ behind).length + 1) 0 t.start (t.text ++ behind) = read at *
  have text : (Text.after? s.source t.start).getD [] = t.text ++ behind := by
    rw [there.after?, Option.getD_some]
  exact ⟨turns ++ [], .markup (by simp [tokens]) (text ▸ scans)
    (.bind (.step (.absorb _)) (.step (.pure _))), by simpa using onward⟩

end RouteScript.Script
