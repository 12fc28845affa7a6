import RouteScript.Proofs.Recovery.Line
import RouteScript.Proofs.Recovery.Account
/-!
# Blocks, line by line

A block is read item by item, and what has been read stays as it is. A block that stands in a line
goes on in the same way whatever follows the line, and behind the line as if it started there.
-/
namespace RouteScript.Script

open Draft

/-- The first node of a block that is open. -/
abbrev blockStart (opening : Token) : Draft :=
  .leaf Kind.blockStart true opening.start opening.stop

/-- The rest of a block behind its opening brace. -/
abbrev restOfBlock (inner : Level) (opening : Token) (children : List Draft) :
    Reader (List Draft) :=
  repeatUntil (blockStep inner opening) id children

variable {inner : Level} {opening close w : Token} {rest : List Token} {s t : Stream}

theorem blockStep_end (tokens : s.tokens = []) (children : List Draft) :
    blockStep inner opening children s
      = (.inr ((children ++ s.waiting).set 0
          (.error [.leaf "\x7b" false opening.start opening.stop])), { s with waiting := [] }) := by
  obtain ⟨source, size, waiting, ts⟩ := s
  subst tokens
  rfl

theorem blockStep_close (tokens : s.tokens = w :: rest) (closes : w.kind = .rBrace)
    (children : List Draft) : blockStep inner opening children s
      = (.inr (place children (.leaf Kind.blockEnd true w.start w.stop) (next s).2).1,
        (place children (.leaf Kind.blockEnd true w.start w.stop) (next s).2).2) := by
  simp only [blockStep, bind, StateT.bind, peekKind, next, tokens, List.head?_cons,
    Option.map_some, closes]
  rfl

theorem blockStep_item (tokens : s.tokens = w :: rest) (inside : w.kind ≠ .rBrace)
    (children : List Draft) : blockStep inner opening children s
      = (.inl (place children (blockItem inner s).1 (blockItem inner s).2).1,
        (place children (blockItem inner s).1 (blockItem inner s).2).2) := by
  have here : peekKind s = (some w.kind, s) := by simp [peekKind, tokens]
  simp only [blockStep, bind, StateT.bind, here]
  rfl

theorem place_eq (children : List Draft) (item : Draft) (s : Stream) :
    place children item s = (children ++ (place [] item s).1, (place [] item s).2) := by
  simp [place]

/-- A round of a block adds nodes, whatever has been read before. -/
theorem blockStep_frame (inner : Level) (opening : Token) (s : Stream) :
    (∃ more s', ∀ front, blockStep inner opening (blockStart opening :: front) s
        = (.inl (blockStart opening :: (front ++ more)), s')) ∨
      ∃ head more s', head.label.extra = false ∧
        ∀ front, blockStep inner opening (blockStart opening :: front) s
          = (.inr (head :: (front ++ more)), s') := by
  cases tokens : s.tokens with
  | nil =>
    let brace := Draft.leaf "\x7b" false opening.start opening.stop
    refine .inr ⟨.error [brace], s.waiting, { s with waiting := [] }, rfl, fun front => ?_⟩
    rw [blockStep_end tokens]
    rfl
  | cons w rest =>
    by_cases closes : w.kind = .rBrace
    · let item := Draft.leaf Kind.blockEnd true w.start w.stop
      refine .inr ⟨blockStart opening, (place [] item (next s).2).1, (place [] item (next s).2).2,
        rfl, fun front => ?_⟩
      rw [blockStep_close tokens closes, place_eq, List.cons_append]
    · let item := (blockItem inner s).1
      let s' := (blockItem inner s).2
      refine .inl ⟨(place [] item s').1, (place [] item s').2, fun front => ?_⟩
      rw [blockStep_item tokens closes, place_eq, List.cons_append]

/-- What has been read of a block has no influence on what is read behind it. -/
theorem restOfBlock_frame (inner : Level) (opening : Token) (s : Stream) :
    ∃ head more s', head.label.extra = false ∧
      ∀ front, restOfBlock inner opening (blockStart opening :: front) s
        = (head :: (front ++ more), s') := by
  unfold restOfBlock repeatUntil
  induction s.size + 1 generalizing s with
  | zero => exact ⟨blockStart opening, [], s, rfl, fun front => by simp [repeatAtMost]; rfl⟩
  | succ rounds ih =>
    rcases blockStep_frame inner opening s with ⟨more, s', eq⟩ | ⟨head, more, s', structural, eq⟩
    · obtain ⟨head, more', s'', structural, later⟩ := ih s'
      refine ⟨head, more ++ more', s'', structural, fun front => ?_⟩
      rw [repeatAtMost_succ, eq, ← List.append_assoc]
      exact later (front ++ more)
    · refine ⟨head, more, s', structural, fun front => ?_⟩
      rw [repeatAtMost_succ, eq]

/-- Behind what has been read a block goes on like one that starts there. -/
theorem restOfBlock_behind {a b : List Char} {opening' : Token} (lossless : inner.Lossless)
    (alike : inner.Alike (.sharp b a)) (same : Peers (.sharp b a) opening' opening)
    (like : Like (.sharp b a) none none t s)
    (plain : ¬ HoldMarkup (restOfBlock inner opening' [blockStart opening'] t).1) {o : Outline}
    {os : List Outline}
    (there : outlinesOf b (restOfBlock inner opening' [blockStart opening'] t).1 = o :: os)
    (front : List Draft) :
    outlinesOf a (restOfBlock inner opening (blockStart opening :: front) s).1
        = o :: (outlinesOf a front ++ os)
      ∧ ∃ p q, Like (.sharp b a) p q (restOfBlock inner opening' [blockStart opening'] t).2
        (restOfBlock inner opening (blockStart opening :: front) s).2 := by
  obtain ⟨head, more, s', structural, eq⟩ := restOfBlock_frame inner opening s
  have alone : restOfBlock inner opening [blockStart opening] s = (head :: more, s') := eq []
  have opened : Opened (.sharp b a) opening' opening [blockStart opening'] [blockStart opening] :=
    ⟨same, [], [], rfl, rfl, rfl⟩
  obtain holds | ⟨siblings, p, q, like'⟩ := block_alike lossless alike opened like
  · exact absurd holds.all plain
  · have both := siblings.outlines
    rw [View.outlines_sharp, View.outlines_sharp] at both
    change outlinesOf b (restOfBlock inner opening' [blockStart opening'] t).1
      = outlinesOf a (restOfBlock inner opening [blockStart opening] s).1 at both
    change Like (.sharp b a) p q _ (restOfBlock inner opening [blockStart opening] s).2 at like'
    rw [alone, there, outlinesOf_cons] at both
    rw [alone] at like'
    have single : ∃ o', outlines a head = [o'] := by
      obtain ⟨tag, children⟩ := head
      have structural : tag.extra = false := structural
      rw [outlines_node, if_neg (by simp [structural])]
      exact ⟨_, rfl⟩
    obtain ⟨o', first⟩ := single
    rw [first, List.singleton_append, List.cons.injEq] at both
    obtain ⟨rfl, rfl⟩ := both
    rw [eq front]
    exact ⟨by simp [first], p, q, like'⟩

/-- A closing brace at the end of a text closes a block. -/
theorem restOfBlock_close (lossless : inner.Lossless) (hs : s.Sound) (tokens : s.tokens = [close])
    (closes : close.kind = .rBrace) {children : List Draft} (opened : isOpened opening children) :
    ∃ more s', restOfBlock inner opening children s = (children ++ more, s') ∧ s'.tokens = []
      ∧ ∀ source, outlinesOf source more
        = Draft.outlines source (.leaf Kind.blockEnd true close.start close.stop) := by
  let item := Draft.leaf Kind.blockEnd true close.start close.stop
  have sound : (next s).2.Sound := (passes_next hs tokens).1.sound
  have ended : (next s).2.tokens = [] := by simp [next, tokens, Stream.settle]
  refine ⟨(place [] item (next s).2).1, (place [] item (next s).2).2, ?_, ended, fun source => ?_⟩
  · rw [restOfBlock, repeatUntil_eq (blockStep_advancing lossless opening) opened hs,
      blockStep_close tokens closes, place_eq]
  · rw [outlinesOf_place sound, outlinesOf_nil, List.nil_append]

/-- A reader whose nodes are all of one kind. -/
def Makes (kind : String) (r : Reader Draft) : Prop := ∀ s, (r s).1.label.kind = kind

namespace Makes

variable {α : Type} {kind : String} {x : Reader α} {k : α → Reader Draft}

theorem node (kind : String) (ds : List Draft) : Makes kind (node kind ds) := fun _ => rfl

theorem bind (h : ∀ a, Makes kind (k a)) : Makes kind (x >>= k) := fun s => h (x s).1 (x s).2

end Makes

theorem finishStatement_makes (ds : List Draft) : Makes Kind.statement (finishStatement ds) := by
  refine .bind fun ahead => ?_
  split
  · exact .node _ _
  · split
    · exact .bind fun _ => .node _ _
    · split
      · exact .node _ _
      · exact .bind fun _ => .bind fun _ => .bind fun _ => .node _ _

theorem wordStatement_makes {word : String} {following : Option Token.Kind} {read : Reader Draft}
    (found : wordStatement? inner word following = some read) : Makes Kind.statement read := by
  unfold wordStatement? at found
  repeat' split at found
  all_goals cases found
  · exact .bind fun _ => .node _ _
  · exact .bind fun _ => .node _ _
  · exact .bind fun _ => .node _ _
  · exact .bind fun _ => .node _ _
  · exact .bind fun _ => .node _ _
  · exact .bind fun _ => finishStatement_makes _
  · exact .bind fun _ => .bind fun _ => finishStatement_makes _

theorem expressionStatement_makes (inner : Level) :
    Makes Kind.statement (expressionStatement inner) := by
  refine .bind fun out => ?_
  cases out with
  | ok value => exact finishStatement_makes _
  | error consumed =>
    have finished (consumed : List Draft) : Makes Kind.statement
        (do finishStatement [← errorNode (consumed ++ (← skipStatementRest))]) :=
      .bind fun _ => .bind fun _ => finishStatement_makes _
    dsimp only
    split
    · exact .bind fun _ => finished _
    · exact finished consumed

theorem statement_makes (inner : Level) : Makes Kind.statement (statement inner) := by
  refine .bind fun ahead => ?_
  cases ahead with
  | none => exact .node _ _
  | some t =>
    refine .bind fun following => ?_
    split
    · rename_i read found
      split at found
      · exact wordStatement_makes found
      · contradiction
    · split
      · exact .bind fun _ => .node _ _
      · exact .bind fun _ => .node _ _
      · exact expressionStatement_makes inner

theorem level_makes (depth : Nat) : Makes Kind.statement (level depth).statement := by
  cases depth with
  | zero =>
    have finished (consumed : List Draft) : Makes Kind.statement
        (do finishStatement (← errorNodes consumed)) := .bind fun _ => finishStatement_makes _
    refine .bind fun region => ?_
    dsimp only
    split
    · refine .bind fun ended => ?_
      split
      · exact finished []
      · exact .bind fun _ => finished _
    · exact finished region
  | succ depth => exact statement_makes _

/-- Nodes of which none but statements shows. -/
def Statements (ds : List Draft) : Prop :=
  ∀ source, ∀ o ∈ outlinesOf source ds, o.label.kind = Kind.statement

theorem statements_place {item : Draft} (kind : item.label.kind = Kind.statement) (hs : s.Sound) :
    Statements (place [] item s).1 := by
  intro source o ho
  obtain ⟨tag, children⟩ := item
  rw [outlinesOf_place hs, outlinesOf_nil, List.nil_append, outlines_node] at ho
  split at ho
  · contradiction
  · obtain rfl := List.mem_singleton.1 ho
    exact kind

theorem Statements.append {ds es : List Draft} (h : Statements ds) (h' : Statements es) :
    Statements (ds ++ es) := by
  intro source o ho
  rw [outlinesOf_append] at ho
  rcases List.mem_append.1 ho with left | right
  · exact h source o left
  · exact h' source o right

section Line

variable {e : Tails} {n depth : Nat}

/-- In a line, a round of a block adds the same statement on both streams. -/
theorem line_round (short : n < depth) (parted : Parted e n s t) : ∃ more s' t',
    (∀ children, blockStep (level depth) opening children s = (.inl (children ++ more), s'))
      ∧ (∀ children, blockStep (level depth) opening children t = (.inl (children ++ more), t'))
      ∧ (Parted e n s' t' ∨ Past e s' t') ∧ Statements more := by
  obtain ⟨w, ts, line, _, forked⟩ := parted.cases
  have inLine := line.inLine w (by simp)
  have isStatement : (blockItem (level depth) s).1.label.kind = Kind.statement := by
    have outside : (s.tokens.head?.map Token.kind == some .lt) = false := by
      simp [forked.left_tokens, inLine.lt]
    have eval : blockItem (level depth) s
        = (if s.tokens.head?.map Token.kind == some .lt then markup
          else (level depth).statement) s := rfl
    rw [eval, outside]
    exact level_makes depth s
  have sound := (blockItem_lossless (level_lossless depth) forked.left_tokens forked.left
    solid_nil).1.passes.sound
  obtain ⟨same, later⟩ := blockItem_agrees (level_agrees e depth) short parted
  have left (children : List Draft) : blockStep (level depth) opening children s = _ :=
    blockStep_item forked.left_tokens inLine.rBrace children
  have right (children : List Draft) : blockStep (level depth) opening children t = _ :=
    blockStep_item forked.right_tokens inLine.rBrace children
  rw [same] at right
  generalize blockItem (level depth) s = read at *
  generalize (blockItem (level depth) t).2 = t₁ at *
  obtain ⟨item, s₁⟩ := read
  dsimp only at *
  have placed : (place [] item t₁).1 = (place [] item s₁).1
      ∧ (Parted e n (place [] item s₁).2 (place [] item t₁).2
        ∨ Past e (place [] item s₁).2 (place [] item t₁).2) := by
    rcases later with inside | ⟨_, past⟩
    · have agrees : Agrees e n s₁ t₁ (place [] item) := .idle (.place [] item)
      obtain ⟨eq, onward | ⟨impossible, _⟩⟩ := agrees inside
      · exact ⟨eq, .inl onward⟩
      · contradiction
    · obtain ⟨eq, onward⟩ := Rests.idle (.place [] item) past
      exact ⟨eq, .inr onward⟩
  refine ⟨(place [] item s₁).1, (place [] item s₁).2, (place [] item t₁).2, fun children => ?_,
    fun children => ?_, placed.2, statements_place isStatement sound⟩
  · rw [left, place_eq]
  · rw [right, place_eq, placed.1]

/-- A block that stands in a line reads the same statements on both streams up to its end. -/
theorem line_read (short : n < depth) (parted : Parted e n s t) {children : List Draft}
    (opened : isOpened opening children) : ∃ more s' t', Past e s' t' ∧ Statements more
      ∧ restOfBlock (level depth) opening children s
        = restOfBlock (level depth) opening (children ++ more) s'
      ∧ restOfBlock (level depth) opening children t
        = restOfBlock (level depth) opening (children ++ more) t'
      ∧ s.Passes s' ∧ Conserves children t (children ++ more) t' := by
  have lossless := level_lossless depth
  have advancing := blockStep_advancing lossless opening
  generalize left : s.size - s.position = k
  induction k using Nat.strongRecOn generalizing s t children with
  | ind k ih =>
    obtain ⟨_, _, _, forked⟩ := id parted
    obtain ⟨more, s₁, t₁, first, second, later, kinds⟩ := line_round short parted
    have conserves := blockStep_conserves lossless forked.left opened
    have conserves' := blockStep_conserves lossless forked.right opened
    unfold Gives at conserves conserves'
    rw [first] at conserves
    rw [second] at conserves'
    obtain ⟨conserves, onward⟩ := conserves
    obtain ⟨conserves', _⟩ := conserves'
    obtain ⟨opened', further⟩ : isOpened opening (children ++ more) ∧ s.position < s₁.position :=
      onward _ rfl
    have eq : restOfBlock (level depth) opening children s
        = restOfBlock (level depth) opening (children ++ more) s₁ := by
      rw [restOfBlock, repeatUntil_eq advancing opened forked.left, first]
    have eq' : restOfBlock (level depth) opening children t
        = restOfBlock (level depth) opening (children ++ more) t₁ := by
      rw [restOfBlock, repeatUntil_eq advancing opened forked.right, second]
    rcases later with inside | past
    · have size : s₁.size = s.size := conserves.passes.size forked.left
      have bound : s₁.position ≤ s₁.size := conserves.passes.sound.toWhole.position_le
      obtain ⟨more', s', t', past, kinds', eq₁, eq₁', passes, conserves₁⟩ :=
        ih (s₁.size - s₁.position) (by omega) inside opened' rfl
      rw [List.append_assoc] at eq₁ eq₁' conserves₁
      exact ⟨more ++ more', s', t', past, kinds.append kinds', eq.trans eq₁, eq'.trans eq₁',
        conserves.passes.trans passes, conserves'.trans conserves₁⟩
    · exact ⟨more, s₁, t₁, past, kinds, eq, eq', conserves.passes, conserves'⟩

end Line

end RouteScript.Script
