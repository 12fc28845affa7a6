import RouteScript.Script.Items
import Mathlib.Tactic.Choose
/-!
# A counter of nestings

A level is told how many nestings are left. One counter beside the stream does the same: it goes up
before a nested reading and down again behind it, and a reading that would take it past the limit is
replaced by a flat one. A production uses the readers of its level by calling them and in no other
way, so its plan can be carried out with the counter: this gives what the production gives at the
level, the counter is back at its value behind it, and there are never more nested readings in
progress than there are nestings left. This holds of the items of a script too, and so of all of
them together.
-/
namespace RouteScript.Script

variable {α β : Type}

/-- A reading that leaves open how the readers one nesting deeper do their work. -/
inductive Plan (α : Type) : Type 1 where
  | done (result : α)
  | read {β : Type} (reader : Reader β) (next : β → Plan α)
  | statement (next : Draft → Plan α)
  | expression (next : Outcome → Plan α)
  | operand (next : Outcome → Plan α)

namespace Plan

/-- Goes on with another plan. -/
def andThen : Plan α → (α → Plan β) → Plan β
  | done result, next => next result
  | read reader more, next => read reader fun b => (more b).andThen next
  | statement more, next => statement fun d => (more d).andThen next
  | expression more, next => expression fun out => (more out).andThen next
  | operand more, next => operand fun out => (more out).andThen next

/-- Carries out a plan by the readers of a level. -/
def within (inner : Level) : Plan α → Reader α
  | done result => return result
  | read reader next => do (next (← reader)).within inner
  | statement next => do (next (← inner.statement)).within inner
  | expression next => do (next (← inner.expression)).within inner
  | operand next => do (next (← inner.operand)).within inner

theorem within_andThen (inner : Level) (plan : Plan α) (next : α → Plan β) :
    (plan.andThen next).within inner = plan.within inner >>= fun a => (next a).within inner := by
  induction plan with
  | done result => rfl
  | read reader more ih => exact congrArg (reader >>= ·) (funext fun b => ih b)
  | statement more ih => exact congrArg (inner.statement >>= ·) (funext fun d => ih d)
  | expression more ih => exact congrArg (inner.expression >>= ·) (funext fun out => ih out)
  | operand more ih => exact congrArg (inner.operand >>= ·) (funext fun out => ih out)

end Plan

/-- A production that has a plan. -/
def Planned (production : Level → Reader α) : Prop :=
  ∃ plan : Plan α, ∀ inner, plan.within inner = production inner

namespace Planned

theorem reader (r : Reader α) : Planned fun _ => r := ⟨.read r .done, fun _ => rfl⟩

theorem pure (a : α) : Planned fun _ => (Pure.pure a : Reader α) := reader _

theorem statement : Planned Level.statement := ⟨.statement .done, fun _ => rfl⟩

theorem expression : Planned Level.expression := ⟨.expression .done, fun _ => rfl⟩

theorem operand : Planned Level.operand := ⟨.operand .done, fun _ => rfl⟩

theorem bind {first : Level → Reader α} {next : Level → α → Reader β} (h : Planned first)
    (h' : ∀ a, Planned fun inner => next inner a) :
    Planned fun inner => first inner >>= next inner := by
  obtain ⟨plan, eq⟩ := h
  choose more eq' using h'
  refine ⟨plan.andThen more, fun inner => ?_⟩
  rw [Plan.within_andThen, eq]
  exact congrArg (first inner >>= ·) (funext fun a => eq' a inner)

theorem ite {c : Prop} [Decidable c] {first second : Level → Reader α} (h : Planned first)
    (h' : Planned second) : Planned fun inner => if c then first inner else second inner := by
  by_cases holds : c
  · simpa only [holds, if_true] using h
  · simpa only [holds, if_false] using h'

theorem repeatUntil {step : Level → α → Reader (α ⊕ β)} {unfinished : α → β}
    (h : ∀ a, Planned fun inner => step inner a) (a : α) :
    Planned fun inner => Script.repeatUntil (step inner) unfinished a := by
  have rounds (n : Nat) (a : α) :
      Planned fun inner => repeatAtMost (step inner) unfinished n a := by
    induction n generalizing a with
    | zero => exact pure _
    | succ n ih =>
      refine bind (h a) fun result => ?_
      cases result with
      | inl a' => exact ih a'
      | inr b => exact pure b
  exact bind (reader fun s => (s.size + 1, s)) fun n => rounds n a

end Planned

theorem planned_argument (children : List Draft) :
    Planned fun inner => argument inner children := by
  refine .bind .expression fun out => ?_
  cases out with
  | ok value => exact .pure _
  | error consumed => exact .reader _

theorem planned_argumentStep (children : List Draft) :
    Planned fun inner => argumentStep inner children := by
  refine .bind (planned_argument children) fun read => ?_
  cases read with
  | none => exact .pure _
  | some children => exact .reader _

theorem planned_argumentList : Planned argumentList :=
  .bind (.reader _) fun opening => .bind (.reader _) fun _ =>
    .ite (.reader _) (.repeatUntil planned_argumentStep opening)

theorem planned_call (name : Draft) : Planned fun inner => call inner name := by
  refine .bind planned_argumentList fun out => ?_
  cases out <;> exact .reader _

theorem planned_parenthesized : Planned parenthesized := by
  refine .bind (.reader _) fun opening => .bind .expression fun out => ?_
  cases out <;> exact .reader _

theorem planned_primary : Planned primary := by
  refine .bind (.reader _) fun t => ?_
  cases t with
  | none => exact .pure _
  | some t =>
    have word : Planned fun inner => (do
        let _ ← next
        if ← isAt .lParen then call inner (tokenLeaf t)
        else return .ok (wrap (tokenLeaf t)) : Reader Outcome) :=
      .bind (.reader _) fun _ => .bind (.reader _) fun _ => .ite (planned_call _) (.pure _)
    dsimp only
    cases t.kind with
    | lParen =>
      refine .bind planned_parenthesized fun out => ?_
      cases out <;> exact .pure _
    | identifier => exact word
    | _ => exact .reader _

theorem planned_unary : Planned unary := by
  refine .bind (.reader _) fun t => ?_
  cases t with
  | none => exact .pure _
  | some t =>
    refine .bind (.reader _) fun following => .ite (.bind (.reader _) fun _ => ?_) planned_primary
    refine .bind .operand fun out => ?_
    cases out <;> exact .reader _

theorem planned_chainStep {operand : Level → Reader Outcome} (h : Planned operand)
    (precedence : Nat) (left : Draft) :
    Planned fun inner => chainStep (operand inner) precedence left := by
  refine .bind (.reader _) fun t => ?_
  cases t with
  | none => exact .pure _
  | some t =>
    refine .ite (.pure _) (.bind (.reader _) fun _ => .bind h fun out => ?_)
    cases out <;> exact .reader _

theorem planned_chain (levels : Nat) : Planned fun inner => chain (unary inner) levels := by
  induction levels with
  | zero => exact planned_unary
  | succ levels ih =>
    refine .bind ih fun out => ?_
    cases out with
    | error consumed => exact .pure _
    | ok left => exact .repeatUntil (planned_chainStep ih _) left

theorem planned_assignment : Planned assignment := by
  refine .bind (planned_chain tightest) fun out => ?_
  cases out with
  | error consumed => exact .pure _
  | ok left =>
    refine .bind (.reader _) fun _ => .ite (.pure _) (.bind (.reader _) fun _ => ?_)
    refine .bind .expression fun out => ?_
    cases out <;> exact .reader _

theorem planned_blockItem : Planned blockItem :=
  .bind (.reader _) fun _ => .ite (.reader _) .statement

theorem planned_blockStep (opening : Token) (children : List Draft) :
    Planned fun inner => blockStep inner opening children := by
  refine .bind (.reader _) fun kind => ?_
  have item : Planned fun inner => (do
      return .inl (← place children (← blockItem inner)) : Reader (List Draft ⊕ List Draft)) :=
    .bind planned_blockItem fun _ => .reader _
  cases kind with
  | none => exact .reader _
  | some kind =>
    cases kind with
    | rBrace => exact .reader _
    | _ => exact item

theorem planned_compound : Planned compound := by
  refine .bind (.reader _) fun t => ?_
  cases t with
  | none => exact .reader _
  | some opening =>
    exact .bind (.repeatUntil (planned_blockStep opening) _) fun _ => .reader _

theorem planned_body (field : String) : Planned fun inner => body inner field := by
  refine .bind (.reader _) fun kind => ?_
  have block : Planned fun inner => (do
      return [(← compound inner).withField field] : Reader (List Draft)) :=
    .bind planned_compound fun _ => .pure _
  have single : Planned fun inner => (do
      return [(← inner.statement).withField field] : Reader (List Draft)) :=
    .bind .statement fun _ => .pure _
  cases kind with
  | none => exact .pure _
  | some kind =>
    cases kind with
    | lBrace => exact block
    | _ => exact single

theorem planned_condition : Planned condition := by
  refine .bind (.reader _) fun _ => .ite (.bind planned_parenthesized fun out => ?_) (.reader _)
  cases out <;> exact .reader _

theorem planned_ifStatement : Planned ifStatement :=
  .bind (.reader _) fun _ => .bind planned_condition fun _ => .bind (planned_body _) fun _ =>
    .bind (.reader _) fun _ => .ite
      (.bind (.reader _) fun _ => .bind (planned_body _) fun _ => .reader _) (.reader _)

theorem planned_whileStatement : Planned whileStatement :=
  .bind (.reader _) fun _ => .bind planned_condition fun _ => .bind (planned_body _) fun _ =>
    .reader _

theorem planned_switchStatement : Planned switchStatement :=
  .bind (.reader _) fun _ => .bind planned_condition fun _ => .bind (.reader _) fun _ =>
    .ite (.bind planned_compound fun _ => .reader _) (.reader _)

theorem planned_caseStatement : Planned caseStatement := by
  refine .bind (.reader _) fun _ => .bind (.reader _) fun _ => .ite (.reader _) ?_
  refine .bind (planned_chain tightest) fun out => ?_
  cases out <;> exact .reader _

theorem planned_returnStatement : Planned returnStatement := by
  refine .bind (.reader _) fun _ => .bind (.reader _) fun t => ?_
  cases t with
  | none => exact .reader _
  | some t =>
    refine .ite (.reader _) (.bind .expression fun out => ?_)
    cases out <;> exact .reader _

/-- There is a production at every level, which has a plan, or at none. -/
def PlannedIfAny (production? : Level → Option (Reader α)) : Prop :=
  (∀ inner, production? inner = none) ∨
    ∃ production, (∀ inner, production? inner = some (production inner)) ∧ Planned production

theorem PlannedIfAny.none : PlannedIfAny fun _ => (Option.none : Option (Reader α)) :=
  .inl fun _ => rfl

theorem PlannedIfAny.some {production : Level → Reader α} (h : Planned production) :
    PlannedIfAny fun inner => Option.some (production inner) := .inr ⟨production, fun _ => rfl, h⟩

theorem PlannedIfAny.ite {c : Prop} [Decidable c] {first second : Level → Option (Reader α)}
    (h : PlannedIfAny first) (h' : PlannedIfAny second) :
    PlannedIfAny fun inner => if c then first inner else second inner := by
  by_cases holds : c
  · simpa only [holds, if_true] using h
  · simpa only [holds, if_false] using h'

theorem planned_wordStatement (word : String) (following : Option Token.Kind) :
    PlannedIfAny fun inner => wordStatement? inner word following := by
  have statement {production : Level → Reader Draft} (h : Planned production) :
      PlannedIfAny fun inner => some (do node Kind.statement [← production inner]) :=
    .some (.bind h fun _ => .reader _)
  have finished {production : Level → Reader Draft} (h : Planned production) :
      PlannedIfAny fun inner => some (do finishStatement [← production inner]) :=
    .some (.bind h fun _ => .reader _)
  exact .ite (statement planned_ifStatement) (.ite (statement planned_switchStatement)
    (.ite (statement planned_whileStatement) (.ite (statement planned_caseStatement)
    (.ite (statement planned_caseStatement) (.ite (finished planned_returnStatement)
    (.ite (.some (.reader _)) .none))))))

theorem planned_expressionStatement : Planned expressionStatement := by
  refine .bind .expression fun out => ?_
  cases out <;> exact .reader _

theorem planned_statement : Planned statement := by
  refine .bind (.reader _) fun t => ?_
  cases t with
  | none => exact .reader _
  | some t =>
    refine .bind (.reader _) fun following => ?_
    have word : PlannedIfAny fun inner =>
        if t.kind == .identifier then wordStatement? inner t.word following else none :=
      .ite (planned_wordStatement t.word following) .none
    rcases word with nothing | ⟨production, found, planned⟩
    · simp only [nothing]
      have block : Planned fun inner => (do node Kind.statement [← compound inner]) :=
        .bind planned_compound fun _ => .reader _
      cases t.kind with
      | lBrace => exact block
      | semicolon => exact .reader _
      | _ => exact planned_expressionStatement
    · simp only [found]
      exact planned

namespace Level

/-- A module parameter whose arguments are read at a level. -/
def modParam (inner : Level) : Reader Draft := do
  let word ← nextKeyword
  match ← argumentList inner with
  | .ok arguments =>
    node Kind.modParam
      (word ++ [arguments.withField Field.arguments] ++ (← optionalLeaf .semicolon))
  | .error consumed =>
    errorNode (word ++ consumed ++ (← skipStatementRest))

/-- The block of a route, read at a level. -/
def routeBody (inner : Level) (children : List Draft) : Reader Draft := do
  if ← isAt .lBrace then
    let block ← compound inner
    node Kind.routeDefinition (children ++ [block.withField Field.body])
  else
    errorNode (children ++ (← skipStatementRest))

/-- A route block whose body is read at a level. -/
def routeDefinition (inner : Level) : Reader Draft := do
  let type := (← next).toList.map fun t =>
    (Draft.leaf Kind.routeType true t.start t.stop).withField Field.routeType
  if ← isAt .lBracket then
    let (name, closed) ← routeName
    if closed then inner.routeBody (type ++ name)
    else errorNode (type ++ name ++ (← skipStatementRest))
  else
    inner.routeBody type

/-- An item that starts with a word, read at a level. -/
def wordItem (inner : Level) (word : String) (following : Option Token.Kind) : Reader Draft :=
  if word == "loadmodule" then stringItem Kind.loadModule Field.moduleFile
  else if word == "loadpath" then stringItem Kind.loadPath Field.path
  else if word == "include_file" || word == "import_file" then
    stringItem Kind.includeFile Field.file
  else if word == "modparam" && following == some .lParen then inner.modParam
  else if (Vocabulary.routeType? word).isSome
      && (following == some .lBracket || following == some .lBrace) then inner.routeDefinition
  else if following == some .assign then globalAssignment
  else inner.statement

/-- An item, read at a level. -/
def item (inner : Level) (t : Token) : Reader Draft := do
  match t.kind with
  | .identifier => inner.wordItem t.word (← peekSecondKind)
  | .lt => markup
  | .rBrace => errorNode (← nextLeaf)
  | _ => inner.statement

/-- All items, read at a level. -/
def items (inner : Level) : Reader (List Draft) :=
  repeatUntil (fun children => do
    match ← peek with
    | none => return .inr (← flush children)
    | some t => return .inl (← place children (← inner.item t))) id []

/-- The items of a script are read at its top level. -/
theorem items_topLevel : topLevel.items = Script.items := rfl

end Level

theorem planned_modParam : Planned Level.modParam := by
  refine .bind (.reader _) fun word => .bind planned_argumentList fun out => ?_
  cases out <;> exact .reader _

theorem planned_routeBody (children : List Draft) :
    Planned fun inner => inner.routeBody children :=
  .bind (.reader _) fun _ => .ite (.bind planned_compound fun _ => .reader _) (.reader _)

theorem planned_routeDefinition : Planned Level.routeDefinition :=
  .bind (.reader _) fun _ => .bind (.reader _) fun _ =>
    .ite (.bind (.reader _) fun _ => .ite (planned_routeBody _) (.reader _)) (planned_routeBody _)

theorem planned_wordItem (word : String) (following : Option Token.Kind) :
    Planned fun inner => inner.wordItem word following :=
  .ite (.reader _) <| .ite (.reader _) <| .ite (.reader _) <| .ite planned_modParam <|
    .ite planned_routeDefinition <| .ite (.reader _) .statement

theorem planned_item (t : Token) : Planned fun inner => inner.item t := by
  unfold Level.item
  cases t.kind with
  | identifier => exact .bind (.reader _) fun following => planned_wordItem _ following
  | lt => exact .reader _
  | rBrace => exact .reader _
  | _ => exact .statement

theorem planned_items : Planned Level.items := by
  refine .repeatUntil (fun children => .bind (.reader _) fun t => ?_) []
  cases t with
  | none => exact .reader _
  | some t => exact .bind (planned_item t) fun _ => .reader _

/-- A stream with a counter of the nestings around it. -/
structure Counted where
  depth : Nat
  stream : Stream

/-- A reading with the counter, unless more nested readings are in progress than there may be. -/
abbrev CountedReader (α : Type) := StateT Counted Option α

/-- A reader that leaves the counter alone. -/
def Reader.counted (r : Reader α) : CountedReader α := fun s =>
  some ((r s.stream).1, { s with stream := (r s.stream).2 })

/-- Reads one nesting deeper, or reads a flat region where the limit is reached. -/
def nested (flat : Reader α) (r : CountedReader α) : CountedReader α := fun s =>
  if maxNesting ≤ s.depth then flat.counted s
  else (r { s with depth := s.depth + 1 }).map fun (a, s') =>
    (a, { s' with depth := s'.depth - 1 })

/-- The readers one nesting deeper, with the counter. -/
structure CountedLevel where
  statement : CountedReader Draft
  expression : CountedReader Outcome
  operand : CountedReader Outcome

/-- Carries out a plan with the counter. -/
def Plan.counted (inner : CountedLevel) : Plan α → CountedReader α
  | .done result => return result
  | .read reader next => do (next (← reader.counted)).counted inner
  | .statement next => do (next (← inner.statement)).counted inner
  | .expression next => do (next (← inner.expression)).counted inner
  | .operand next => do (next (← inner.operand)).counted inner

/-- The plans of what a level reads. -/
structure Plans where
  statement : Plan Draft
  expression : Plan Outcome
  operand : Plan Outcome

namespace Plans

/-- The plans are those of the grammar. -/
structure Describe (plans : Plans) : Prop where
  statement : ∀ inner, plans.statement.within inner = Script.statement inner
  expression : ∀ inner, plans.expression.within inner = assignment inner
  operand : ∀ inner, plans.operand.within inner = unary inner

/-- The readers of a level while at most `frames` nested readings may be in progress. -/
def level (plans : Plans) : Nat → CountedLevel
  | 0 => ⟨failure, failure, failure⟩
  | frames + 1 =>
    ⟨nested deepStatement (plans.statement.counted (plans.level frames)),
      nested (do return .error (← skipNestedRegion))
        (plans.expression.counted (plans.level frames)),
      nested (do return .error (← skipNestedRegion)) (plans.operand.counted (plans.level frames))⟩

end Plans

/-- With the counter at some depth a reading gives what another gives there, and the counter is
back at its value behind it. -/
def Restores (counted : CountedReader α) (depth : Nat) (r : Reader α) : Prop :=
  ∀ s, counted ⟨depth, s⟩ = some ((r s).1, ⟨depth, (r s).2⟩)

theorem Restores.bind {depth : Nat} {first : CountedReader α} {r : Reader α}
    {next : α → CountedReader β} {next' : α → Reader β} (h : Restores first depth r)
    (h' : ∀ a, Restores (next a) depth (next' a)) :
    Restores (first >>= next) depth (r >>= next') := by
  intro s
  change (first ⟨depth, s⟩ >>= fun p => next p.1 p.2) = _
  rw [h s]
  exact h' _ _

/-- A level whose readers do what those of another do at some depth. -/
structure CountedLevel.Restores (counted : CountedLevel) (depth : Nat) (inner : Level) : Prop where
  statement : Script.Restores counted.statement depth inner.statement
  expression : Script.Restores counted.expression depth inner.expression
  operand : Script.Restores counted.operand depth inner.operand

theorem Plan.restores {counted : CountedLevel} {depth : Nat} {inner : Level}
    (h : counted.Restores depth inner) (plan : Plan α) :
    Script.Restores (plan.counted counted) depth (plan.within inner) := by
  induction plan with
  | done result => exact fun s => rfl
  | read reader next ih => exact .bind (fun s => rfl) ih
  | statement next ih => exact .bind h.statement ih
  | expression next ih => exact .bind h.expression ih
  | operand next ih => exact .bind h.operand ih

theorem restores_nested {depth : Nat} {flat r : Reader α} {counted : CountedReader α}
    (more : depth < maxNesting) (h : Restores counted (depth + 1) r) :
    Restores (nested flat counted) depth r := by
  intro s
  rw [nested, if_neg (Nat.not_le.2 more), h s]
  rfl

theorem restores_nested_limit (flat : Reader α) (counted : CountedReader α) :
    Restores (nested flat counted) maxNesting flat := by
  intro s
  rw [nested, if_pos (Nat.le_refl _)]
  rfl

/-- With more frames than nestings left, the readers with the counter do what those of the level
do. -/
theorem Plans.restores {plans : Plans} (h : plans.Describe) (remaining : Nat)
    (within : remaining ≤ maxNesting) (frames : Nat) (enough : remaining < frames) :
    (plans.level frames).Restores (maxNesting - remaining) (Script.level remaining) := by
  induction remaining generalizing frames with
  | zero =>
    obtain ⟨frames, rfl⟩ := Nat.exists_eq_succ_of_ne_zero (Nat.ne_of_gt enough)
    exact ⟨restores_nested_limit _ _, restores_nested_limit _ _, restores_nested_limit _ _⟩
  | succ remaining ih =>
    obtain ⟨frames, rfl⟩ := Nat.exists_eq_succ_of_ne_zero (Nat.ne_zero_of_lt enough)
    have inner := ih (by omega) frames (by omega)
    have deeper : maxNesting - remaining = maxNesting - (remaining + 1) + 1 := by omega
    rw [deeper] at inner
    have more : maxNesting - (remaining + 1) < maxNesting := by omega
    refine ⟨restores_nested more ?_, restores_nested more ?_, restores_nested more ?_⟩
    · rw [show (Script.level (remaining + 1)).statement = _ from (h.statement _).symm]
      exact Plan.restores inner _
    · rw [show (Script.level (remaining + 1)).expression = _ from (h.expression _).symm]
      exact Plan.restores inner _
    · rw [show (Script.level (remaining + 1)).operand = _ from (h.operand _).symm]
      exact Plan.restores inner _

/-- With the counter a production does what it does at the level of the nestings left, and leaves
the counter as it was, while there are no more nested readings in progress than one for each nesting
left and the one that finds none. -/
def Plans.Guide (plans : Plans) (production : Level → Reader α) : Prop :=
  ∃ plan : Plan α, (∀ inner, plan.within inner = production inner) ∧
    ∀ remaining ≤ maxNesting, ∀ frames, remaining < frames →
      Restores (plan.counted (plans.level frames)) (maxNesting - remaining)
        (production (Script.level remaining))

theorem Planned.guided {plans : Plans} (h : plans.Describe) {production : Level → Reader α}
    (planned : Planned production) : plans.Guide production := by
  obtain ⟨plan, same⟩ := planned
  refine ⟨plan, same, fun remaining within frames enough => ?_⟩
  rw [← same]
  exact plan.restores (Plans.restores h remaining within frames enough)

/-- Plans for what a level reads, by which the counter guides every production that uses a level. -/
structure Plans.Complete (plans : Plans) : Prop where
  describe : plans.Describe
  argument : ∀ children, plans.Guide fun inner => argument inner children
  argumentList : plans.Guide argumentList
  call : ∀ name, plans.Guide fun inner => call inner name
  parenthesized : plans.Guide parenthesized
  primary : plans.Guide primary
  unary : plans.Guide unary
  binary : plans.Guide binary
  assignment : plans.Guide assignment
  blockItem : plans.Guide blockItem
  compound : plans.Guide compound
  body : ∀ field, plans.Guide fun inner => body inner field
  condition : plans.Guide condition
  ifStatement : plans.Guide ifStatement
  whileStatement : plans.Guide whileStatement
  switchStatement : plans.Guide switchStatement
  caseStatement : plans.Guide caseStatement
  returnStatement : plans.Guide returnStatement
  expressionStatement : plans.Guide expressionStatement
  statement : plans.Guide Script.statement
  modParam : plans.Guide Level.modParam
  routeBody : ∀ children, plans.Guide fun inner => inner.routeBody children
  routeDefinition : plans.Guide Level.routeDefinition
  item : ∀ t, plans.Guide fun inner => inner.item t
  items : plans.Guide Level.items
  /-- The top level of a script has all nestings left, and so starts the counter at zero. -/
  items_topLevel : topLevel.items = Script.items

theorem exists_complete : ∃ plans : Plans, plans.Complete := by
  obtain ⟨statement, hs⟩ := planned_statement
  obtain ⟨expression, he⟩ := planned_assignment
  obtain ⟨operand, ho⟩ := planned_unary
  have describe : Plans.Describe ⟨statement, expression, operand⟩ := ⟨hs, he, ho⟩
  exact ⟨_, {
    describe
    argument := fun children => (planned_argument children).guided describe
    argumentList := planned_argumentList.guided describe
    call := fun name => (planned_call name).guided describe
    parenthesized := planned_parenthesized.guided describe
    primary := planned_primary.guided describe
    unary := planned_unary.guided describe
    binary := (planned_chain tightest).guided describe
    assignment := planned_assignment.guided describe
    blockItem := planned_blockItem.guided describe
    compound := planned_compound.guided describe
    body := fun field => (planned_body field).guided describe
    condition := planned_condition.guided describe
    ifStatement := planned_ifStatement.guided describe
    whileStatement := planned_whileStatement.guided describe
    switchStatement := planned_switchStatement.guided describe
    caseStatement := planned_caseStatement.guided describe
    returnStatement := planned_returnStatement.guided describe
    expressionStatement := planned_expressionStatement.guided describe
    statement := planned_statement.guided describe
    modParam := planned_modParam.guided describe
    routeBody := fun children => (planned_routeBody children).guided describe
    routeDefinition := planned_routeDefinition.guided describe
    item := fun t => (planned_item t).guided describe
    items := planned_items.guided describe
    items_topLevel := Level.items_topLevel }⟩

end RouteScript.Script
