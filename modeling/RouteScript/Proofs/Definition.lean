import RouteScript.Proofs.History
import RouteScript.Proofs.Program.Routes
import RouteScript.Proofs.Siblings
/-!
# Going to the definition of a route

From a place in the first argument of a call the way up leads to the argument and its list, from
there to the name of the function. In a printed program every `route(name);` leads to the first
block `route[name]` of the script.
-/
namespace RouteScript

namespace Route

variable {t : Tree} {call function word arguments argument c : Cursor} {types : List String}

theorem enclosingArgument?_of_mem (below : argument ∈ arguments.children)
    (hc : c ∈ argument.children) (inner : argument.kind ≠ Kind.argumentList) (list : arguments.kind = Kind.argumentList) :
    enclosingArgument? c = some (argument, arguments) := by
  rw [enclosingArgument?, Cursor.ancestors_of_mem_children hc,
    Cursor.ancestors_of_mem_children below]
  simp [inner, list]

/-- A place right below the first argument of a call that jumps is a reference. -/
theorem Reference.at?_of_argument (called : call.kind = Kind.call)
    (ofCall : arguments ∈ call.children) (list : arguments.kind = Kind.argumentList)
    (first : arguments.significantChildren.head? = some argument)
    (inner : argument.kind ≠ Kind.argumentList) (hc : c ∈ argument.children)
    (role : call.child? Field.function = some function)
    (callee : function.significantChildren.head? = some word)
    (jumps : targetTypes? (word.wordIn t) = some types)
    (named : unquote (argument.textIn t) ≠ []) :
    at? t c = some ⟨types, String.ofList (unquote (argument.textIn t)), argument.range⟩ := by
  have below := (List.mem_filter.1 (List.mem_of_head? first)).1
  simp [at?, enclosingArgument?_of_mem below hc inner list, first,
    Cursor.parent?_of_mem_children ofCall, called, role, callee, jumps, named]

/-- A word has no quotes at its ends. -/
theorem unquote_word {word : List Char} (wordChars : word.all Token.Lexeme.isWordChar) :
    unquote word = word := by
  have plain (c : Char) (hc : c ∈ word) : isQuote c = false := by
    refine Bool.eq_false_iff.2 fun quote => ?_
    have wordChar := List.all_eq_true.1 wordChars c hc
    rcases (by simpa [isQuote] using quote : c = '"' ∨ c = '\'') with rfl | rfl
    · exact absurd wordChar (by decide)
    · exact absurd wordChar (by decide)
  have whole (text : List Char) (sub : text ⊆ word) : text.dropWhile isQuote = text :=
    List.dropWhile_eq_self_iff.2 fun long => by simp [plain _ (sub (List.getElem_mem long))]
  rw [unquote, whole word fun _ => id, whole word.reverse fun _ => List.mem_reverse.1,
    List.reverse_reverse]

end Route

namespace Program

open Bit Outline Draft Script

/-- The node of a call with a name for its only argument. -/
def jumpDraft (word opening name closing : Nat × Nat) : Draft :=
  .branch Kind.call
    [(Draft.branch Kind.expression [.leaf Kind.identifier true word.1 word.2]).withField
        Field.function,
      (Draft.branch Kind.argumentList [.leaf "(" false opening.1 opening.2,
        .branch Kind.expression [.leaf Kind.identifier true name.1 name.2],
        .leaf ")" false closing.1 closing.2]).withField Field.arguments]

/-- The script up to the name in a call of a route. -/
def jumpFront (indent : Nat) (front : List Char) : List Char :=
  front ++ tabs indent ++ "route(".toList

/-- The node of a call of a route is in the tree of its script. -/
theorem Part.Stands.exists_jump {source : List Char} {d : Draft} {indent : Nat} {front : List Char}
    {name : Name} (h : Part.Stands source ⟨indent, front, .routeCall name⟩ d.nodes) :
    ∃ word opening inner closing, jumpDraft word opening inner closing ∈ d.nodes ∧
      (Draft.leaf Kind.identifier true word.1 word.2).SpansText (front ++ tabs indent)
        "route".toList ∧
      (Draft.leaf Kind.identifier true inner.1 inner.2).SpansText (jumpFront indent front)
        name.text := by
  obtain ⟨rest, ds, whole, laid, inside⟩ := h
  let closing := Bit.sign .rParen :: ending rest
  let inner := Bit.word name.text :: closing
  let opening := Bit.sign .lParen :: inner
  let word := Bit.word "route".toList :: opening
  let span (bits behind : List Bit) :=
    (offset (Text.size source) bits, offset (Text.size source) behind)
  let call := jumpDraft (span word opening) (span opening inner) (span inner closing)
    (span closing (ending rest))
  let semicolon := span (ending rest) (.newline :: rest)
  have made : Laid source (Stmt.routeCall name).outlines
      ((Stmt.routeCall name).bits indent rest) [.branch Kind.statement
        [.branch Kind.expression [call], .leaf ";" false semicolon.1 semicolon.2]] rest := rfl
  have here : call ∈ d.nodes := by
    obtain rfl := congrArg Prod.fst (laid.symm.trans made)
    have statement := inside (List.mem_singleton_self _)
    have expression := @Rose.mem_nodes_of_child _ _ _ (Draft.branch Kind.expression [call])
      statement List.mem_cons_self
    exact Rose.mem_nodes_of_child expression (List.mem_singleton_self _)
  have start : source = (front ++ tabs indent) ++ textOf word := by
    rw [whole]
    simp [Stmt.bits, word, opening, inner, closing]
  have behind : source = jumpFront indent front ++ textOf inner := by
    rw [start]
    simp [jumpFront, word, opening, Token.Kind.spelling?]
  exact ⟨_, _, _, _, here, spansText_offset start rfl rfl rfl, spansText_offset behind rfl rfl rfl⟩

section Reading

variable {text before front : List Char} {word opening inner closing : Nat × Nat} {name : Name}

/-- The name in the node of a call of a route is a reference to routes with this name. -/
theorem exists_reference (h : jumpDraft word opening inner closing ∈ (draft text).stripped.nodes)
    (callee : (Draft.leaf Kind.identifier true word.1 word.2).SpansText before "route".toList)
    (called : ∃ behind, text = before ++ "route".toList ++ behind)
    (argument : (Draft.leaf Kind.identifier true inner.1 inner.2).SpansText front name.text)
    (named : ∃ behind, text = front ++ name.text ++ behind) :
    ∃ c ∈ (Tree.ofScript text).cursors, c.core = .leaf Kind.identifier true inner.1 inner.2 ∧
      ∃ range, Route.Reference.at? (.ofScript text) c =
        some ⟨["route"], String.ofList name.text, range⟩ := by
  obtain ⟨call, hcall, _, core⟩ := Tree.exists_cursor h
  obtain ⟨function, hfunction, role, functionCore⟩ :=
    Tree.exists_child? hcall Field.function (by rw [core]; rfl)
  obtain ⟨first, _, functionOnly, firstCore⟩ :=
    Tree.exists_significantChild hfunction (by rw [functionCore]; rfl)
  obtain ⟨arguments, harguments, list, listCore⟩ :=
    Tree.exists_child? hcall Field.arguments (by rw [core]; rfl)
  obtain ⟨value, hvalue, argumentsOnly, valueCore⟩ :=
    Tree.exists_significantChild harguments (by rw [listCore]; rfl)
  obtain ⟨c, hc, valueOnly, nameCore⟩ :=
    Tree.exists_significantChild hvalue (by rw [valueCore]; rfl)
  have callKind : call.kind = Kind.call := by rw [call.kind_core, core]; rfl
  have listKind : arguments.kind = Kind.argumentList := by rw [arguments.kind_core, listCore]; rfl
  have valueKind : value.kind = Kind.expression := by rw [value.kind_core, valueCore]; rfl
  have child : c ∈ value.children :=
    (List.mem_filter.1 (valueOnly ▸ List.mem_singleton_self c : c ∈ value.significantChildren)).1
  have word : first.wordIn (.ofScript text) = "route" := by
    rw [Cursor.wordIn, textIn_of_spansText called (firstCore ▸ callee), String.ofList_toList]
  have spelled : value.textIn (.ofScript text) = name.text := by
    refine textIn_of_spansText named ?_
    rw [valueCore]
    exact argument
  have title : Route.unquote (value.textIn (.ofScript text)) = name.text := by
    rw [spelled, Route.unquote_word name.wordChars]
  have some_name : name.text ≠ [] := fun none => by simpa [none] using name.starts
  refine ⟨c, hc, nameCore, value.range, ?_⟩
  rw [← title]
  refine Route.Reference.at?_of_argument callKind (List.mem_of_find?_eq_some list) listKind
    (by rw [argumentsOnly]; rfl) (by rw [valueKind]; decide) child role (by rw [functionOnly]; rfl)
    (by rw [word]; rfl) (title ▸ some_name)

end Reading

/-- A place on the name in a call of a route is a reference to routes with this name. -/
theorem reference_code {p : Program} (shallow : p.nesting ≤ 50) {indent : Nat} {front : List Char}
    {name : Name} (call : ⟨indent, front, .routeCall name⟩ ∈ p.statements) {k : Nat}
    (low : Text.size (jumpFront indent front) ≤ k)
    (high : k < Text.size (jumpFront indent front ++ name.text)) :
    ∃ c range, (Tree.ofScript p.code).nodeAt? ((Tree.ofScript p.code).pointAt k) = some c ∧
      Route.Reference.at? (.ofScript p.code) c =
        some ⟨["route"], String.ofList name.text, range⟩ := by
  have stands := statements_stand p shallow _ call
  obtain ⟨rest, _, whole, _⟩ := stands
  have written : p.code =
      jumpFront indent front ++ name.text ++ (");\n".toList ++ textOf rest) := by
    rw [whole, Stmt.textOf_bits]
    simp [Stmt.code, jumpFront]
  obtain ⟨word, opening, inner, closing, jump, callee, argument⟩ :=
    (statements_stand p shallow _ call).exists_jump
  obtain ⟨c, hc, core, range, reference⟩ := exists_reference jump callee
    ⟨['('] ++ name.text ++ (");\n".toList ++ textOf rest), by rw [written]; simp [jumpFront]⟩
    argument ⟨_, written⟩
  have kind : c.kind = Kind.identifier := by rw [c.kind_core, core]; rfl
  have inner : c.kind ≠ Kind.sourceFile := by rw [kind]; decide
  have notExtra : c.notExtra := by
    by_contra extra
    have comment := Tree.kind_of_extra hc (by simpa using extra)
    rw [kind] at comment
    exact absurd comment (by decide)
  have childless : c.children = [] := Tree.children_of_core hc inner (by rw [core]; rfl)
  have covers : c.covers ((Tree.ofScript p.code).pointAt k) := by
    obtain ⟨start, stop⟩ := Tree.points_of_mem hc
    rw [Cursor.covers_iff, start, stop, Tree.pointAt_le_iff, Tree.pointAt_lt_iff, c.start_core,
      c.stop_core, core]
    exact ⟨argument.1 ▸ low, argument.2 ▸ high⟩
  have inside : c ≠ .root (.ofScript p.code) := fun root => inner (by rw [root]; rfl)
  obtain ⟨e, found, he, _⟩ :=
    Tree.nodeAt?_of_covers (Tree.noError_code p shallow) hc inside notExtra
    (by rw [c.isNamed_core, core]; rfl) (Tree.bare_of_leaf hc inner notExtra childless) covers
  rw [Cursor.preorder_eq, childless] at he
  obtain rfl := List.mem_singleton.1 he
  exact ⟨e, range, found, reference⟩

end Program

namespace Store

open Program

variable {settings : Settings} {history : List Operation} {uri : String} {d : Document}

/--
In a printed program the definition of the name in `route(name);` is, at every byte of the name and
for every such statement anywhere in the program, the first block `route[name]` at the top: its
range starts with the word `route`, and its name is selected. Without such a block there is none.
-/
theorem definition?_code (opened : (ofHistory settings history).get? uri = some d) {p : Program}
    (shallow : p.nesting ≤ 50) (text : d.text = p.code) {indent : Nat} {front : List Char}
    {name : Name} (call : ⟨indent, front, .routeCall name⟩ ∈ p.statements) {k : Nat}
    (low : Text.size (jumpFront indent front) ≤ k)
    (high : k < Text.size (jumpFront indent front ++ name.text)) :
    (∃ behind, p.code = front ++ (Stmt.routeCall name).code indent ++ behind) ∧
      (∀ b ∈ p.blocks, ∃ behind, p.code = b.front ++ b.code ++ behind) ∧
      (p.blocks.Pairwise fun a b => Text.size a.front < Text.size b.front) ∧
      (ofHistory settings history).definition? uri (d.tree.pointAt k) =
        (p.blocks.find? fun b =>
          b.type.word = "route" ∧ b.name.map Name.text = some name.text).map
            (Block.route p.code) := by
  have coherent := (ofHistory_holds settings history).2 uri d opened
  have tree : d.tree = Tree.ofScript p.code := text ▸ coherent.tree
  refine ⟨?_, fun b hb => ?_, blocksFrom_ordered _ _, ?_⟩
  · obtain ⟨rest, _, whole, _⟩ := statements_stand p shallow _ call
    exact ⟨Bit.textOf rest, by rw [whole, Stmt.textOf_bits, List.append_assoc]⟩
  · have stand : List.Forall₂ (flip fun d b => Block.Stands p.code b d) _ _ :=
      blocks_stand p shallow
    obtain ⟨_, _, stands⟩ := exists_of_forall₂ stand.flip hb
    exact stands.written
  · obtain ⟨c, range, found, reference⟩ := reference_code shallow call low high
    have routes : d.routes = p.blocks.map (Block.route p.code) := by
      rw [coherent.routes, tree, routes_code p shallow]
    have resolved : (ofHistory settings history).definition? uri (d.tree.pointAt k) =
        Route.resolve? d.routes ⟨["route"], String.ofList name.text, range⟩ := by
      rw [definition?, opened, Option.bind_some, Document.definition?, tree, found]
      simp only [Option.bind_eq_bind, Option.bind_some, reference]
    rw [resolved, routes, Route.resolve?, List.find?_map]
    refine congrArg (Option.map _) (congrArg (List.find? · p.blocks) (funext fun b => ?_))
    rw [Function.comp_apply, Block.route, Bool.eq_iff_iff]
    cases b.name <;> simp [String.ofList_inj]

theorem route_mem : "route" ∈ Vocabulary.routeTypes := by decide

/-- A call inside of a condition, with a block of another type, two of its name behind it, and a
call to which only a block of another type has the name. -/
def jumping : Program :=
  let a : Name := ⟨"A".toList, rfl, rfl, by decide⟩
  let b : Name := ⟨"B".toList, rfl, rfl, by decide⟩
  let route : RouteType := ⟨"route", route_mem⟩
  let reply : RouteType := ⟨"onreply_route", by decide⟩
  ⟨[.route reply (some a) [], .route reply (some b) [],
    .route route none
      [.loop (.number 1) [.comment ⟨"c".toList, by decide⟩, .routeCall a], .routeCall b],
    .route route (some a) [.drop], .route route (some a) [.exit]]⟩

theorem definition?_code_jumping :
    let s := ofHistory default [.openText "a" 1 jumping.code]
    let shown (k : Nat) := (s.definition? "a" ((Tree.ofScript jumping.code).pointAt k)).map
      fun r => (r.label, r.range.start, r.selection.start)
    shown 81 = some ("route[A]", 101, 107) ∧ shown 95 = none := by
  intro s shown
  obtain ⟨d, opened, text, tree⟩ := get?_openText default "a" 1 jumping.code
  have inner := List.mem_of_getElem? (rfl : jumping.statements[2]? = some _)
  have outer := List.mem_of_getElem? (rfl : jumping.statements[3]? = some _)
  have first := (definition?_code opened (by decide) text inner (by decide : _ ≤ 81)
    (by decide)).2.2.2
  have second := (definition?_code opened (by decide) text outer (by decide : _ ≤ 95)
    (by decide)).2.2.2
  rw [tree] at first second
  dsimp only [shown, s]
  rw [first, second]
  decide

end Store

end RouteScript
