import RouteScript.Proofs.Definition
import RouteScript.Proofs.Scanned
/-!
# Spellings of route names

The name of a route is one token where it is declared and where it is called. A call leaves out the
quotes of a string, a declaration keeps them, so a route is found under identifiers and numbers and
never under a string.
-/
namespace RouteScript

namespace Route

/-- A text without the quotes at its ends does not begin with a quote. -/
theorem head?_unquote {text : List Char} {c : Char} (head : (unquote text).head? = some c) :
    isQuote c = false := by
  have front : unquote text <+: text.dropWhile isQuote := by
    rw [unquote, ← List.reverse_suffix, List.reverse_reverse]
    exact List.dropWhile_suffix isQuote
  obtain ⟨rest, text_eq⟩ := List.head?_eq_some_iff.1 head
  have begins : (text.dropWhile isQuote).head? = some c := by
    obtain ⟨behind, whole⟩ := front
    rw [← whole, text_eq]
    rfl
  have stops := List.head?_dropWhile_not isQuote text
  rw [begins] at stops
  simpa using stops

theorem isBlank_of_isQuote {c : Char} (h : isQuote c) : Text.isBlank c = false := by
  rcases (by simpa [isQuote] using h : c = '"' ∨ c = '\'') with rfl | rfl <;> decide

/-- Nothing is cut from the ends of a string. -/
theorem trim_quotes {quote : Char} (h : isQuote quote) (inner : List Char) :
    Text.trim (quote :: (inner ++ [quote])) = quote :: (inner ++ [quote]) := by
  have noBlank : ¬ Text.isBlank quote := by simp [isBlank_of_isQuote h]
  have reversed : (quote :: (inner ++ [quote])).reverse = quote :: (quote :: inner).reverse := by
    simp
  rw [Text.trim, Text.trimStart, List.dropWhile_cons_of_neg noBlank, Text.trimEnd, reversed,
    List.dropWhile_cons_of_neg noBlank, ← reversed, List.reverse_reverse]

section Names

variable {name : List Char} {kind : Token.Kind} (single : Token.single? name = some kind)
  (spelled : kind ∈ [Token.Kind.identifier, .number, .string])
include single spelled

theorem trim_name : Text.trim name = name := by
  by_cases string : kind = .string
  · subst string
    obtain ⟨quote, inner, isQuote, rfl⟩ := Token.quotes_of_single? single
    exact trim_quotes isQuote inner
  · exact Script.trim_word (Token.word_of_single? single (by simpa [string] using spelled)).2

/-- A call leaves out the quotes of a string and nothing else. -/
theorem unquote_name_iff : unquote name = name ↔ kind ≠ .string := by
  refine ⟨fun same string => ?_, fun word => ?_⟩
  · subst string
    obtain ⟨quote, inner, quoted, rfl⟩ := Token.quotes_of_single? single
    have plain := head?_unquote (congrArg List.head? same)
    rw [quoted] at plain
    contradiction
  · exact unquote_word (Token.word_of_single? single (by simpa [word] using spelled)).2

end Names

/-- A block at the top of a script that declares a route. -/
@[mk_iff]
structure Declares (t : Tree) (block : Cursor) (type : String) (name : List Char) : Prop where
  top : block ∈ (Cursor.root t).significantChildren
  kind : block.kind = Kind.routeDefinition
  body : (block.child? Field.body).isSome
  type : (block.child? Field.routeType).map (·.wordIn t) = some type
  name : (block.child? Field.name).map (·.textIn t) = some name

/-- A call that jumps to routes of some types, with one leaf for its first argument. -/
@[mk_iff]
structure JumpsTo (t : Tree) (call argument : Cursor) (types : List String) (name : List Char) :
    Prop where
  there : call ∈ t.cursors
  kind : call.kind = Kind.call
  callee : ((call.child? Field.function).bind fun c => c.significantChildren.head?).bind
    (fun word => targetTypes? (word.wordIn t)) = some types
  first : ∃ arguments ∈ call.children, arguments.kind = Kind.argumentList ∧
    arguments.significantChildren.head? = some argument
  expression : argument.kind = Kind.expression
  single : argument.children.length = 1
  leaf : ∀ leaf ∈ argument.children, leaf.children = [] ∧ leaf.isNamed ∧
    leaf.kind ∈ [Kind.identifier, Kind.number, Kind.string]
  name : argument.textIn t = name

instance (t : Tree) (block : Cursor) (type : String) (name : List Char) :
    Decidable (Declares t block type name) := decidable_of_iff' _ (declares_iff ..)

instance (t : Tree) (call argument : Cursor) (types : List String) (name : List Char) :
    Decidable (JumpsTo t call argument types name) := decidable_of_iff' _ (jumpsTo_iff ..)

section Route

variable {t : Tree} {block call argument : Cursor} {type : String} {types : List String}
  {name : List Char}

theorem Declares.exists_route (h : Declares t block type name) :
    ∃ r ∈ t.routes, r.type = type ∧ r.name = some (String.ofList (Text.trim name)) := by
  obtain ⟨body, hbody⟩ := Option.isSome_iff_exists.1 h.body
  obtain ⟨typeNode, htype, type_eq⟩ := Option.map_eq_some_iff.1 h.type
  obtain ⟨nameNode, hname, name_eq⟩ := Option.map_eq_some_iff.1 h.name
  have route : ofNode? t block = some ⟨type, some (String.ofList (Text.trim name)), block.range,
      nameNode.range⟩ := by
    simp [ofNode?, hbody, htype, hname, type_eq, name_eq]
  exact ⟨_, List.mem_filterMap.2 ⟨block, List.mem_filter.2 ⟨h.top, by simp [h.kind]⟩, route⟩,
    rfl, rfl⟩

/-- A place right below the argument is a reference under what the quotes leave, if anything. -/
theorem JumpsTo.at?_eq (h : JumpsTo t call argument types name) {leaf : Cursor}
    (below : leaf ∈ argument.children) : Reference.at? t leaf =
      if unquote name = [] then none
      else some ⟨types, String.ofList (unquote name), argument.range⟩ := by
  obtain ⟨word, hword, jumps⟩ := Option.bind_eq_some_iff.1 h.callee
  obtain ⟨function, role, callee⟩ := Option.bind_eq_some_iff.1 hword
  obtain ⟨arguments, ofCall, list, first⟩ := h.first
  have inner : argument.kind ≠ Kind.argumentList := by rw [h.expression]; decide
  split
  · next nothing =>
    have child := (List.mem_filter.1 (List.mem_of_head? first)).1
    simp [Reference.at?, enclosingArgument?_of_mem child below inner list, first,
      Cursor.parent?_of_mem_children ofCall, h.name, nothing]
  · next named =>
    rw [Reference.at?_of_argument h.kind ofCall list first inner below role callee jumps
      (h.name ▸ named), h.name]

/-- The node at a place in the argument is the leaf of which it consists. -/
theorem JumpsTo.exists_leaf {text : List Char} {p : Point}
    (h : JumpsTo (.ofScript text) call argument types name)
    (noError : (Tree.ofScript text).hasError = false) (here : argument.covers p) :
    ∃ leaf ∈ argument.children, (Tree.ofScript text).nodeAt? p = some leaf := by
  obtain ⟨arguments, ofCall, _, first⟩ := h.first
  obtain ⟨leaf, only⟩ := List.length_eq_one_iff.1 h.single
  have child := (List.mem_filter.1 (List.mem_of_head? first)).1
  have hargument : argument ∈ (Tree.ofScript text).cursors :=
    Cursor.mem_preorder_of_child (Cursor.mem_preorder_of_child h.there ofCall) child
  have below : leaf ∈ argument.children := only ▸ List.mem_singleton_self leaf
  obtain ⟨childless, named, kinds⟩ := h.leaf leaf below
  have hleaf := Cursor.mem_preorder_of_child hargument below
  have inner : leaf.kind ≠ Kind.sourceFile := fun same => by
    rw [same] at kinds
    exact absurd kinds (by decide)
  have framed := Tree.framed_cursor hargument (by rw [h.expression]; decide)
  have drafts : argument.draft.children = [leaf.draft] := by
    rw [← argument.map_draft_children, only]
    rfl
  obtain ⟨extra, start⟩ := framed.first leaf.draft (by rw [drafts]; rfl)
  have stop := (framed.last leaf.draft (by rw [drafts]; rfl)).1
  have notExtra : leaf.notExtra := by
    rw [leaf.label_draft] at extra
    simpa [Cursor.notExtra, Node.notExtra, Node.isExtra] using extra
  have covers : leaf.covers p := by
    refine Tree.covers_of_inside hleaf hargument ⟨?_, ?_⟩ here
    · rw [leaf.start_eq, argument.start_eq, start]
    · rw [leaf.stop_eq, argument.stop_eq, stop]
  obtain ⟨c, found, hc, _⟩ := Tree.nodeAt?_of_covers noError hleaf
    (fun root => inner (by rw [root]; rfl)) notExtra named
    (Tree.bare_of_leaf hleaf inner notExtra childless) covers
  rw [Cursor.preorder_eq, childless] at hc
  obtain rfl := List.mem_singleton.1 hc
  exact ⟨c, below, found⟩

end Route

end Route

namespace Store

open Route

variable {settings : Settings} {history : List Operation} {uri : String} {d : Document}
  {block call argument : Cursor} {type : String} {types : List String} {name : List Char}
  {kind : Token.Kind} {p : Point}

/--
In a script without errors that declares a route at the top under an identifier, a number or a
string, a call with the same spelling, anywhere in the script, leads from every place in this
spelling to the first route of a type it may jump to that is declared so, exactly if the spelling is
no string. A string leads to the first of the routes that are declared under its text without the
quotes.
-/
theorem definition?_spelling (opened : (ofHistory settings history).get? uri = some d)
    (noError : d.tree.hasError = false) (single : Token.single? name = some kind)
    (spelled : kind ∈ [Token.Kind.identifier, .number, .string])
    (declared : Declares d.tree block type name) (called : JumpsTo d.tree call argument types name)
    (may : type ∈ types) (here : argument.covers p) :
    (∃ r, d.routes.find? (fun r => r.type ∈ types ∧ r.name = some (String.ofList name)) = some r ∧
      ((ofHistory settings history).definition? uri p = some r ↔ kind ≠ .string)) ∧
    (unquote name ≠ [] → (ofHistory settings history).definition? uri p = d.routes.find? fun r =>
      r.type ∈ types ∧ r.name = some (String.ofList (unquote name))) := by
  have coherent := (ofHistory_holds settings history).2 uri d opened
  have routes : d.routes = d.tree.routes := coherent.routes
  obtain ⟨leaf, below, found⟩ : ∃ leaf ∈ argument.children, d.tree.nodeAt? p = some leaf := by
    have tree : d.tree = Tree.ofScript d.text := coherent.tree
    rw [tree] at called noError ⊢
    exact called.exists_leaf noError here
  have resolved : (ofHistory settings history).definition? uri p =
      if unquote name = [] then none
      else d.routes.find? fun r =>
        r.type ∈ types ∧ r.name = some (String.ofList (unquote name)) := by
    rw [definition?, opened, Option.bind_some, Document.definition?, found]
    simp only [Option.bind_eq_bind, Option.bind_some, called.at?_eq below]
    split
    · rfl
    · refine congrArg (List.find? · d.routes) (funext fun r => ?_)
      rw [Bool.eq_iff_iff]
      simp
  refine ⟨?_, fun some_name => by rw [resolved, if_neg some_name]⟩
  obtain ⟨r₀, there, rtype, rname⟩ := declared.exists_route
  rw [trim_name single spelled] at rname
  obtain ⟨r, first⟩ := Option.isSome_iff_exists.1
    (List.find?_isSome.2 ⟨r₀, routes ▸ there, by simp [rtype, rname, may]⟩ :
      (d.routes.find? fun r => r.type ∈ types ∧ r.name = some (String.ofList name)).isSome)
  refine ⟨r, first, fun leads => ?_, fun word => ?_⟩
  · have named : r.type ∈ types ∧ r.name = some (String.ofList name) := by
      simpa using List.find?_some first
    rw [resolved] at leads
    split at leads
    · contradiction
    · have unquoted : r.type ∈ types ∧ r.name = some (String.ofList (unquote name)) := by
        simpa using List.find?_some leads
      rw [named.2, Option.some_inj, String.ofList_inj] at unquoted
      exact (unquote_name_iff single spelled).1 unquoted.2.symm
  · have same := (unquote_name_iff single spelled).2 word
    have some_name : name ≠ [] := by
      obtain ⟨c, rest, rfl, _⟩ := Token.single?_eq_some_iff.1 single
      exact List.cons_ne_nil c rest
    rw [resolved, same, if_neg some_name, first]

/-- A route under a number. -/
theorem definition?_spelling_number :
    let s := ofHistory default
      [.openText "a" 1 "route[1] \x7b\n\x7d\nrequest_route \x7b\nroute(1);\n\x7d\n".toList]
    (s.definition? "a" ⟨3, 6⟩).map Route.label = some "route[1]" := by
  intro s
  let t := Tree.ofScript "route[1] \x7b\n\x7d\nrequest_route \x7b\nroute(1);\n\x7d\n".toList
  obtain ⟨d, opened, text, tree⟩ := get?_openText default "a" 1
    "route[1] \x7b\n\x7d\nrequest_route \x7b\nroute(1);\n\x7d\n".toList
  have noError : t.hasError = false := by decide +kernel
  have declared : ∃ block ∈ t.cursors, Declares t block "route" ['1'] := by decide +kernel
  have called : ∃ call ∈ t.cursors, ∃ argument ∈ call.preorder,
      JumpsTo t call argument ["route"] ['1'] ∧ argument.covers ⟨3, 6⟩ := by
    decide +kernel
  have label : (t.routes.find? fun r => r.type ∈ ["route"] ∧ r.name = some "1").map Route.label =
      some "route[1]" := by
    decide +kernel
  obtain ⟨block, _, declared⟩ := declared
  obtain ⟨call, _, argument, _, called, here⟩ := called
  change d.tree = t at tree
  rw [← tree] at noError declared called label
  obtain ⟨⟨r, first, leads⟩, _⟩ := definition?_spelling opened noError
    (by decide : Token.single? ['1'] = some .number) (by decide) declared called (by decide) here
  have routes : d.routes = d.tree.routes := ((ofHistory_holds _ _).2 "a" d opened).routes
  rw [← routes] at label
  rw [leads.2 (by decide), ← label, ← first]

/-- A route under a string, which no call finds. -/
theorem definition?_spelling_string :
    let text := "route[\"A\"] \x7b\n\x7d\nrequest_route \x7b\nroute(\"A\");\n\x7d\n".toList
    let t := Tree.ofScript text
    t.hasError = false ∧ Token.single? "\"A\"".toList = some .string ∧
      (∃ block ∈ t.cursors, Declares t block "route" "\"A\"".toList) ∧
      (∃ call ∈ t.cursors, ∃ argument ∈ call.preorder,
        JumpsTo t call argument ["route"] "\"A\"".toList ∧ argument.covers ⟨3, 7⟩) ∧
      (ofHistory default [.openText "a" 1 text]).definition? "a" ⟨3, 7⟩ = none := by
  decide +kernel

end Store

end RouteScript
