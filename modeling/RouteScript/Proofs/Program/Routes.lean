import RouteScript.Proofs.Descent
import RouteScript.Proofs.Program.Recorded
import RouteScript.Proofs.Program.Parts
import RouteScript.Proofs.Recovery.Index
/-!
# The structure below a cursor

`Cursor.core` is a node less the comments below it. Comments have no role and nothing below them, so
the steps down from a cursor are those in its core, and every node in a core has a cursor.

The routes of the tree of a printed program are its route blocks, in the order of the script. Each
has its type and its name, its range reaches from its first word to its closing brace, and what
names it is selected.
-/
namespace RouteScript

/-- The first child of a draft in a role. -/
def Draft.child? (d : Draft) (field : String) : Option Draft :=
  d.children.find? fun c => c.label.field == some field

namespace Cursor

/-- The structure at and below the node. -/
def core (c : Cursor) : Draft := c.draft.stripped

variable (c : Cursor)

theorem label_core : c.core.label = c.node.tag := by rw [core, Draft.label_stripped, label_draft]

theorem kind_core : c.kind = c.core.label.kind := by rw [label_core]; rfl

theorem isNamed_core : c.isNamed = c.core.label.named := by rw [label_core]; rfl

theorem start_core : c.node.start = c.core.start := by rw [Draft.start, label_core]; rfl

theorem stop_core : c.node.stop = c.core.stop := by rw [Draft.stop, label_core]; rfl

theorem textIn_core (t : Tree) : c.textIn t = Text.slice t.source c.core.start c.core.stop := by
  rw [textIn, Tree.textOf, start_core, stop_core]

/-- The children that belong to the structure are those of the core. -/
theorem map_core_children : (c.children.filter notExtra).map core = c.core.children := by
  have shape : c.draft = .node c.node.tag (c.children.map draft) := by
    have label := c.label_draft
    have children := c.map_draft_children
    cases whole : c.draft with
    | node t ds =>
      rw [whole] at label children
      rw [← label, children]
      rfl
  have kept : (fun d : Draft => !d.label.extra) ∘ draft = notExtra := funext fun d => by
    rw [Function.comp_apply, label_draft]
    rfl
  rw [core, shape, Draft.stripped_node, List.filter_map, kept, List.map_map]
  rfl

theorem map_core_significantChildren : c.significantChildren.map core =
    c.core.children.filter fun d => d.label.named := by
  have named : (fun d : Draft => d.label.named) ∘ core = isNamed := funext fun d => by
    rw [Function.comp_apply, ← isNamed_core]
  rw [← map_core_children, List.filter_map, named, List.filter_filter]
  rfl

variable {c}

/-- Every node in the core of a node has a place below it. -/
theorem exists_core {n : Draft} (notExtra : c.notExtra) (hn : n ∈ c.core.nodes) :
    ∃ d ∈ c.preorder, d.notExtra ∧ d.core = n := by
  induction c using Cursor.induction with
  | step c ih =>
    have shape : c.core.nodes = c.core :: c.core.children.flatMap Rose.nodes := by
      cases c.core
      exact Rose.nodes_node _ _
    rw [shape, ← map_core_children] at hn
    rcases List.mem_cons.1 hn with rfl | below
    · exact ⟨c, c.mem_preorder_self, notExtra, rfl⟩
    · obtain ⟨_, there, hn⟩ := List.mem_flatMap.1 below
      obtain ⟨d, hd, rfl⟩ := List.mem_map.1 there
      obtain ⟨child, notExtra⟩ := List.mem_filter.1 hd
      obtain ⟨e, he, found⟩ := ih d child notExtra hn
      rw [preorder_eq]
      exact ⟨e, List.mem_cons_of_mem _ (List.mem_flatMap.2 ⟨d, child, he⟩), found⟩

end Cursor

namespace Tree

variable {text : List Char} {c : Cursor}

/-- Comments have no role. -/
theorem child?_eq (hc : c ∈ (ofScript text).cursors) (field : String) :
    c.child? field = (c.children.filter Cursor.notExtra).find? (·.node.field? == some field) := by
  rw [List.find?_filter, Cursor.child?, ← List.head?_filter, ← List.head?_filter]
  refine congrArg List.head? (List.filter_congr fun d hd => ?_)
  cases notExtra : d.notExtra with
  | true => simp only [true_and, Bool.decide_eq_true]
  | false =>
    have free : d.node.field? = none := by
      have field := (isExtraLeaf_of_extra (Cursor.mem_preorder_of_child hc hd) notExtra).field
      rwa [Node.label_thaw] at field
    simp [free]

theorem map_core_child? (hc : c ∈ (ofScript text).cursors) (field : String) :
    (c.child? field).map Cursor.core = c.core.child? field := by
  have same : (fun d : Draft => d.label.field == some field) ∘ Cursor.core =
      fun d => d.node.field? == some field := funext fun d => by
    rw [Function.comp_apply, d.label_core]
    rfl
  rw [Draft.child?, ← Cursor.map_core_children, List.find?_map, same, child?_eq hc]

theorem exists_child? (hc : c ∈ (ofScript text).cursors) (field : String) {d : Draft}
    (there : c.core.child? field = some d) :
    ∃ e ∈ (ofScript text).cursors, c.child? field = some e ∧ e.core = d := by
  obtain ⟨e, found, same⟩ := Option.map_eq_some_iff.1 ((map_core_child? hc field).trans there)
  exact ⟨e, mem_cursors_of_child? hc found, found, same⟩

theorem exists_significantChild (hc : c ∈ (ofScript text).cursors) {d : Draft}
    (only : (c.core.children.filter fun d => d.label.named) = [d]) :
    ∃ e ∈ (ofScript text).cursors, c.significantChildren = [e] ∧ e.core = d := by
  obtain ⟨e, found, same⟩ :=
    List.map_eq_singleton_iff.1 (c.map_core_significantChildren.trans only)
  have child : e ∈ c.significantChildren := found ▸ List.mem_singleton_self e
  exact ⟨e, Cursor.mem_preorder_of_child hc (List.mem_filter.1 child).1, found, same⟩

theorem exists_cursor {n : Draft} (hn : n ∈ (Script.draft text).stripped.nodes) :
    ∃ c ∈ (ofScript text).cursors, c.notExtra ∧ c.core = n := by
  have root : (Cursor.root (ofScript text)).core = (Script.draft text).stripped :=
    congrArg Draft.stripped (thaw_ofScript text)
  exact Cursor.exists_core rfl (root ▸ hn)

/-- A node with nothing in its core has no children. -/
theorem children_of_core (hc : c ∈ (ofScript text).cursors) (inner : c.kind ≠ Kind.sourceFile)
    (childless : c.core.children = []) : c.children = [] := by
  by_contra some_child
  obtain ⟨d, rest, children⟩ := List.exists_cons_of_ne_nil some_child
  have hn : c.draft ∈ (Script.draft text).nodes := Draft.thaw_mem_nodes hc
  rcases List.mem_cons.1 ((Rose.nodes_node _ _) ▸ hn) with root | below
  · exact inner (by rw [c.kind_eq, root]; rfl)
  · obtain ⟨e, he, hn⟩ := List.mem_flatMap.1 below
    have first : c.draft.children.head? = some d.draft := by
      rw [← c.map_draft_children, children]
      rfl
    have notExtra := ((Script.items_tight text e he).1 _ hn).first _ first
    rw [d.label_draft] at notExtra
    have kept : d ∈ c.children.filter Cursor.notExtra := by
      refine List.mem_filter.2 ⟨by simp [children], ?_⟩
      simpa [Cursor.notExtra, Node.notExtra, Node.isExtra] using notExtra.1
    have there := List.mem_map_of_mem (f := Cursor.core) kept
    rw [Cursor.map_core_children, childless] at there
    contradiction

end Tree

/-- The range of a text that follows another one in a source. -/
def Text.rangeBehind (source front text : List Char) : Range :=
  let start := Text.size front
  let stop := Text.size (front ++ text)
  ⟨start, stop, .ofOffset (Text.rowStarts source) start, .ofOffset (Text.rowStarts source) stop⟩

/-- A draft spans a text that follows another one. -/
def Draft.SpansText (d : Draft) (front text : List Char) : Prop :=
  d.start = Text.size front ∧ d.stop = Text.size (front ++ text)

namespace Program

open Bit Outline Draft Script

/-- The route that a block of a script is. -/
def Block.route (source : List Char) (b : Block) : Route where
  type := b.type.word
  name := b.name.map fun name => String.ofList name.text
  range := Text.rangeBehind source b.front b.code
  selection := match b.name with
    | none => Text.rangeBehind source b.front b.type.word.toList
    | some name => Text.rangeBehind source (b.front ++ b.type.word.toList ++ ['[']) name.text

/-- A draft is the node of a route block of a text, with the nodes of its statements below it. -/
structure Block.Stands (source : List Char) (b : Block) (d : Draft) : Prop where
  written : ∃ behind, source = b.front ++ b.code ++ behind
  isRoute : d.isRoute
  span : d.SpansText b.front b.code
  body : (d.child? Field.body).isSome
  type : ∃ c, d.child? Field.routeType = some c ∧ c.SpansText b.front b.type.word.toList
  name : match b.name with
    | none => d.child? Field.name = none
    | some name => ∃ c, d.child? Field.name = some c ∧
        c.SpansText (b.front ++ b.type.word.toList ++ ['[']) name.text
  parts : ∀ part ∈ b.parts, part.Stands source d.nodes

variable {source : List Char} {os : List Outline} {bits rest : List Bit} {parts : List Part}

theorem spansText_offset {d : Draft} {front text : List Char}
    (whole : source = front ++ textOf bits) (spelled : textOf bits = text ++ textOf rest)
    (start : d.start = offset (Text.size source) bits)
    (stop : d.stop = offset (Text.size source) rest) : d.SpansText front text := by
  refine ⟨start.trans (offset_eq whole), stop.trans (offset_eq ?_)⟩
  rw [whole, spelled, List.append_assoc]

/-- The node of the word that a route block starts with. -/
def typeDraft (span : Nat × Nat) : Draft :=
  (Draft.leaf Kind.routeType true span.1 span.2).withField Field.routeType

/-- The node of the name of a route block. -/
def titleDraft (span : Nat × Nat) : Draft :=
  (Draft.branch Kind.routeName [.leaf Kind.identifier true span.1 span.2]).withField Field.name

theorem Item.code_route (type : RouteType) (name : Option Name) (body : List Stmt)
    (front : List Char) :
    (Item.route type name body).code = Block.code ⟨type, name, body, front⟩ ++ ['\n'] := by
  unfold Item.code
  simp [Block.code, Block.heading, braces, tabs]

/-- A node over the parts in front of the body of a route block and the body. -/
theorem Block.stands_of_heading {b : Block} {heading : List Draft} {node : Draft}
    (written : ∃ behind, source = b.front ++ b.code ++ behind)
    (start : heading.head?.map Draft.start = some (Text.size b.front))
    (stop : node.stop = Text.size (b.front ++ b.code)) (field : node.label.field = some Field.body)
    (type : ∃ c, heading.find? (fun c => c.label.field == some Field.routeType) = some c ∧
      c.SpansText b.front b.type.word.toList)
    (name : match b.name with
      | none => heading.find? (fun c => c.label.field == some Field.name) = none
      | some name => ∃ c, heading.find? (fun c => c.label.field == some Field.name) = some c ∧
          c.SpansText (b.front ++ b.type.word.toList ++ ['[']) name.text)
    (parts : ∀ part ∈ b.parts, part.Stands source node.nodes) :
    b.Stands source (Form.branch ⟨Kind.routeDefinition, true, none, none⟩ (heading ++ [node])) := by
  have role (f : String) : (Form.branch ⟨Kind.routeDefinition, true, none, none⟩
      (heading ++ [node])).child? f = (heading.find? fun c => c.label.field == some f).or
        (if some Field.body == some f then some node else none) := by
    rw [← field]
    exact List.find?_append.trans (congrArg _ (List.find?_singleton ..))
  refine ⟨written, rfl, ⟨?_, ?_⟩, ?_, ?_, ?_, fun part hp => (parts part hp).mono ?_⟩
  · have first : (heading ++ [node]).head?.map Draft.start = some (Text.size b.front) := by
      cases heading with
      | nil => cases start
      | cons => exact start
    exact (congrArg (Option.getD · 0) first :)
  · change ((heading ++ [node]).getLast?.map Draft.stop).getD _ = _
    rw [List.getLast?_concat]
    exact stop
  · rw [role]
    simp
  · obtain ⟨c, found, spans⟩ := type
    exact ⟨c, by rw [role, found]; rfl, spans⟩
  · have other : (some Field.body == some Field.name) = false := by decide
    cases title : b.name with
    | none =>
      rw [title] at name
      simp [role, name, other]
    | some n =>
      rw [title] at name
      obtain ⟨c, found, spans⟩ := name
      exact ⟨c, by rw [role, found]; rfl, spans⟩
  · rw [Form.branch, Draft.branch, Draft.relabel, Rose.nodes_node]
    simp

/-- The node of a route block is in the tree of its script. -/
theorem Block.exists_draft (type : RouteType) (name : Option Name) (body : List Stmt)
    {front : List Char} (whole : source = front ++ textOf ((Item.route type name body).bits rest)) :
    ∃ d, Laid source [(Item.route type name body).outline] ((Item.route type name body).bits rest)
      [d] rest ∧ Block.Stands source ⟨type, name, body, front⟩ d := by
  have behind : source = (front ++ Block.code ⟨type, name, body, front⟩)
      ++ textOf (.newline :: rest) := by
    rw [whole, Item.textOf_bits, Item.code_route type name body front]
    simp
  have enclosed : source = front ++ Block.heading ⟨type, name, body, front⟩
      ++ textOf (Stmt.bitsAll 1 body (closing 0 (.newline :: rest))) := by
    rw [behind]
    simp [Block.code, tabs]
  have inner := Stmt.shows_all 1 body _ (closing 0 (.newline :: rest)) enclosed
  obtain ⟨node, laid, field, stop, stand⟩ := inner.exists_block Field.body
  have last := stop.trans (offset_eq behind)
  have first := congrArg some (offset_eq whole)
  cases name with
  | none =>
    have word : Laid source
        [labelled Field.routeType (Outline.leaf Kind.routeType type.word.toList)]
        ((Item.route type none body).bits rest) [typeDraft (offset (Text.size source)
          ((Item.route type none body).bits rest), offset (Text.size source) (space :: opening
            (Stmt.bitsAll 1 body (closing 0 (.newline :: rest)))))] _ := rfl
    refine ⟨_, (word.append laid).node ⟨Kind.routeDefinition, true, none, none⟩ (by simp), ?_⟩
    exact stands_of_heading ⟨_, behind⟩ first last field
      ⟨_, rfl, spansText_offset whole rfl rfl rfl⟩ rfl stand
  | some name =>
    let inside := opening (Stmt.bitsAll 1 body (closing 0 (.newline :: rest)))
    let title := Bit.word name.text :: Bit.sign .rBracket :: space :: inside
    have named : source = (front ++ type.word.toList ++ ['[']) ++ textOf title := by
      rw [whole]
      simp [Item.bits, title, inside, Token.Kind.spelling?]
    have words : Laid source
        [labelled Field.routeType (Outline.leaf Kind.routeType type.word.toList),
          Outline.sign .lBracket,
          labelled Field.name (nodeOf Kind.routeName [identifier name]), Outline.sign .rBracket]
        ((Item.route type (some name) body).bits rest) [typeDraft (offset (Text.size source)
          ((Item.route type (some name) body).bits rest), offset (Text.size source)
            (.sign .lBracket :: title)),
          .leaf "[" false (offset (Text.size source) (.sign .lBracket :: title))
            (offset (Text.size source) title),
          titleDraft (offset (Text.size source) title, offset (Text.size source)
            (.sign .rBracket :: space :: inside)),
          .leaf "]" false (offset (Text.size source) (.sign .rBracket :: space :: inside))
            (offset (Text.size source) (space :: inside))] (space :: inside) := rfl
    refine ⟨_, (words.append laid).node ⟨Kind.routeDefinition, true, none, none⟩ (by simp), ?_⟩
    exact stands_of_heading ⟨_, behind⟩ first last field
      ⟨_, rfl, spansText_offset whole rfl rfl rfl⟩
      ⟨_, rfl, spansText_offset named rfl rfl rfl⟩ stand

/-- One outline makes one node, of its kind. -/
theorem Laid.exists_single {o : Outline} {ds : List Draft} (h : Laid source [o] bits ds rest) :
    ∃ d, ds = [d] ∧ d.label.kind = o.label.kind := by
  refine ⟨_, (congrArg Prod.fst h).symm, ?_⟩
  have kinds := kinds_lay o (spans (Text.size source) bits)
  generalize (lay (spans (Text.size source) bits) o).1 = d at kinds
  obtain ⟨t, children⟩ := d
  obtain ⟨form, below⟩ := o
  rw [Rose.labels_node, Rose.labels_node] at kinds
  exact (List.cons.inj kinds).1

/-- The items of a program make the nodes of its route blocks. -/
theorem exists_drafts (items : List Item) {front : List Char}
    (whole : source = front ++ textOf (items.foldr Item.bits [])) :
    ∃ ds, Laid source (items.map Item.outline) (items.foldr Item.bits []) ds [] ∧
      List.Forall₂ (Block.Stands source) (blocksFrom front items) (ds.filter Draft.isRoute) := by
  induction items generalizing front with
  | nil => exact ⟨[], rfl, .nil⟩
  | cons i items ih =>
    obtain ⟨ds, laid, stand⟩ := @ih (front ++ i.code) (by simpa using whole)
    obtain ⟨_, _, here, _⟩ := i.holds whole
    obtain ⟨d, rfl, kind⟩ := here.exists_single
    have passed (other : i.outline.label.kind ≠ Kind.routeDefinition) :
        (d :: ds).filter Draft.isRoute = ds.filter Draft.isRoute :=
      List.filter_cons_of_neg (by simp [Draft.isRoute, kind, other])
    cases i with
    | route type name body =>
      obtain ⟨d, here, stands⟩ := Block.exists_draft type name body whole
      refine ⟨d :: ds, Laid.append here laid, ?_⟩
      rw [List.filter_cons_of_pos stands.isRoute]
      exact .cons stands stand
    | parameter name value =>
      have other : Kind.globalAssignment ≠ Kind.routeDefinition := by decide
      exact ⟨d :: ds, here.append laid, passed other ▸ stand⟩
    | loadModule file =>
      have other : Kind.loadModule ≠ Kind.routeDefinition := by decide
      exact ⟨d :: ds, here.append laid, passed other ▸ stand⟩
    | modParam file key value =>
      have other : Kind.modParam ≠ Kind.routeDefinition := by decide
      exact ⟨d :: ds, here.append laid, passed other ▸ stand⟩
    | assign scope name value =>
      have other : Kind.statement ≠ Kind.routeDefinition := by decide
      exact ⟨d :: ds, here.append laid, passed other ▸ stand⟩

variable (p : Program)

/-- The route blocks of a program are the nodes of routes in the structure of its tree. -/
theorem blocks_stand (shallow : p.nesting ≤ 50) : List.Forall₂ (Block.Stands p.code) p.blocks
    ((draft p.code).stripped.children.filter Draft.isRoute) := by
  obtain ⟨ds, laid, stand⟩ := @exists_drafts p.code p.items [] p.textOf_bits.symm
  have whole := layAll_code p shallow []
  have laid : layAll (spans (Text.size p.code) p.bits) (p.items.map Item.outline) = (ds, _) := laid
  rw [spans_code p shallow, List.append_nil, laid, Prod.mk.injEq] at whole
  have children : (draft p.code).stripped.children = ds := by
    rw [whole.1]
    exact congrArg Rose.children (Draft.stripped_node _ _)
  rw [children]
  exact stand

/-- Every statement of a program has its nodes in the structure of its tree. -/
theorem statements_stand (shallow : p.nesting ≤ 50) :
    ∀ part ∈ p.statements, part.Stands p.code (draft p.code).stripped.nodes := by
  intro part hpart
  obtain ⟨b, hb, hpart⟩ := List.mem_flatMap.1 hpart
  have stand : List.Forall₂ (flip fun d b => Block.Stands p.code b d) _ _ := blocks_stand p shallow
  obtain ⟨d, hd, stands⟩ := exists_of_forall₂ stand.flip hb
  refine (stands.parts part hpart).mono fun n hn => ?_
  cases root : (draft p.code).stripped with
  | node t ds =>
    rw [root] at hd
    rw [Rose.nodes_node]
    exact List.mem_cons_of_mem _ (List.mem_flatMap.2 ⟨d, (List.mem_filter.1 hd).1, hn⟩)

section Reading

variable {text front word : List Char} {b : Block} {c : Cursor}

theorem textIn_of_spansText (written : ∃ behind, text = front ++ word ++ behind)
    (spans : c.core.SpansText front word) : c.textIn (.ofScript text) = word := by
  obtain ⟨behind, rfl⟩ := written
  rw [c.textIn_core, spans.1, spans.2, Text.size_append]
  exact congrArg (Option.getD · []) (Text.slice?_append ..)

theorem range_of_spansText (hc : c ∈ (Tree.ofScript text).cursors)
    (spans : c.core.SpansText front word) : c.range = Text.rangeBehind text front word := by
  obtain ⟨start, stop⟩ := Tree.points_of_mem hc
  rw [Cursor.range, Node.range, start, stop, c.start_core, c.stop_core, spans.1, spans.2]
  rfl

/-- The route of a block is read from its node. -/
theorem Block.Stands.ofNode? (hc : c ∈ (Tree.ofScript text).cursors)
    (stands : b.Stands text c.core) : Route.ofNode? (.ofScript text) c = some (b.route text) := by
  obtain ⟨behind, written⟩ := stands.written
  obtain ⟨_, there⟩ := Option.isSome_iff_exists.1 stands.body
  obtain ⟨body, _, hbody, _⟩ := Tree.exists_child? hc _ there
  obtain ⟨_, there, spans⟩ := stands.type
  obtain ⟨type, htype, typed, rfl⟩ := Tree.exists_child? hc _ there
  have name := stands.name
  have word : type.wordIn (.ofScript text) = b.type.word := by
    have front : ∃ behind, text = b.front ++ b.type.word.toList ++ behind :=
      ⟨_, by rw [written, Block.code, Block.heading]; simp only [List.append_assoc]; rfl⟩
    rw [Cursor.wordIn, textIn_of_spansText front spans, String.ofList_toList]
  rw [Route.ofNode?, hbody, typed, Block.route]
  simp only [Option.bind_eq_bind, Option.bind_some, word, range_of_spansText hc stands.span]
  cases title : b.name with
  | none =>
    rw [title] at name
    have none : c.child? Field.name = none := by
      rw [← Option.map_eq_none_iff, Tree.map_core_child? hc]
      exact name
    simp only [none, Option.map_none, Option.getD_none, range_of_spansText htype spans]
    rfl
  | some n =>
    rw [title] at name
    obtain ⟨_, there, spans'⟩ := name
    obtain ⟨e, he, named, rfl⟩ := Tree.exists_child? hc _ there
    have front : ∃ behind, text = (b.front ++ b.type.word.toList ++ ['[']) ++ n.text ++ behind :=
      ⟨_, by
        rw [written, Block.code, Block.heading, title, brackets]
        simp only [List.append_assoc, List.cons_append, List.nil_append]
        rfl⟩
    simp only [named, Option.map_some, Option.getD_some, range_of_spansText he spans',
      textIn_of_spansText front spans', Script.trim_word n.wordChars]
    rfl

end Reading

/-- The places at which the index looks for routes are the nodes of routes in the core. -/
theorem map_core_routes (c : Cursor) : (c.significantChildren.filter fun d =>
    d.kind == Kind.routeDefinition).map Cursor.core = c.core.children.filter Draft.isRoute := by
  rw [← c.map_core_children, List.filter_map, List.filter_filter, Cursor.significantChildren,
    List.filter_filter]
  refine congrArg (List.map _) (List.filter_congr fun d _ => ?_)
  have same : d.core.isRoute = (d.isSignificant && d.kind == Kind.routeDefinition) := by
    rw [Draft.isRoute, d.label_core]
    rfl
  rw [Function.comp_apply, same]
  cases significant : d.isSignificant with
  | false => simp
  | true => simp [Cursor.notExtra_of_isSignificant significant]

theorem filterMap_ofNode? {text : List Char} {blocks : List Block} {nodes : List Cursor}
    (stand : List.Forall₂ (fun b c => b.Stands text c.core) blocks nodes)
    (inside : ∀ c ∈ nodes, c ∈ (Tree.ofScript text).cursors) :
    nodes.filterMap (Route.ofNode? (.ofScript text)) = blocks.map (Block.route text) := by
  induction stand with
  | nil => rfl
  | cons here _ ih =>
    obtain ⟨first, others⟩ := List.forall_mem_cons.1 inside
    rw [List.filterMap_cons_some (here.ofNode? first), List.map_cons, ih others]

/-- The routes of the tree of a printed program are its route blocks. -/
theorem routes_code (p : Program) (shallow : p.nesting ≤ 50) :
    (Tree.ofScript p.code).routes = p.blocks.map (Block.route p.code) := by
  have root : (Cursor.root (Tree.ofScript p.code)).core = (draft p.code).stripped :=
    congrArg Draft.stripped (Tree.thaw_ofScript p.code)
  have stand := blocks_stand p shallow
  rw [← root, ← map_core_routes] at stand
  refine filterMap_ofNode? (List.forall₂_map_right_iff.1 stand) fun c hc => ?_
  exact Cursor.mem_preorder_of_child (Cursor.mem_preorder_self _)
    (List.mem_filter.1 (List.mem_filter.1 hc).1).1

end Program

end RouteScript
