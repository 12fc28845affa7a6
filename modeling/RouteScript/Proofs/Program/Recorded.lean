import RouteScript.Proofs.Program.Standing
import RouteScript.Proofs.Extras.Rules
import RouteScript.Proofs.Variables
/-!
# The structure of a printed program

The tree of a printed program, less its comments, is known in full: it is the outline of the program
laid over the places of its bits. So its assignments are those of the program, at their places.

The tables of a printed program have one entry for every variable that it assigns anywhere, and the
last assignment gives its value and its range.
-/
namespace RouteScript

open Script

namespace Draft

theorem IsExtraLeaf.kind {d : Draft} (h : d.IsExtraLeaf) : d.label.kind ∈ extraKinds := by
  obtain ⟨t, rfl⟩ := h
  simp only [extraLeaf, asExtra, relabel, leaf, Rose.label, extraKinds]
  split <;> simp

/-- The kinds of the structure are none of those that its outline is clear of. -/
theorem kinds_of_clear {source : List Char} {d : Draft} {kinds : List String} (tight : d.Tight)
    (clear : Outline.Clear kinds (outlines source d)) :
    ∀ t ∈ d.labels, if t.extra then t.kind ∈ extraKinds else t.kind ∉ kinds := by
  have bare : ∀ n ∈ d.nodes, n.label.extra → IsExtraLeaf n := fun n hn => (tight n hn).bare
  intro t ht
  split
  · rename_i extra
    rw [Rose.labels_nodes] at ht
    obtain ⟨n, hn, rfl⟩ := List.mem_map.1 ht
    exact (bare n hn extra).kind
  · rename_i notExtra
    obtain ⟨o, ho, form, hform, same⟩ := exists_form source
      (fun n hn extra => (bare n hn extra).childless) t ht (Bool.eq_false_iff.2 notExtra)
    exact same ▸ clear o ho form hform

end Draft

/-- The leaves of a script stand where the tokens of its pieces do. -/
theorem Tree.spans_pieces (text : List Char) :
    ∃ ps, Follows text (Token.all text) ps [] ∧
      ((items (.ofText text)).1.flatMap Draft.solidLeaves).map Tag.span =
        ((ps.flatMap Piece.tokens).filter Token.isSignificant).map Token.span ∧
      (ofScript text).regions = ps.flatMap Piece.regions := by
  obtain ⟨ps, follows, marks, _, regions⟩ := leaves_pieces text
  rw [leaves_ofScript, List.filter_flatMap] at marks
  have spans := congrArg (List.map Mark.span) marks
  simp only [List.map_map, Function.comp_def, span_mark] at spans
  exact ⟨ps, follows, spans, regions⟩

namespace Program

open Bit Draft

variable (p : Program)

theorem ended_code (shallow : p.nesting ≤ 50) : ∀ d ∈ (Script.items (.ofText p.code)).1, d.Ended :=
  Tree.ended_ofScript p.code (.inl (Tree.noError_code p shallow))

theorem layAll_code (shallow : p.nesting ≤ 50) (rest : List (Nat × Nat)) :
    Outline.layAll (((Script.items (.ofText p.code)).1.flatMap solidLeaves).map Tag.span ++ rest)
        (p.items.map Item.outline) =
      (((Script.items (.ofText p.code)).1.filter fun d => !d.label.extra).map Draft.stripped,
        rest) := by
  rw [← (listed_code p shallow).outlines]
  refine layAll_outlines (fun d hd => ?_) rest
  have ended := ended_code p shallow d hd
  split
  · rename_i extra
    exact ((ended.tight d d.mem_nodes_self).bare extra).childless
  · rename_i kept
    exact ended.lies (Bool.eq_false_iff.2 kept)

theorem kinds_code (shallow : p.nesting ≤ 50) : ∀ t ∈ (draft p.code).labels,
    if t.extra then t.kind ∈ extraKinds else t.kind ∉ foreignKinds := by
  have clear : Outline.Clear foreignKinds (outlinesOf p.code (Script.items (.ofText p.code)).1) :=
    (listed_code p shallow).outlines ▸ (holds_bits p).1
  intro t ht
  rcases List.mem_cons.1 (Rose.labels_node _ _ ▸ ht) with rfl | ht
  · exact (by decide : Kind.sourceFile ∉ foreignKinds)
  · obtain ⟨d, hd, ht⟩ := List.mem_flatMap.1 ht
    have here : Outline.Clear foreignKinds (outlines p.code d) :=
      fun o ho => clear o (List.mem_flatMap.2 ⟨d, hd, ho⟩)
    exact kinds_of_clear (ended_code p shallow d hd).tight here t ht

/-- The extra nodes of a printed program are its comments. -/
theorem extras_code (shallow : p.nesting ≤ 50) : (draft p.code).Extras := by
  have bare : ∀ n ∈ (draft p.code).nodes, n.label.extra → IsExtraLeaf n := by
    refine Rose.forall_nodes_node.2 ⟨fun extra => absurd extra Bool.false_ne_true, ?_⟩
    exact fun d hd n hn => ((ended_code p shallow d hd).tight n hn).bare
  refine ⟨rfl, fun n hn => ?_, fun n hn extra => (bare n hn extra).childless,
    fun n hn extra => (bare n hn extra).field⟩
  refine ⟨fun extra => (bare n hn extra).kind, fun known => ?_⟩
  have kinds := kinds_code p shallow n.label (Rose.labels_nodes _ ▸ List.mem_map_of_mem hn)
  by_contra notExtra
  rw [if_neg notExtra] at kinds
  exact kinds (List.mem_cons_of_mem _ known)

theorem regions_code (shallow : p.nesting ≤ 50) : (Tree.ofScript p.code).regions = [] := by
  rw [Tree.regions, List.map_eq_nil_iff, List.filter_eq_nil_iff]
  intro e he markup
  have kinds := kinds_code p shallow e.tag (Tree.labels_ofScript p.code ▸ List.mem_map_of_mem he)
  rw [eq_of_beq markup] at kinds
  split at kinds
  · exact absurd kinds (by decide)
  · exact kinds List.mem_cons_self

/-- The leaves of the structure are the tokens of the script, each where its bit stands. -/
theorem spans_code (shallow : p.nesting ≤ 50) :
    ((Script.items (.ofText p.code)).1.flatMap solidLeaves).map Tag.span =
      spans (Text.size p.code) p.bits := by
  obtain ⟨ps, follows, leaves, regions⟩ := Tree.spans_pieces p.code
  have tokens : ((Token.all p.code).filter Token.isSignificant).map Token.span =
      spans (Text.size p.code) p.bits := by
    have all := spans_all p.allFit_bits
    rwa [p.textOf_bits] at all
  rcases follows.tokens_eq_or_fewer rfl (regions ▸ regions_code p shallow) with same | fewer
  · rw [leaves, same, tokens]
  · -- There would be fewer leaves than the outline of the program has.
    obtain ⟨_, ds, laid, _⟩ := holds_bits p
    have used := congrArg Prod.snd laid
    have left := congrArg Prod.snd (layAll_code p shallow [(0, 0)])
    rw [Outline.layAll_rest] at used left
    have few : (spans (Text.size p.code) p.bits).length ≤
        ((p.items.map Item.outline).flatMap Rose.leaves).length := List.drop_eq_nil_iff.1 used
    have many := congrArg List.length left
    rw [leaves, List.length_drop, List.length_append, List.length_map] at many
    rw [← tokens, List.length_map] at few
    simp only [List.length_singleton] at many
    omega

/-- The assignments in the structure of a printed program are those of the program. -/
theorem assignments_code (shallow : p.nesting ≤ 50) :
    List.Forall₂ (Assignment.Stands p.code) p.assignments (draft p.code).stripped.assignments := by
  obtain ⟨_, ds, laid, stand⟩ := holds_bits p
  have whole := layAll_code p shallow []
  rw [spans_code p shallow, List.append_nil, laid, Prod.mk.injEq] at whole
  obtain ⟨t, kind, root⟩ : ∃ t : Tag, t.kind = Kind.sourceFile ∧
      draft p.code = .node t (Script.items (.ofText p.code)).1 := ⟨_, rfl, rfl⟩
  rw [root, Draft.stripped_node, ← whole.1, assignments_node (by rw [kind]; decide)]
  exact stand

end Program

end RouteScript

namespace RouteScript

namespace Tree

variable (language : String) (source : List Char) (d : Draft)

theorem map_draft_cursors : (ofDraft language source d).cursors.map Cursor.draft = d.nodes := by
  have nodes := (Cursor.root (ofDraft language source d)).map_node_preorder
  have thawed : (ofDraft language source d).nodes = d.nodes :=
    congrArg Rose.nodes (thaw_ofDraft language source d)
  rw [← thawed, nodes_thaw]
  exact (List.map_map ..).symm.trans (congrArg (List.map Node.thaw) nodes)

theorem map_draft_assignments : ((ofDraft language source d).cursors.filter
    fun c => c.isNamed && c.kind == Kind.assignment).map Cursor.draft = d.assignments := by
  rw [Draft.assignments, ← map_draft_cursors language source, List.filter_map]
  simp only [Function.comp_def, Cursor.label_draft]
  rfl

variable {language source d}

theorem placed_cursors {c : Cursor} (hc : c ∈ (ofDraft language source d).cursors) :
    c.node.Placed (Text.rowStarts source) := by
  have nodes := (Cursor.root (ofDraft language source d)).map_node_preorder
  exact Node.placed_freezeFrom _ d 0 c.node (nodes ▸ List.mem_map_of_mem hc)

end Tree

namespace Program

/-- How long the variables of a class live. -/
def Scope.lifetime : Program.Scope → RouteScript.Scope
  | avp => .transaction
  | var => .worker
  | dlgVar => .dialog

/-- The variable that an assignment sets, under its name as the script writes it. -/
def Assignment.variable (source : List Char) (a : Assignment) : Variable where
  name := String.ofList (a.scope.code a.name)
  identifier := String.ofList a.name.text
  value := String.ofList a.value.code
  scope := a.scope.lifetime
  range :=
    let start := Text.size a.front
    let stop := Text.size (a.front ++ a.code)
    ⟨start, stop, .ofOffset (Text.rowStarts source) start,
      .ofOffset (Text.rowStarts source) stop⟩

theorem Scope.ofKind?_kind (scope : Scope) :
    RouteScript.Scope.ofKind? scope.kind = some scope.lifetime := by
  cases scope <;> decide

theorem Scope.qualify_lifetime (scope : Scope) (name : Name) :
    scope.lifetime.qualify (String.ofList name.text) = String.ofList (scope.code name) := by
  refine String.toList_inj.1 ?_
  cases scope <;> simp [RouteScript.Scope.qualify, RouteScript.Scope.pvarClass, Scope.lifetime,
    Scope.code, Scope.word]

open Bit Draft

theorem Scope.identifierOf?_marker {t : Tree} {c : Cursor} {scope : Scope}
    {word opening name closing : Nat × Nat}
    (here : c.draft = scope.marker word opening name closing) :
    Variable.identifierOf? t c = some (String.ofList (Text.slice t.source name.1 name.2)) := by
  have child : (c.child? Field.name).map Cursor.draft = some (nameDraft name) := by
    rw [c.map_draft_child?, here]
    rfl
  obtain ⟨inner, found, shape⟩ := Option.map_eq_some_iff.1 child
  have only : (inner.namedChildren.filter fun d => d.kind == Kind.identifier).map Cursor.draft =
      [.leaf Kind.identifier true name.1 name.2] := by
    rw [Cursor.namedChildren, List.filter_filter]
    refine (inner.map_draft_filter fun t => t.kind == Kind.identifier && t.named).trans ?_
    rw [shape]
    rfl
  obtain ⟨last, whole, word⟩ := List.map_eq_singleton_iff.1 only
  rw [Variable.identifierOf?, found]
  simp only [Option.bind_eq_bind, Option.bind_some, whole, List.getLast?_singleton]
  rw [last.wordIn_eq, word]
  rfl

/-- Under the node of a user variable is one node, and under that the node of its class. -/
theorem Scope.exists_marker {c : Cursor} {scope : Scope} {field : String}
    {dollar word opening name closing : Nat × Nat}
    (here : c.draft = (scope.draft dollar word opening name closing).withField field) :
    c.kind = Kind.pseudoVariable ∧ ∃ content marker, c.significantChildren = [content] ∧
      content.kind = Kind.pseudoContent ∧ content.significantChildren = [marker] ∧
        marker.draft = scope.marker word opening name closing := by
  have outer : c.significantChildren.map Cursor.draft =
      [.branch Kind.pseudoContent [scope.marker word opening name closing]] := by
    rw [c.map_draft_significantChildren, here]
    rfl
  obtain ⟨content, content_only, content_draft⟩ := List.map_eq_singleton_iff.1 outer
  have inner : content.significantChildren.map Cursor.draft =
      [scope.marker word opening name closing] := by
    rw [content.map_draft_significantChildren, content_draft]
    rfl
  obtain ⟨marker, marker_only, marker_draft⟩ := List.map_eq_singleton_iff.1 inner
  refine ⟨?_, content, marker, content_only, ?_, marker_only, marker_draft⟩
  · rw [c.kind_eq, here]
    rfl
  · rw [content.kind_eq, content_draft]
    rfl

namespace Assignment.Stands

variable {t : Tree} {c : Cursor} {a : Assignment}

theorem range (stands : a.Stands t.source c.draft)
    (placed : c.node.Placed (Text.rowStarts t.source)) :
    c.range = (a.variable t.source).range := by
  obtain ⟨dollar, _, _, _, _, _, value, here, _, _, low, high⟩ := stands
  have start : c.node.start = Text.size a.front := by
    rw [c.start_eq, here, ← low]
    rfl
  have stop : c.node.stop = Text.size (a.front ++ a.code) := by
    rw [c.stop_eq, here, ← high]
    cases value
    rfl
  rw [Cursor.range, Node.range, placed.start, placed.stop, start, stop]
  rfl

/-- The variable of an assignment is read from its node. -/
theorem ofAssignment? (stands : a.Stands t.source c.draft)
    (placed : c.node.Placed (Text.rowStarts t.source)) :
    Variable.ofAssignment? t c = some (a.variable t.source) := by
  have range := stands.range placed
  obtain ⟨dollar, word, opening, name, closing, sign, value, here, named, valued, _, _⟩ := stands
  have left : (c.child? Field.left).map Cursor.draft =
      some ((a.scope.draft dollar word opening name closing).withField Field.left) := by
    rw [c.map_draft_child?, here]
    rfl
  have right : (c.child? Field.right).map Cursor.draft = some (value.withField Field.right) := by
    rw [c.map_draft_child?, here]
    cases value
    rfl
  obtain ⟨target, target_found, target_draft⟩ := Option.map_eq_some_iff.1 left
  obtain ⟨result, result_found, result_draft⟩ := Option.map_eq_some_iff.1 right
  obtain ⟨target_kind, content, marker, content_only, content_kind, marker_only, marker_draft⟩ :=
    Scope.exists_marker target_draft
  have marker_kind : marker.kind = a.scope.kind := by
    rw [marker.kind_eq, marker_draft]
    rfl
  have word : result.wordIn t = String.ofList a.value.code := by
    rw [result.wordIn_eq, result_draft, ← valued]
    cases value
    rfl
  rw [Variable.ofAssignment?, target_found, result_found]
  simp only [Option.bind_eq_bind, Option.bind_some, target_kind, bne_self_eq_false,
    Bool.false_eq_true, if_false, content_only, List.find?_cons, content_kind, beq_self_eq_true,
    marker_only, List.head?_cons, marker_kind, a.scope.ofKind?_kind,
    a.scope.identifierOf?_marker marker_draft, named, a.scope.qualify_lifetime, word, range]
  rfl

end Assignment.Stands

theorem filterMap_ofAssignment? {t : Tree} {found : List Assignment} {nodes : List Cursor}
    (stand : List.Forall₂ (fun a c => a.Stands t.source c.draft) found nodes)
    (placed : ∀ c ∈ nodes, c.node.Placed (Text.rowStarts t.source)) :
    nodes.filterMap (Variable.ofAssignment? t) = found.map (Assignment.variable t.source) := by
  induction stand with
  | nil => rfl
  | cons here _ ih =>
    obtain ⟨first, others⟩ := List.forall_mem_cons.1 placed
    rw [List.filterMap_cons_some (here.ofAssignment? first), List.map_cons, ih others]

/-- The tree of a printed program sets the variables that the program assigns. -/
theorem assigned_code (p : Program) (shallow : p.nesting ≤ 50) :
    (Tree.ofScript p.code).assigned = p.assignments.map (Assignment.variable p.code) := by
  have extras := extras_code p shallow
  obtain ⟨number, same, _⟩ :=
    Diagnostic.exists_number_stripped Vocabulary.language.name p.code extras
  have assigned :
      ((Tree.ofScript p.code).stripped number).assigned = (Tree.ofScript p.code).assigned :=
    Tree.assigned_stripped (extras.ofDraft Vocabulary.language.name p.code)
  rw [← assigned]
  refine (congrArg Tree.assigned same).symm.trans (filterMap_ofAssignment? ?_ fun c hc => ?_)
  · have stand := assignments_code p shallow
    rw [← Tree.map_draft_assignments Vocabulary.language.name p.code] at stand
    exact List.forall₂_map_right_iff.1 stand
  · exact Tree.placed_cursors (List.mem_filter.1 hc).1

theorem Scope.lifetime_inj {scope scope' : Scope} :
    scope.lifetime = scope'.lifetime ↔ scope = scope' := by
  cases scope <;> cases scope' <;> decide

/-- Two assignments set the same entry if they are to the same variable. -/
theorem Assignment.place_eq_iff {source : List Char} {a b : Assignment} :
    (a.variable source).place = (b.variable source).place ↔ a.target = b.target := by
  obtain ⟨scope, name, _, _⟩ := a
  obtain ⟨scope', name', _, _⟩ := b
  simp only [Variable.place, Assignment.variable, target, Prod.mk.injEq, Scope.lifetime_inj,
    String.ofList_inj]
  refine and_congr_right fun same => ?_
  subst same
  simp [Scope.code]

/-- An assignment of a program with none to the same variable behind it. -/
def IsLast (p : Program) (a : Assignment) : Prop :=
  a ∈ p.assignments ∧
    ∀ b ∈ p.assignments, b.target = a.target → Text.size b.front ≤ Text.size a.front

theorem exists_isLast {p : Program} {a : Assignment} (h : a ∈ p.assignments) :
    ∃ b, p.IsLast b ∧ b.target = a.target := by
  have found : a ∈ p.assignments.filter fun b => b.target = a.target :=
    List.mem_filter.2 ⟨h, decide_eq_true rfl⟩
  obtain ⟨earlier, b, split⟩ :=
    (List.eq_nil_or_concat _).resolve_left (List.ne_nil_of_mem found)
  rw [List.concat_eq_append] at split
  have ordered := (within_code p).ordered.filter fun b => b.target = a.target
  rw [split] at ordered
  have here : b ∈ p.assignments.filter fun b => b.target = a.target := by simp [split]
  obtain ⟨mem, same⟩ := List.mem_filter.1 here
  have same : b.target = a.target := of_decide_eq_true same
  refine ⟨b, ⟨mem, fun c hc target => ?_⟩, same⟩
  have there : c ∈ earlier ++ [b] :=
    split ▸ List.mem_filter.2 ⟨hc, decide_eq_true (target.trans same)⟩
  rcases List.mem_append.1 there with before | last
  · exact Nat.le_of_lt ((List.pairwise_append.1 ordered).2.2 c before b (by simp))
  · rw [List.mem_singleton.1 last]

theorem IsLast.getLast? {p : Program} {a : Assignment} (h : p.IsLast a) (source : List Char) :
    ((p.assignments.map (Assignment.variable source)).filter
      fun v => v.place = (a.variable source).place).getLast? = some (a.variable source) := by
  obtain ⟨here, last⟩ := h
  obtain ⟨earlier, later, split⟩ := List.append_of_mem here
  have ordered := (within_code p).ordered
  rw [split] at ordered
  have behind := (List.pairwise_cons.1 (List.pairwise_append.1 ordered).2.1).1
  have others : (later.map (Assignment.variable source)).filter
      (fun v => v.place = (a.variable source).place) = [] := by
    refine List.filter_eq_nil_iff.2 fun v hv same => ?_
    obtain ⟨b, hb, rfl⟩ := List.mem_map.1 hv
    have target := Assignment.place_eq_iff.1 (of_decide_eq_true same)
    have before := last b (by simp [split, hb]) target
    exact absurd (behind b hb) (Nat.not_lt.2 before)
  rw [split, List.map_append, List.map_cons, List.filter_append,
    List.filter_cons_of_pos (by simp), others, List.getLast?_concat]

end Program

namespace Variables

open Program

/-- The variables of a printed program: one entry for every class and name that it assigns anywhere,
in the table of the class under the name as it is written, with the value and the range of the
last assignment. -/
theorem ofTree_code (p : Program) (shallow : p.nesting ≤ 50) :
    let tables := Variables.ofTree (Tree.ofScript p.code)
    (∀ a ∈ p.assignments, ∃ behind, p.code = a.front ++ a.code ++ behind) ∧
      (∀ s, (tables.table s).keys.Nodup) ∧
      (∀ s key, key ∈ (tables.table s).keys ↔ ∃ a ∈ p.assignments,
        a.scope.lifetime = s ∧ String.ofList (a.scope.code a.name) = key) ∧
      (∀ a ∈ p.assignments, ∃ b, p.IsLast b ∧ b.target = a.target) ∧
      (∀ a, p.IsLast a → tables.get? a.scope.lifetime (String.ofList (a.scope.code a.name)) =
        some (a.variable p.code)) ∧
      tables.size = (p.assignments.map Assignment.target).dedup.length := by
  intro tables
  have recorded : tables = (p.assignments.map (Assignment.variable p.code)).foldl insert empty :=
    congrArg (List.foldl insert empty) (assigned_code p shallow)
  refine ⟨fun a ha => ?_, fun s => (tables.table s).nodup_keys, fun s key => ?_,
    fun a ha => exists_isLast ha, fun a last => ?_, ?_⟩
  · obtain ⟨before, after, rfl, split⟩ := (within_code p).inside a ha
    exact ⟨after, split⟩
  · rw [recorded, mem_keys_foldl_insert, List.map_map, List.mem_map]
    simp [Variable.place, Assignment.variable]
  · rw [recorded, get?_foldl_insert]
    exact last.getLast? p.code
  · rw [recorded, size_foldl_insert, List.map_map]
    exact length_dedup_map (fun a b => Assignment.place_eq_iff) p.assignments

/-- A variable with a value at the top, and another one in a block. -/
def rebound : Program :=
  let x : Name := ⟨"x".toList, rfl, rfl, by decide⟩
  ⟨[.assign .var x (.number 1),
    .route ⟨"failure_route", by decide⟩ none
      [.branch (.userVariable .var x) [.assign .var x (.number 2)] none,
        .assign .avp x (.number 3)]]⟩

theorem ofTree_code_rebound :
    let tables := Variables.ofTree (Tree.ofScript rebound.code)
    rebound.code = "$var(x) = 1;\nfailure_route \x7b\n\tif ($var(x)) \x7b\n".toList
        ++ "\t\t$var(x) = 2;\n\t\x7d\n\t$avp(x) = 3;\n\x7d\n".toList ∧
      tables.size = 2 ∧
      (tables.get? .worker "$var(x)").map (fun v => (v.value, v.range.start)) = some ("2", 47) := by
  intro tables
  obtain ⟨_, _, _, _, last, size⟩ := ofTree_code rebound (by decide)
  refine ⟨by decide, size.trans (by decide), ?_⟩
  let inner := rebound.assignments.get ⟨1, by decide⟩
  have entry := last inner ⟨List.get_mem _ _, by decide⟩
  have scope : inner.scope.lifetime = .worker := by decide
  have name : String.ofList (inner.scope.code inner.name) = "$var(x)" := by decide
  rw [scope, name] at entry
  rw [entry]
  decide

end Variables

end RouteScript
