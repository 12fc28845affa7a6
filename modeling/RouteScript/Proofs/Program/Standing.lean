import RouteScript.Proofs.Program.Laid
/-!
# Assignments of programs in their trees

The outlines of a program use up the bits it is printed with. The nodes of assignments that they
make are those of its assignments, in the same order and at the same places.
-/
namespace RouteScript

namespace Draft

/-- The nodes of assignments, in preorder. -/
def assignments (d : Draft) : List Draft :=
  d.nodes.filter fun n => n.label.named && n.label.kind == Kind.assignment

theorem assignments_node {t : Tag} (other : t.kind ≠ Kind.assignment) (children : List Draft) :
    assignments (.node t children) = children.flatMap assignments := by
  rw [assignments, Rose.nodes_node, List.filter_cons_of_neg (by simp [Rose.label, other]),
    List.filter_flatMap]
  rfl

theorem assignments_branch (children : List Draft) :
    assignments (.branch Kind.assignment children) =
      .branch Kind.assignment children :: children.flatMap assignments := by
  rw [assignments, branch, Rose.nodes_node, List.filter_cons_of_pos rfl, List.filter_flatMap]
  rfl

theorem assignments_eq_nil {d : Draft} (h : ∀ t ∈ d.labels, t.kind ≠ Kind.assignment) :
    d.assignments = [] := by
  rw [Rose.labels_nodes] at h
  refine List.filter_eq_nil_iff.2 fun n hn => ?_
  simp [h n.label (List.mem_map_of_mem hn)]

end Draft

namespace Program

open Bit Outline Draft

variable {source : List Char} {os os' : List Outline} {bits mid rest : List Bit} {o : Outline}

/-- The node of a name in parentheses. -/
def nameDraft (name : Nat × Nat) : Draft :=
  (Draft.branch Kind.variableName [.leaf Kind.identifier true name.1 name.2]).withField Field.name

/-- The node of a user variable without its dollar sign. -/
def Scope.marker (scope : Scope) (word opening name closing : Nat × Nat) : Draft :=
  .branch scope.kind [.leaf scope.word false word.1 word.2, .leaf "(" false opening.1 opening.2,
    nameDraft name, .leaf ")" false closing.1 closing.2]

/-- The node of a user variable over the spans of its tokens. -/
def Scope.draft (scope : Scope) (dollar word opening name closing : Nat × Nat) : Draft :=
  .branch Kind.pseudoVariable [.leaf "$" false dollar.1 dollar.2,
    .branch Kind.pseudoContent [scope.marker word opening name closing]]

/-- A draft is the node of an assignment of a text. -/
def Assignment.Stands (source : List Char) (a : Assignment) (d : Draft) : Prop :=
  ∃ (dollar word opening name closing sign : Nat × Nat) (value : Draft),
    d = .branch Kind.assignment
      [(a.scope.draft dollar word opening name closing).withField Field.left,
        .leaf "=" false sign.1 sign.2, value.withField Field.right] ∧
    Text.slice source name.1 name.2 = a.name.text ∧
    Text.slice source value.start value.stop = a.value.code ∧
    dollar.1 = Text.size a.front ∧ value.stop = Text.size (a.front ++ a.code)

/-- The node of a user variable that starts with some bits. -/
def Scope.draftAt (scope : Scope) (name : Name) (total : Nat) (rest : List Bit) : Draft :=
  let closing := Bit.sign .rParen :: rest
  let inner := Bit.word name.text :: closing
  let opening := Bit.sign .lParen :: inner
  let word := Bit.word scope.word.toList :: opening
  scope.draft (offset total (Bit.sign .dollar :: word), offset total word)
    (offset total word, offset total opening) (offset total opening, offset total inner)
    (offset total inner, offset total closing) (offset total closing, offset total rest)

theorem Scope.laid (scope : Scope) (name : Name) (rest : List Bit) :
    Laid source [scope.outline name] (scope.bits name rest)
      [scope.draftAt name (Text.size source) rest] rest := rfl

theorem offset_eq {before : List Char} (h : source = before ++ textOf bits) :
    offset (Text.size source) bits = Text.size before := by
  rw [offset, h, Text.size_append, Nat.add_sub_cancel]

theorem slice_offset (before : List Char) {text : List Char} (h : source = before ++ textOf bits)
    (spelled : textOf bits = text ++ textOf rest) :
    Text.slice source (offset (Text.size source) bits) (offset (Text.size source) rest) = text := by
  have behind : source = (before ++ text) ++ textOf rest := by
    rw [h, spelled, List.append_assoc]
  rw [offset_eq h, offset_eq behind, behind, Text.size_append, Text.slice, Text.slice?_append]
  rfl

theorem Laid.assignments_eq_nil {ds : List Draft} (h : Laid source os bits ds rest)
    (clear : Clear otherKinds os) : ds.flatMap Draft.assignments = [] := by
  have kinds := kinds_layAll os (spans (Text.size source) bits)
  rw [h] at kinds
  refine List.flatMap_eq_nil_iff.2 fun d hd => Draft.assignments_eq_nil fun t ht same => ?_
  have there : t.kind ∈ (os.flatMap Rose.labels).map Form.kind :=
    kinds ▸ List.mem_map_of_mem (List.mem_flatMap.2 ⟨d, hd, ht⟩)
  obtain ⟨form, hform, equal⟩ := List.mem_map.1 there
  obtain ⟨o, ho, hform⟩ := List.mem_flatMap.1 hform
  exact clear o ho form hform (by rw [equal, same]; decide)

/-- The assignments in the first of some bits. -/
def Holds (source : List Char) (os : List Outline) (bits rest : List Bit)
    (found : List Assignment) : Prop :=
  Clear foreignKinds os ∧ ∃ ds, Laid source os bits ds rest ∧
    List.Forall₂ (Assignment.Stands source) found (ds.flatMap Draft.assignments)

theorem Fills.holds (h : Fills source os bits rest) : Holds source os bits rest [] := by
  obtain ⟨clear, ds, laid, _⟩ := h
  refine ⟨clear.mono fun _ => List.mem_cons_of_mem _, ds, laid, ?_⟩
  rw [laid.assignments_eq_nil clear]
  exact .nil

namespace Holds

variable {found found' : List Assignment}

theorem nil (bits : List Bit) : Holds source [] bits bits [] := ⟨by simp [Clear], [], rfl, .nil⟩

theorem append (h : Holds source os bits mid found) (h' : Holds source os' mid rest found') :
    Holds source (os ++ os') bits rest (found ++ found') := by
  obtain ⟨clear, ds, laid, stand⟩ := h
  obtain ⟨clear', ds', laid', stand'⟩ := h'
  refine ⟨clear_append.2 ⟨clear, clear'⟩, ds ++ ds', laid.append laid', ?_⟩
  rw [List.flatMap_append]
  exact List.rel_append stand stand'

theorem followed (h : Holds source os bits mid found) (h' : Fills source os' mid rest) :
    Holds source (os ++ os') bits rest found := by
  have whole := h.append h'.holds
  rwa [List.append_nil] at whole

/-- Blanks may stand in front. -/
theorem gap (h : Holds source os bits rest found) (text : List Char) :
    Holds source os (.gap text :: bits) rest found := h

/-- Blanks may stand behind. -/
theorem trailing {text : List Char} (h : Holds source os bits (.gap text :: rest) found) :
    Holds source os bits rest found := h

theorem node (h : Holds source os bits rest found) (form : Form) (known : form.kind ∉ otherKinds)
    (nonempty : os ≠ []) : Holds source [.node form os] bits rest found := by
  obtain ⟨clear, ds, laid, stand⟩ := h
  obtain ⟨other, ours⟩ := not_or.1 (mt List.mem_cons.2 known)
  refine ⟨clear_node.2 ⟨ours, clear⟩, _, laid.node form nonempty, ?_⟩
  rw [List.flatMap_singleton, Form.branch, Draft.branch, Draft.relabel]
  rwa [Draft.assignments_node other]

theorem assignment {scope : Scope} {name : Name} {value : Expr} {front : List Char}
    (whole : source = front
      ++ textOf (scope.bits name (space :: sign .assign :: space :: value.bits rest))) :
    Holds source [nodeOf Kind.assignment [labelled Field.left (scope.outline name),
        Outline.sign .assign, labelled Field.right (wrapped value.outline)]]
      (scope.bits name (space :: sign .assign :: space :: value.bits rest)) rest
      [⟨scope, name, value, front⟩] := by
  have filled : Fills source [wrapped value.outline] (value.bits rest) rest := value.fills rest
  have parts : Fills source [labelled Field.left (scope.outline name), Outline.sign .assign,
      labelled Field.right (wrapped value.outline)]
      (scope.bits name (space :: sign .assign :: space :: value.bits rest)) rest :=
    ((scope.fills name _).labelled _).spaced ((Fills.sign rfl _).spaced (filled.labelled _))
  obtain ⟨_, ds, laid, reach⟩ := filled
  obtain ⟨d, rfl⟩ : ∃ d, ds = [d] := ⟨_, (congrArg Prod.fst laid).symm⟩
  obtain ⟨_, _, low, high⟩ := reach_singleton.1 reach
  have equals : Laid source [Outline.sign .assign]
      (space :: sign .assign :: space :: value.bits rest) [.leaf "=" false
        (offset (Text.size source) (sign .assign :: space :: value.bits rest))
        (offset (Text.size source) (space :: value.bits rest))] (value.bits rest) := rfl
  have children := ((scope.laid name _).labelled Field.left).append
    (equals.append (laid.labelled Field.right))
  refine ⟨clear_node.2 ⟨by decide, parts.1.mono (by decide)⟩, _, children.node _ (by simp), ?_⟩
  have inner := children.assignments_eq_nil parts.1
  rw [List.flatMap_singleton, Form.branch_named, Draft.assignments_branch, inner]
  refine .cons ⟨_, _, _, _, _, (_, _), d, rfl, ?_, ?_, ?_, ?_⟩ .nil
  · refine slice_offset (front ++ '$' :: (scope.word.toList ++ ['('])) ?_ rfl
    simpa [Scope.code, Token.Kind.spelling?] using whole
  · rw [low, high]
    refine slice_offset (front ++ scope.code name ++ " = ".toList) ?_ ?_
    · simpa [Token.Kind.spelling?] using whole
    · simp
  · exact offset_eq whole
  · rw [high]
    refine offset_eq ?_
    simpa [Assignment.code, Token.Kind.spelling?] using whole

theorem finished (h : Holds source [o] bits (ending rest) found) :
    Holds source [finished o] bits rest found :=
  ((h.followed (Fills.sign rfl _)).node _ (by decide) (by simp)).trailing

theorem block {indent : Nat} (h : Holds source os bits (closing indent rest) found)
    (field : String) :
    Holds source [labelled field (block os)] (opening bits) rest found := by
  have opened : Fills source [Outline.leaf Kind.blockStart ['{']] (opening bits)
      (.newline :: bits) := Fills.leaf (by decide) rfl _ _
  have closed : Fills source [Outline.leaf Kind.blockEnd ['}']] (.sign .rBrace :: rest) rest :=
    Fills.leaf (by decide) rfl _ _
  have inner : Holds source os bits (.sign .rBrace :: rest) found := h
  have known : Kind.compoundStatement ∉ otherKinds := by decide
  exact (opened.holds.append (inner.followed closed)).node _ known (by simp)

end Holds

theorem headed_fills {text : String} (known : text ∉ otherKinds) (test : Expr) (rest : List Bit) :
    Fills source [Outline.keyword text, condition test.outline] (headed text test rest)
      (space :: opening rest) := by
  have inner : Fills source ([wrapped test.outline] ++ [Outline.sign .rParen])
      (test.bits (.sign .rParen :: space :: opening rest)) (space :: opening rest) :=
    (test.fills _).append (Fills.sign rfl _)
  exact (Fills.keyword known _).spaced
    ((inner.parenthesized Kind.parenthesized (by decide)).labelled _)

namespace Holds

variable {text field : String} {test : Expr} {indent : Nat} {found : List Assignment}

/-- A word, a condition and a block. -/
theorem headed (h : Holds source os bits (closing indent rest) found) (known : text ∉ otherKinds) :
    Holds source [Outline.keyword text, condition test.outline,
      labelled field (Program.block os)] (Program.headed text test bits) rest found :=
  (headed_fills known test bits).holds.append ((h.block field).gap [' '])

/-- A node that is a statement of its own. -/
theorem statement (h : Holds source os bits (.newline :: rest) found) {kind : String}
    (known : kind ∉ otherKinds) (nonempty : os ≠ []) :
    Holds source [nodeOf Kind.statement [nodeOf kind os]] (margin indent :: bits) rest found :=
  (((h.node _ known nonempty).node _ (by decide) (by simp)).gap _).trailing

/-- A statement without a value. -/
theorem action (known : text ∉ otherKinds) (rest : List Bit) :
    Holds source [Program.action text] (.word text.toList :: ending rest) rest [] :=
  ((Fills.keyword known _).node Kind.coreFunction (by decide) (by simp)).holds.finished

theorem label (label : Quotable) (rest : List Bit) :
    Holds source [nodeOf Kind.statement [nodeOf Kind.caseStatement [Outline.keyword "case",
        labelled Field.value (wrapped (Program.quotation label)), Outline.sign .colon]]]
      (.word "case".toList :: space :: .quotation label :: .sign .colon :: rest) rest [] := by
  have value : Fills source [labelled Field.value (wrapped (Program.quotation label)),
      Outline.sign .colon] (.quotation label :: .sign .colon :: rest) rest :=
    ((Fills.quotation label _).wrap.labelled _).append (Fills.sign rfl rest)
  exact ((((Fills.keyword (by decide) _).spaced value).node _ (by decide) (by simp)).node _
    (by decide) (by simp)).holds

end Holds

mutual

theorem Stmt.holds (indent : Nat) : ∀ (s : Stmt) (front : List Char) (rest : List Bit),
    source = front ++ textOf (s.bits indent rest) →
      Holds source s.outlines (s.bits indent rest) rest (s.assignments indent front)
  | .assign scope name value, front, rest, whole => by
    have here : source = (front ++ tabs indent) ++ textOf
        (scope.bits name (space :: sign .assign :: space :: value.bits (ending rest))) := by
      simpa [Stmt.bits] using whole
    exact ((Holds.assignment here).node _ (by decide) (by simp)).finished.gap _
  | .call function arguments, front, rest, _ => by
    have closed : Fills source (Expr.outlines arguments ++ [Outline.sign .rParen])
        (Expr.bitsAll arguments (.sign .rParen :: ending rest)) (ending rest) :=
      Expr.fills_all arguments (Fills.sign rfl _)
    exact (Fills.call function.text closed).wrap.holds.finished.gap _
  | .branch test consequence none, front, rest, whole => by
    have inner := Stmt.holds_all (indent + 1) consequence
      (front ++ tabs indent ++ heading "if" test) (closing indent (.newline :: rest))
      (by simpa [Stmt.bits, heading] using whole)
    exact (inner.headed (by decide)).statement (by decide) (by simp)
  | .branch test consequence (some alternative), front, rest, whole => by
    let opened := front ++ tabs indent ++ heading "if" test
    have second := Stmt.holds_all (indent + 1) alternative
      (opened ++ Stmt.codeAll (indent + 1) consequence ++ tabs indent
        ++ "\x7d else \x7b\n".toList) (closing indent (.newline :: rest))
      (by simpa [Stmt.bits, heading, opened, opening, Token.Kind.spelling?] using whole)
    have first := Stmt.holds_all (indent + 1) consequence opened (closing indent (space ::
        .word "else".toList :: space :: opening (Stmt.bitsAll (indent + 1) alternative
          (closing indent (.newline :: rest)))))
      (by simpa [Stmt.bits, heading, opened] using whole)
    have otherwise : Holds source [Outline.keyword "else", labelled Field.alternative
        (Program.block (Stmt.outlinesAll alternative))] (.word "else".toList :: space :: opening
          (Stmt.bitsAll (indent + 1) alternative (closing indent (.newline :: rest))))
        (.newline :: rest) _ :=
      (Fills.keyword (by decide) _).holds.append ((second.block _).gap _)
    exact ((first.headed (by decide)).trailing.append otherwise).statement (by decide) (by simp)
  | .loop test body, front, rest, whole => by
    have inner := Stmt.holds_all (indent + 1) body
      (front ++ tabs indent ++ heading "while" test) (closing indent (.newline :: rest))
      (by simpa [Stmt.bits, heading] using whole)
    exact (inner.headed (by decide)).statement (by decide) (by simp)
  | .switch subject cases, front, rest, whole => by
    have inner := Stmt.holds_cases (indent + 1) cases
      (front ++ tabs indent ++ heading "switch" subject) (closing indent (.newline :: rest))
      (by simpa [Stmt.bits, heading] using whole)
    exact (inner.headed (by decide)).statement (by decide) (by simp)
  | .routeCall name, front, rest, _ => by
    have closed : Fills source ([wrapped (identifier name)] ++ [Outline.sign .rParen])
        (.word name.text :: .sign .rParen :: ending rest) (ending rest) :=
      (Fills.identifier name _).wrap.append (Fills.sign rfl _)
    exact (Fills.call "route".toList closed).wrap.holds.finished.gap _
  | .drop, _, rest, _ | .exit, _, rest, _ => (Holds.action (by decide) rest).gap _
  | .back none, _, rest, _ =>
    ((Fills.keyword (by decide) _).node Kind.returnStatement (by decide)
      (by simp)).holds.finished.gap _
  | .back (some code), _, rest, _ =>
    (((Fills.keyword (by decide) _).spaced (Fills.number code _).wrap).node Kind.returnStatement
      (by decide) (by simp)).holds.finished.gap _
  | .comment _, _, rest, _ => .nil rest

theorem Stmt.holds_all (indent : Nat) : ∀ (ss : List Stmt) (front : List Char) (rest : List Bit),
    source = front ++ textOf (Stmt.bitsAll indent ss rest) →
      Holds source (Stmt.outlinesAll ss) (Stmt.bitsAll indent ss rest) rest
        (Stmt.assignmentsAll indent front ss)
  | [], _, rest, _ => .nil rest
  | s :: ss, front, rest, whole => by
    have later : source = (front ++ s.code indent) ++ textOf (Stmt.bitsAll indent ss rest) := by
      simpa [Stmt.bitsAll] using whole
    exact (s.holds indent front _ whole).append (Stmt.holds_all indent ss _ rest later)

theorem Stmt.holds_cases (indent : Nat) :
    ∀ (cases : List (Quotable × List Stmt)) (front : List Char) (rest : List Bit),
      source = front ++ textOf (Stmt.bitsCases indent cases rest) →
        Holds source (Stmt.outlinesCases cases) (Stmt.bitsCases indent cases rest) rest
          (Stmt.assignmentsCases indent front cases)
  | [], _, rest, _ => .nil rest
  | (label, body) :: cases, front, rest, whole => by
    let opened := front ++ tabs indent ++ "case ".toList ++ label.quoted ++ ":\n".toList
    have others := Stmt.holds_cases indent cases (opened ++ Stmt.codeAll (indent + 1) body
        ++ tabs (indent + 1) ++ "break;\n".toList) rest
      (by simpa [Stmt.bitsCases, opened, Token.Kind.spelling?] using whole)
    have inner := Stmt.holds_all (indent + 1) body opened (margin (indent + 1)
        :: .word "break".toList :: ending (Stmt.bitsCases indent cases rest))
      (by simpa [Stmt.bitsCases, opened, Token.Kind.spelling?] using whole)
    have ended : Holds source (Program.action "break" :: Stmt.outlinesCases cases)
        (.word "break".toList :: ending (Stmt.bitsCases indent cases rest)) rest _ :=
      (Holds.action (by decide) _).append others
    exact ((Holds.label label _).append ((inner.trailing.append ended).gap ['\n'])).gap _

end

theorem arguments_fills (file key : Quotable) (value : Nat) (rest : List Bit) :
    Fills source ([wrapped (quotation file), Outline.sign .comma, wrapped (quotation key),
        Outline.sign .comma, wrapped (number value)] ++ [Outline.sign .rParen])
      (.quotation file :: Bit.sign .comma :: space :: .quotation key :: Bit.sign .comma :: space
        :: .number value :: Bit.sign .rParen :: rest) rest := by
  have values : Fills source [wrapped (number value), Outline.sign .rParen]
      (.number value :: Bit.sign .rParen :: rest) rest :=
    (Fills.number value _).wrap.append (Fills.sign rfl rest)
  have keys : Fills source [wrapped (quotation key), Outline.sign .comma, wrapped (number value),
        Outline.sign .rParen]
      (.quotation key :: Bit.sign .comma :: space :: .number value :: Bit.sign .rParen :: rest)
      rest :=
    (Fills.quotation key _).wrap.append ((Fills.sign rfl _).spaced values)
  exact (Fills.quotation file _).wrap.append ((Fills.sign rfl _).spaced keys)

theorem routeWord_fills (type : RouteType) (rest : List Bit) :
    Fills source [labelled Field.routeType (Outline.leaf Kind.routeType type.word.toList)]
      (.word type.word.toList :: rest) rest :=
  (Fills.named (by decide) rfl _ _).labelled _

theorem Item.holds (i : Item) {front : List Char} {rest : List Bit}
    (whole : source = front ++ textOf (i.bits rest)) :
    Holds source [i.outline] (i.bits rest) rest (i.assignments front) := by
  cases i with
  | parameter name value =>
    have core : Fills source [labelled Field.value (nodeOf Kind.coreValue [number value])]
        (.number value :: .newline :: rest) (.newline :: rest) :=
      ((Fills.number value _).node Kind.coreValue (by decide) (by simp)).labelled _
    exact ((((Fills.identifier name _).labelled _).append ((Fills.sign rfl _).append core)).node
      Kind.globalAssignment (by decide) (by simp)).holds.trailing
  | loadModule file =>
    exact (((Fills.keyword (by decide) _).spaced ((Fills.quotation file _).labelled _)).node
      Kind.loadModule (by decide) (by simp)).holds.trailing
  | modParam file key value =>
    exact (((Fills.keyword (by decide) _).append (((arguments_fills file key value
      (.newline :: rest)).parenthesized Kind.argumentList (by decide)).labelled _)).node
      Kind.modParam (by decide) (by simp)).holds.trailing
  | assign scope name value =>
    exact ((Holds.assignment whole).node _ (by decide) (by simp)).finished
  | route type name body =>
    cases name with
    | none =>
      have inner := Stmt.holds_all 1 body
        (front ++ type.word.toList ++ brackets none ++ " \x7b\n".toList)
        (closing 0 (.newline :: rest))
        (by simpa [Item.bits, brackets, opening, Token.Kind.spelling?] using whole)
      exact (((routeWord_fills type _).holds.append ((inner.block _).gap [' '])).node
        ⟨Kind.routeDefinition, true, none, none⟩ (by decide) (by simp)).trailing
    | some name =>
      have inner := Stmt.holds_all 1 body
        (front ++ type.word.toList ++ brackets (some name) ++ " \x7b\n".toList)
        (closing 0 (.newline :: rest))
        (by simpa [Item.bits, brackets, opening, Token.Kind.spelling?] using whole)
      have shown : Fills source [labelled Field.name (nodeOf Kind.routeName [identifier name]),
            Outline.sign .rBracket]
          (.word name.text :: Bit.sign .rBracket :: space :: opening (Stmt.bitsAll 1 body
            (closing 0 (.newline :: rest))))
          (space :: opening (Stmt.bitsAll 1 body (closing 0 (.newline :: rest)))) :=
        (((Fills.identifier name _).node Kind.routeName (by decide) (by simp)).labelled _).append
          (Fills.sign rfl _)
      exact ((((routeWord_fills type _).append ((Fills.sign rfl _).append shown)).holds.append
        ((inner.block _).gap [' '])).node ⟨Kind.routeDefinition, true, none, none⟩ (by decide)
        (by simp)).trailing

theorem holds_from (items : List Item) {front : List Char}
    (whole : source = front ++ textOf (items.foldr Item.bits [])) :
    Holds source (items.map Item.outline) (items.foldr Item.bits []) []
      (assignmentsFrom front items) := by
  induction items generalizing front with
  | nil => exact .nil []
  | cons i items ih =>
    exact (i.holds whole).append (ih (by simpa using whole))

/-- The outlines of a program use up its bits, and hold its assignments. -/
theorem holds_bits (p : Program) :
    Holds p.code (p.items.map Item.outline) p.bits [] p.assignments :=
  holds_from p.items p.textOf_bits.symm

end Program

end RouteScript
