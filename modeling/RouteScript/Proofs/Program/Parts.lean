import RouteScript.Proofs.Program.Standing
/-!
# Statements of programs in their trees

Every statement of a program, at the top of a route block or deep inside of it, has its nodes in the
tree of the printed script, over the bits that it is printed with.
-/
namespace RouteScript.Program

/-- A statement of a program, with its indentation and the script in front of its line. -/
structure Part where
  indent : Nat
  front : List Char
  stmt : Stmt

mutual

/-- The statements in the blocks of a statement. -/
def Stmt.inner (indent : Nat) (front : List Char) : Stmt → List Part
  | .branch condition consequence none =>
    Stmt.parts (indent + 1) (front ++ tabs indent ++ heading "if" condition) consequence
  | .branch condition consequence (some alternative) =>
    let opened := front ++ tabs indent ++ heading "if" condition
    let reopened := opened ++ Stmt.codeAll (indent + 1) consequence ++ tabs indent
      ++ "\x7d else \x7b\n".toList
    Stmt.parts (indent + 1) opened consequence ++ Stmt.parts (indent + 1) reopened alternative
  | .loop condition body =>
    Stmt.parts (indent + 1) (front ++ tabs indent ++ heading "while" condition) body
  | .switch subject cases =>
    Stmt.partsCases (indent + 1) (front ++ tabs indent ++ heading "switch" subject) cases
  | .assign _ _ _ | .call _ _ | .routeCall _ | .drop | .exit | .back _ | .comment _ => []

/-- Some statements behind a text, with the statements in their blocks. -/
def Stmt.parts (indent : Nat) (front : List Char) : List Stmt → List Part
  | [] => []
  | s :: ss => ⟨indent, front, s⟩ :: s.inner indent front
      ++ Stmt.parts indent (front ++ s.code indent) ss

def Stmt.partsCases (indent : Nat) (front : List Char) : List (Quotable × List Stmt) → List Part
  | [] => []
  | (label, body) :: cases =>
    let opened := front ++ tabs indent ++ "case ".toList ++ label.quoted ++ ":\n".toList
    let closed := opened ++ Stmt.codeAll (indent + 1) body ++ tabs (indent + 1)
      ++ "break;\n".toList
    Stmt.parts (indent + 1) opened body ++ Stmt.partsCases indent closed cases

end

/-- A route block of a program, with the script in front of it. -/
structure Block where
  type : RouteType
  name : Option Name
  body : List Stmt
  front : List Char

namespace Block

/-- The block up to its first line. -/
def heading (b : Block) : List Char := b.type.word.toList ++ brackets b.name ++ " \x7b\n".toList

def code (b : Block) : List Char := b.heading ++ Stmt.codeAll 1 b.body ++ ['}']

def parts (b : Block) : List Part := Stmt.parts 1 (b.front ++ b.heading) b.body

end Block

/-- The route blocks among some items behind a text. -/
def blocksFrom (front : List Char) : List Item → List Block
  | [] => []
  | i :: items =>
    let others := blocksFrom (front ++ i.code) items
    match i with
    | .route type name body => ⟨type, name, body, front⟩ :: others
    | .parameter _ _ | .loadModule _ | .modParam _ _ _ | .assign _ _ _ => others

/-- The route blocks of a program, in the order of the printed script. -/
def blocks (p : Program) : List Block := blocksFrom [] p.items

theorem size_front_le {items : List Item} {front : List Char} :
    ∀ b ∈ blocksFrom front items, Text.size front ≤ Text.size b.front := by
  induction items generalizing front with
  | nil => simp [blocksFrom]
  | cons i items ih =>
    intro b hb
    have later (hb : b ∈ blocksFrom (front ++ i.code) items) :
        Text.size front ≤ Text.size b.front := by
      have behind := ih b hb
      rw [Text.size_append] at behind
      omega
    cases i with
    | route type name body =>
      rcases List.mem_cons.1 hb with rfl | hb
      · exact Nat.le_refl _
      · exact later hb
    | _ => exact later hb

/-- Route blocks stand in their order. -/
theorem blocksFrom_ordered (items : List Item) (front : List Char) :
    (blocksFrom front items).Pairwise fun a b => Text.size a.front < Text.size b.front := by
  induction items generalizing front with
  | nil => exact .nil
  | cons i items ih =>
    cases i with
    | route type name body =>
      refine .cons (fun b hb => ?_) (ih _)
      have behind := size_front_le b hb
      have long : 0 < Text.size (Item.route type name body).code := by
        have lineBreak := ('\n').utf8Size_pos
        unfold Item.code
        rw [Text.size_append, Text.size_cons]
        omega
      rw [Text.size_append] at behind
      exact Nat.lt_of_lt_of_le (Nat.lt_add_of_pos_right long) behind
    | _ => exact ih _

/-- All statements of a program, those in blocks of others behind them. -/
def statements (p : Program) : List Part := p.blocks.flatMap Block.parts

open Bit Outline Draft

variable {source : List Char} {os os' : List Outline} {bits mid rest : List Bit}

/-- A statement stands in a text, and its nodes are among some others. -/
def Part.Stands (source : List Char) (part : Part) (nodes : List Draft) : Prop :=
  ∃ rest ds, source = part.front ++ textOf (part.stmt.bits part.indent rest) ∧
    Laid source part.stmt.outlines (part.stmt.bits part.indent rest) ds rest ∧ ds ⊆ nodes

theorem Part.Stands.mono {part : Part} {nodes nodes' : List Draft} (h : part.Stands source nodes)
    (sub : nodes ⊆ nodes') : part.Stands source nodes' := by
  obtain ⟨rest, ds, whole, laid, inside⟩ := h
  exact ⟨rest, ds, whole, laid, fun d hd => sub (inside hd)⟩

/-- Outlines take up the first of some bits, and statements have their nodes in what they make. -/
def Shows (source : List Char) (os : List Outline) (bits rest : List Bit) (parts : List Part) :
    Prop :=
  ∃ ds, Laid source os bits ds rest ∧ ∀ part ∈ parts, part.Stands source (ds.flatMap Rose.nodes)

theorem Holds.shows {found : List Assignment} (h : Holds source os bits rest found) :
    Shows source os bits rest [] := by
  obtain ⟨_, ds, laid, _⟩ := h
  exact ⟨ds, laid, by simp⟩

namespace Shows

variable {parts parts' : List Part}

theorem append (h : Shows source os bits mid parts) (h' : Shows source os' mid rest parts') :
    Shows source (os ++ os') bits rest (parts ++ parts') := by
  obtain ⟨ds, laid, stand⟩ := h
  obtain ⟨ds', laid', stand'⟩ := h'
  refine ⟨ds ++ ds', laid.append laid',
    List.forall_mem_append.2 ⟨fun part hp => ?_, fun part hp => ?_⟩⟩
  · exact (stand part hp).mono (by simp)
  · exact (stand' part hp).mono (by simp)

theorem node (h : Shows source os bits rest parts) (form : Form) (nonempty : os ≠ []) :
    Shows source [.node form os] bits rest parts := by
  obtain ⟨ds, laid, stand⟩ := h
  refine ⟨_, laid.node form nonempty, fun part hp => (stand part hp).mono ?_⟩
  rw [List.flatMap_singleton, Form.branch, Draft.branch, Draft.relabel, Rose.nodes_node]
  exact List.subset_cons_self _ _

/-- The node of a block, which ends with its closing brace. -/
theorem exists_block {indent : Nat} (h : Shows source os bits (closing indent rest) parts)
    (field : String) : ∃ body : Draft,
      Laid source [labelled field (block os)] (opening bits) [body] rest ∧
      body.label.field = some field ∧ body.stop = offset (Text.size source) rest ∧
      ∀ part ∈ parts, part.Stands source body.nodes := by
  obtain ⟨ds, laid, stand⟩ := h
  obtain ⟨_, _, opened, _⟩ : Fills source [Outline.leaf Kind.blockStart ['{']] (opening bits)
      (.newline :: bits) := Fills.leaf (by decide) rfl _ _
  have laid : Laid source os (.newline :: bits) ds (.sign .rBrace :: rest) := laid
  have closed : Laid source [Outline.leaf Kind.blockEnd ['}']] (.sign .rBrace :: rest)
      [.leaf Kind.blockEnd true (offset (Text.size source) (.sign .rBrace :: rest))
        (offset (Text.size source) rest)] rest := rfl
  refine ⟨_, (opened.append (laid.append closed)).node
    ⟨Kind.compoundStatement, true, some field, none⟩ (by simp), rfl, ?_, fun part hp => ?_⟩
  · simp [Form.branch, Draft.branch, Draft.relabel, Draft.stop, Rose.label, Draft.leaf]
  · refine (stand part hp).mono ?_
    rw [Form.branch, Draft.branch, Draft.relabel, Rose.nodes_node, List.flatMap_append,
      List.flatMap_append]
    exact fun d hd => List.mem_cons_of_mem _
      (List.mem_append_right _ (List.mem_append_left _ hd))

theorem block {indent : Nat} (h : Shows source os bits (closing indent rest) parts)
    (field : String) : Shows source [labelled field (block os)] (opening bits) rest parts := by
  obtain ⟨body, laid, _, _, stand⟩ := h.exists_block field
  exact ⟨[body], laid, by simpa using stand⟩

/-- A word, a condition and a block. -/
theorem headed {indent : Nat} {text field : String} {test : Expr}
    (h : Shows source os bits (closing indent rest) parts) (known : text ∉ otherKinds) :
    Shows source [Outline.keyword text, condition test.outline,
      labelled field (Program.block os)] (Program.headed text test bits) rest parts :=
  (headed_fills known test bits).holds.shows.append (h.block field)

/-- A node that is a statement of its own. -/
theorem statement {indent : Nat} (h : Shows source os bits (.newline :: rest) parts) (kind : String)
    (nonempty : os ≠ []) :
    Shows source [nodeOf Kind.statement [nodeOf kind os]] (margin indent :: bits) rest parts :=
  (h.node _ nonempty).node _ (by simp)

end Shows

mutual

theorem Stmt.shows (indent : Nat) : ∀ (s : Stmt) (front : List Char) (rest : List Bit),
    source = front ++ textOf (s.bits indent rest) →
      Shows source s.outlines (s.bits indent rest) rest (s.inner indent front)
  | .branch test consequence none, front, rest, whole => by
    have inner := Stmt.shows_all (indent + 1) consequence
      (front ++ tabs indent ++ Program.heading "if" test) (closing indent (.newline :: rest))
      (by simpa [Stmt.bits, Program.heading] using whole)
    exact (inner.headed (by decide)).statement _ (by simp)
  | .branch test consequence (some alternative), front, rest, whole => by
    let opened := front ++ tabs indent ++ Program.heading "if" test
    have second := Stmt.shows_all (indent + 1) alternative
      (opened ++ Stmt.codeAll (indent + 1) consequence ++ tabs indent
        ++ "\x7d else \x7b\n".toList) (closing indent (.newline :: rest))
      (by simpa [Stmt.bits, Program.heading, opened, opening, Token.Kind.spelling?] using whole)
    have first := Stmt.shows_all (indent + 1) consequence opened (closing indent (space ::
        .word "else".toList :: space :: opening (Stmt.bitsAll (indent + 1) alternative
          (closing indent (.newline :: rest)))))
      (by simpa [Stmt.bits, Program.heading, opened] using whole)
    have word : Fills source [Outline.keyword "else"] (.word "else".toList :: space :: opening
        (Stmt.bitsAll (indent + 1) alternative (closing indent (.newline :: rest)))) _ :=
      Fills.keyword (by decide) _
    exact ((first.headed (by decide)).append (word.holds.shows.append (second.block _))).statement _
      (by simp)
  | .loop test body, front, rest, whole => by
    have inner := Stmt.shows_all (indent + 1) body
      (front ++ tabs indent ++ Program.heading "while" test) (closing indent (.newline :: rest))
      (by simpa [Stmt.bits, Program.heading] using whole)
    exact (inner.headed (by decide)).statement _ (by simp)
  | .switch subject cases, front, rest, whole => by
    have inner := Stmt.shows_cases (indent + 1) cases
      (front ++ tabs indent ++ Program.heading "switch" subject) (closing indent (.newline :: rest))
      (by simpa [Stmt.bits, Program.heading] using whole)
    exact (inner.headed (by decide)).statement _ (by simp)
  | .assign scope name value, front, rest, whole =>
    (Stmt.holds indent (.assign scope name value) front rest whole).shows
  | .call function arguments, front, rest, whole =>
    (Stmt.holds indent (.call function arguments) front rest whole).shows
  | .routeCall name, front, rest, whole =>
    (Stmt.holds indent (.routeCall name) front rest whole).shows
  | .drop, front, rest, whole => (Stmt.holds indent .drop front rest whole).shows
  | .exit, front, rest, whole => (Stmt.holds indent .exit front rest whole).shows
  | .back code, front, rest, whole => (Stmt.holds indent (.back code) front rest whole).shows
  | .comment text, front, rest, whole => (Stmt.holds indent (.comment text) front rest whole).shows

theorem Stmt.shows_all (indent : Nat) : ∀ (ss : List Stmt) (front : List Char) (rest : List Bit),
    source = front ++ textOf (Stmt.bitsAll indent ss rest) →
      Shows source (Stmt.outlinesAll ss) (Stmt.bitsAll indent ss rest) rest
        (Stmt.parts indent front ss)
  | [], _, rest, _ => (Holds.nil rest).shows
  | s :: ss, front, rest, whole => by
    have later : source = (front ++ s.code indent) ++ textOf (Stmt.bitsAll indent ss rest) := by
      simpa [Stmt.bitsAll] using whole
    obtain ⟨ds, laid, inner⟩ := s.shows indent front _ whole
    have here : Part.Stands source ⟨indent, front, s⟩ (ds.flatMap Rose.nodes) :=
      ⟨_, ds, whole, laid, fun d hd => List.mem_flatMap.2 ⟨d, hd, d.mem_nodes_self⟩⟩
    have both : Shows source s.outlines (s.bits indent (Stmt.bitsAll indent ss rest)) _
        (⟨indent, front, s⟩ :: s.inner indent front) :=
      ⟨ds, laid, List.forall_mem_cons.2 ⟨here, inner⟩⟩
    exact both.append (Stmt.shows_all indent ss _ rest later)

theorem Stmt.shows_cases (indent : Nat) :
    ∀ (cases : List (Quotable × List Stmt)) (front : List Char) (rest : List Bit),
      source = front ++ textOf (Stmt.bitsCases indent cases rest) →
        Shows source (Stmt.outlinesCases cases) (Stmt.bitsCases indent cases rest) rest
          (Stmt.partsCases indent front cases)
  | [], _, rest, _ => (Holds.nil rest).shows
  | (label, body) :: cases, front, rest, whole => by
    let opened := front ++ tabs indent ++ "case ".toList ++ label.quoted ++ ":\n".toList
    have others := Stmt.shows_cases indent cases (opened ++ Stmt.codeAll (indent + 1) body
        ++ tabs (indent + 1) ++ "break;\n".toList) rest
      (by simpa [Stmt.bitsCases, opened, Token.Kind.spelling?] using whole)
    have inner := Stmt.shows_all (indent + 1) body opened (margin (indent + 1)
        :: .word "break".toList :: ending (Stmt.bitsCases indent cases rest))
      (by simpa [Stmt.bitsCases, opened, Token.Kind.spelling?] using whole)
    have ended : Shows source (Program.action "break" :: Stmt.outlinesCases cases)
        (.word "break".toList :: ending (Stmt.bitsCases indent cases rest)) rest _ :=
      (Holds.action (by decide) _).shows.append others
    exact (Holds.label label _).shows.append (inner.append ended)

end

end RouteScript.Program
