import RouteScript.Proofs.Recovery.Enclosed
import RouteScript.Proofs.Recovery.Route
import RouteScript.Proofs.Program.Fitting
import RouteScript.Route.Basic
/-!
# The index of routes

A script of route blocks, one behind the other. Where no block is left with an `if`, `else` or
`while` that waits for its body, the index lists all of them, and each one is closed.
-/
namespace RouteScript

/-- What the index shows of a block, apart from the places. -/
def Draft.routeLabel? (source : List Char) (block : Draft) : Option String := do
  let part (field : String) := block.children.find? fun d => d.label.field == some field
  let text (d : Draft) := Text.slice source d.start d.stop
  let _ ← part Field.body
  let type ← part Field.routeType
  return Route.label ⟨String.ofList (text type),
    (part Field.name).map fun n => String.ofList (Text.trim (text n)), default, default⟩

/-- Whether the index looks at a node. -/
def Draft.isRoute (d : Draft) : Bool :=
  d.label.named && !d.label.extra && d.label.kind == Kind.routeDefinition

theorem Route.label_ofNode? (t : Tree) (c : Cursor) :
    (ofNode? t c).map label = Draft.routeLabel? t.source c.node.thaw := by
  have part (field : String) : ((c.child? field).map Cursor.node).map Node.thaw
      = c.node.thaw.children.find? fun d => d.label.field == some field := by
    have below : c.node.thaw.children = c.node.children.map Node.thaw := by
      obtain ⟨e, children⟩ := c.node
      rw [Node.thaw_node]
      rfl
    have field? (n : Node) : n.thaw.label.field = n.field? := by
      obtain ⟨e, children⟩ := n
      rw [Node.thaw_node]
      rfl
    have role : (fun n : Node => n.thaw.label.field == some field)
        = fun n => n.field? == some field := by simp only [field?]
    rw [below, ← c.map_node_children, List.find?_map, List.find?_map]
    change _ = Option.map Node.thaw (Option.map Cursor.node
      (c.children.find? fun d => d.node.thaw.label.field == some field))
    simp only [field?]
    rfl
  have text (n : Node) : Text.slice t.source n.thaw.start n.thaw.stop = t.textOf n := by
    obtain ⟨e, children⟩ := n
    rw [Node.thaw_node]
    rfl
  unfold ofNode? Draft.routeLabel?
  simp only [← part]
  cases c.child? Field.body with
  | none => rfl
  | some body =>
    cases c.child? Field.routeType with
    | none => rfl
    | some type =>
      cases c.child? Field.name with
      | none => simp [text, Cursor.wordIn, Cursor.textIn, label]
      | some name => simp [text, Cursor.wordIn, Cursor.textIn, label]

/-- The index depends on the draft alone. -/
theorem Tree.routes_label (t : Tree) : t.routes.map Route.label
    = (t.root.thaw.children.filter Draft.isRoute).filterMap (Draft.routeLabel? t.source) := by
  have below : t.root.thaw.children = (Cursor.root t).children.map fun c => c.node.thaw := by
    have nodes : t.root.thaw.children = t.root.children.map Node.thaw := by
      obtain ⟨e, children⟩ := t.root
      rw [Node.thaw_node]
      rfl
    have cursors : (Cursor.root t).children.map Cursor.node = t.root.children :=
      (Cursor.root t).map_node_children
    rw [nodes, ← cursors, List.map_map]
    rfl
  have looked (c : Cursor) : (c.kind == Kind.routeDefinition && c.isSignificant)
      = c.node.thaw.isRoute := by
    obtain ⟨⟨e, children⟩, above⟩ := c
    rw [Node.thaw_node, Bool.and_comm]
    rfl
  rw [below, routes, Cursor.significantChildren, List.filter_filter, List.filter_map,
    List.filterMap_map, List.map_filterMap]
  simp only [Route.label_ofNode?, looked]
  rfl

/-- A route block: its name, and the lines of its body. -/
structure RouteBlock where
  name : List Char
  lines : List (List Char)

/-- The scanner takes a significant token that fits. -/
theorem Bit.tokens_plain {kind : Token.Kind} {text rest : List Char}
    (fits : Fits rest (token kind text)) (plain : kind.isTrivia = false) (rounds offset : Nat)
    (lineStart newline : Bool) :
    Token.Scan.tokens (rounds + 1) ⟨text ++ rest, offset, lineStart, newline⟩
      = ⟨kind, text, offset, newline⟩
        :: Token.Scan.tokens rounds ⟨rest, offset + Text.size text, false, false⟩ := by
  rw [tokens_token fits, plain, Bool.false_and]

/-- A token without its place. -/
def Token.placeless (t : Token) : Token := { t with start := 0 }

theorem Token.wellBraced_placeless (pending : Bool) (depth : Nat) (ts : List Token) :
    wellBraced pending depth (ts.map placeless) = wellBraced pending depth ts := by
  induction ts generalizing pending depth with
  | nil => rfl
  | cons t ts ih =>
    rw [List.map_cons, wellBraced_cons, wellBraced_cons]
    simp only [ih]
    rfl

namespace RouteBlock

/-- Lines with a line break behind each. -/
def linesBefore : List (List Char) → List Char → List Char
  | [], rest => rest
  | line :: lines, rest => line ++ '\n' :: linesBefore lines rest

/-- The type of the blocks. -/
def keyword : List Char := ['r', 'o', 'u', 't', 'e']

def header (b : RouteBlock) : List Char := keyword ++ '[' :: (b.name ++ [']', ' ', '{'])

/-- The text of a block before another text. -/
def code (b : RouteBlock) (rest : List Char) : List Char :=
  b.header ++ '\n' :: linesBefore b.lines ('}' :: '\n' :: rest)

/-- Blocks behind each other. -/
def script (blocks : List RouteBlock) : List Char := blocks.foldr code []

/-- The tokens of the body. -/
def tokens (b : RouteBlock) : List Token := b.lines.flatMap Token.all

/-- The name is a word, braces match, there are less tokens than levels, and no control word waits
for its body at a closing brace. -/
structure WellFormed (b : RouteBlock) : Prop where
  starts : b.name.head?.any fun c => !c.isDigit
  wordChars : b.name.all Token.Lexeme.isWordChar
  oneLine : ∀ line ∈ b.lines, '\n' ∉ line
  short : b.tokens.length < Script.maxNesting
  wellBraced : Token.wellBraced false 0 b.tokens

instance (b : RouteBlock) : Decidable b.WellFormed :=
  decidable_of_iff ((b.name.head?.any fun c => !c.isDigit) ∧ b.name.all Token.Lexeme.isWordChar
      ∧ (∀ line ∈ b.lines, '\n' ∉ line) ∧ b.tokens.length < Script.maxNesting
      ∧ Token.wellBraced false 0 b.tokens)
    ⟨fun ⟨starts, wordChars, oneLine, short, braces⟩ =>
        ⟨starts, wordChars, oneLine, short, braces⟩,
      fun ⟨starts, wordChars, oneLine, short, braces⟩ =>
        ⟨starts, wordChars, oneLine, short, braces⟩⟩

/-- The outline of a closed block with these statements. -/
def outline (b : RouteBlock) (statements : List Outline) : Outline :=
  .nodeOf Kind.routeDefinition
    [.labelled Field.routeType (.leaf Kind.routeType keyword), .sign .lBracket,
      .labelled Field.name (.nodeOf Kind.routeName [.leaf Kind.identifier b.name]),
      .sign .rBracket, .labelled Field.body (Program.block statements)]

section Tokens

variable (b : RouteBlock) (offset : Nat)

def typeToken : Token := ⟨.identifier, keyword, offset, true⟩

def openingToken : Token := ⟨.lBracket, ['['], offset + 5, false⟩

def nameToken : Token := ⟨.identifier, b.name, offset + 6, false⟩

def closingToken : Token := ⟨.rBracket, [']'], offset + 6 + Text.size b.name, false⟩

def braceToken : Token := ⟨.lBrace, ['{'], offset + 6 + Text.size b.name + 2, false⟩

def endToken : Token := ⟨.rBrace, ['}'], offset, true⟩

variable {b}

theorem all_header (starts : b.name.head?.any fun c => !c.isDigit)
    (wordChars : b.name.all Token.Lexeme.isWordChar) : Token.all b.header
      = [typeToken 0, openingToken 0, b.nameToken 0, b.closingToken 0, b.braceToken 0] := by
  have enough : b.header.length = b.name.length + 9 := by simp [header, keyword]
  have text : b.header
      = keyword ++ (['['] ++ (b.name ++ ([']'] ++ ([' '] ++ (['{'] ++ []))))) := rfl
  have route (rest : List Char) : (Bit.word keyword).Fits (['['] ++ rest) :=
    Bit.fits_word rfl rfl (Bit.apart_cons.2 rfl)
  have opening (rest : List Char) : (Bit.token .lBracket ['[']).Fits rest :=
    Bit.fits_closed (show Bit.isClosed .lBracket from rfl)
  have name (rest : List Char) : (Bit.word b.name).Fits ([']'] ++ rest) :=
    Bit.fits_word starts wordChars (Bit.apart_cons.2 rfl)
  have closing (rest : List Char) : (Bit.token .rBracket [']']).Fits rest :=
    Bit.fits_closed (show Bit.isClosed .rBracket from rfl)
  have brace (rest : List Char) : (Bit.token .lBrace ['{']).Fits rest :=
    Bit.fits_closed (show Bit.isClosed .lBrace from rfl)
  have blank (offset : Nat) : ∃ lineStart,
      Token.Scan.tokens (b.name.length + 5) ⟨[' '] ++ (['{'] ++ []), offset, false, false⟩
        = Token.Scan.tokens (b.name.length + 4) ⟨['{'] ++ [], offset + 1, lineStart, false⟩ := by
    rw [show b.name.length + 5 = [' '].length + (b.name.length + 4) by simp; omega]
    exact Bit.tokens_gap (List.forall_mem_singleton.2 rfl) _ _ _ _ _
  unfold Token.all Token.allFrom
  rw [enough, text, Bit.tokens_plain (route _) rfl, Bit.tokens_plain (opening _) rfl,
    Bit.tokens_plain (name _) rfl, Bit.tokens_plain (closing _) rfl]
  obtain ⟨lineStart, passed⟩ := blank _
  rw [passed, Bit.tokens_plain (brace _) rfl]
  rfl

/-- The lines of a body are scanned one by one. -/
theorem allFrom_lines {lines : List (List Char)} (oneLine : ∀ line ∈ lines, '\n' ∉ line)
    (significant : ∀ t ∈ lines.flatMap Token.all, t.isSignificant) (rest : List Char) :
    ∃ ts behind, Token.allFrom offset true (linesBefore lines rest)
        = ts ++ Token.allFrom behind true rest
      ∧ ts.map Token.placeless = (lines.flatMap Token.all).map Token.placeless := by
  induction lines generalizing offset with
  | nil => exact ⟨[], offset, rfl, rfl⟩
  | cons line lines ih =>
    obtain ⟨here, later⟩ := List.forall_mem_cons.1 oneLine
    rw [List.flatMap_cons, List.forall_mem_append] at significant
    obtain ⟨ts, behind, eq, same⟩ := ih (offset + Text.size line + 1) later significant.2
    have cut := Token.allFrom_line here significant.1 offset (linesBefore lines rest)
    refine ⟨(Token.all line).map (Token.shift offset) ++ ts, behind, ?_, ?_⟩
    · rw [linesBefore, cut, eq, List.append_assoc]
    · rw [List.map_append, same, List.flatMap_cons, List.map_append, List.map_map]
      rfl

/-- The tokens of a block, and of the text behind it. -/
theorem WellFormed.allFrom_code (h : b.WellFormed) (rest : List Char) : ∃ ts behind,
    Token.allFrom offset true (b.code rest)
        = typeToken offset :: openingToken offset :: b.nameToken offset :: b.closingToken offset
          :: b.braceToken offset :: (ts ++ endToken behind :: Token.allFrom (behind + 2) true rest)
      ∧ Token.wellBraced false 0 ts ∧ ts.length < Script.maxNesting := by
  have header := all_header h.starts h.wordChars
  have wordLine (c : Char) (hc : c ∈ b.name) : c ≠ '\n' := by
    rintro rfl
    have := List.all_eq_true.1 h.wordChars '\n' hc
    contradiction
  have noBreak : '\n' ∉ b.header := by
    intro there
    rcases List.mem_append.1 there with word | behind
    · simp [keyword] at word
    · have name : '\n' ∈ b.name := by simpa using behind
      exact wordLine _ name rfl
  have plain : ∀ t ∈ Token.all b.header, t.isSignificant := by
    rw [header]
    simp [typeToken, openingToken, nameToken, closingToken, braceToken, Token.isSignificant,
      Token.isTrivia, Token.Kind.isTrivia]
  obtain ⟨ts, behind, body, same⟩ := allFrom_lines (offset + Text.size b.header + 1) h.oneLine
    (Token.wellBraced_significant h.wellBraced) ('}' :: '\n' :: rest)
  have close : Token.allFrom behind true ('}' :: '\n' :: rest)
      = endToken behind :: Token.allFrom (behind + 2) true rest := by
    have single : Token.all ['}'] = [endToken 0] := by decide
    have noBreak : '\n' ∉ ['}'] := by decide
    have cut := Token.allFrom_line noBreak (by rw [single]; simp; rfl) behind rest
    rw [single] at cut
    simpa [endToken, Token.shift, show Char.utf8Size '}' = 1 from rfl] using cut
  refine ⟨ts, behind, ?_, ?_, ?_⟩
  · rw [code, Token.allFrom_line noBreak plain, header, body, close]
    simp [typeToken, openingToken, nameToken, closingToken, braceToken, Token.shift, Nat.add_comm,
      Nat.add_left_comm, Nat.add_assoc]
  · rw [← Token.wellBraced_placeless, same, Token.wellBraced_placeless]
    exact h.wellBraced
  · have length := congrArg List.length same
    rw [List.length_map, List.length_map] at length
    rw [length]
    exact h.short

end Tokens

end RouteBlock

namespace Script

open Draft RouteBlock

/-- The draft of a block whose body has these nodes, with its opening and its closing brace. -/
def routeDraft (b : RouteBlock) (offset behind : Nat) (below : List Draft) : Draft :=
  .branch Kind.routeDefinition
    [(Draft.leaf Kind.routeType true (typeToken offset).start (typeToken offset).stop).withField
        Field.routeType,
      tokenLeaf (openingToken offset),
      (Draft.branch Kind.routeName [tokenLeaf (b.nameToken offset)]).withField Field.name,
      tokenLeaf (b.closingToken offset),
      (Draft.branch Kind.compoundStatement (blockStart (b.braceToken offset) :: (below
        ++ [.leaf Kind.blockEnd true (endToken behind).start (endToken behind).stop]))).withField
        Field.body]

section Block

variable {b : RouteBlock} {offset behind : Nat} {ts rest : List Token} {s : Stream}

/-- The tokens of a block before others. -/
abbrev blockTokens (b : RouteBlock) (offset behind : Nat) (ts rest : List Token) : List Token :=
  typeToken offset :: openingToken offset :: b.nameToken offset :: b.closingToken offset
    :: b.braceToken offset :: (ts ++ endToken behind :: rest)

/-- Where no comment waits a node is made of its children alone. -/
theorem node_quiet (waiting : s.waiting = []) (kind : String) (ds : List Draft) :
    node kind ds s = (.branch kind ds, s) := by
  have nothing : absorb ds s = (ds, s) := absorb_nothing (by simp [waiting])
  simp only [node, bind, StateT.bind, nothing]
  rfl

theorem topLevelItem_route (source : List Char) (size : Nat) :
    topLevelItem (typeToken offset) ⟨source, size, [], blockTokens b offset behind ts rest⟩
      = (do
          let block ← node Kind.compoundStatement (restOfBlock topLevel (b.braceToken offset)
            [blockStart (b.braceToken offset)]
            (Stream.settle ⟨source, size, [], ts ++ endToken behind :: rest⟩)).1
          node Kind.routeDefinition
            [(Draft.leaf Kind.routeType true (typeToken offset).start
                (typeToken offset).stop).withField Field.routeType,
              tokenLeaf (openingToken offset),
              (Draft.branch Kind.routeName [tokenLeaf (b.nameToken offset)]).withField Field.name,
              tokenLeaf (b.closingToken offset), block.withField Field.body])
        (restOfBlock topLevel (b.braceToken offset) [blockStart (b.braceToken offset)]
          (Stream.settle ⟨source, size, [], ts ++ endToken behind :: rest⟩)).2 := rfl

/-- A block whose braces match is read up to its closing brace. -/
theorem topLevelItem_wellBraced (wellBraced : Token.wellBraced false 0 ts)
    (short : ts.length < maxNesting)
    (settled : ∀ t, rest.head? = some t → t.isSignificant)
    (ready : Ready (blockTokens b offset behind ts rest) s) : ∃ below s',
      topLevelItem (typeToken offset) s = (routeDraft b offset behind below, s') ∧ Ready rest s' := by
  let e : Tail := ⟨endToken behind, rest, rfl, settled⟩
  have head := e.head_significant (Token.wellBraced_significant wellBraced)
  have passes := ready.sound.advance
    [typeToken offset, openingToken offset, b.nameToken offset, b.closingToken offset,
      b.braceToken offset] ready.tokens head fun d (hd : d ∈ s.waiting) => .inl hd
  obtain ⟨source, size, waiting, tokens⟩ := s
  obtain ⟨sound, quiet, ahead⟩ := ready
  dsimp only at quiet ahead passes
  subst quiet ahead
  have inside : Inside e false ts.length ⟨source, size, [], ts ++ endToken behind :: rest⟩ :=
    ⟨ts, wellBraced, Nat.le_refl _, passes.1.sound, rfl, rfl⟩
  obtain ⟨below, s', eq, after⟩ := restOfBlock_stays topLevel_lossless (level_stays maxNesting) short
    (b.braceToken offset) [] inside
  have settled' : Stream.settle ⟨source, size, [], ts ++ endToken behind :: rest⟩
      = ⟨source, size, [], ts ++ endToken behind :: rest⟩ := Stream.settle_eq head
  have read : restOfBlock topLevel (b.braceToken offset) [blockStart (b.braceToken offset)]
      ⟨source, size, [], ts ++ endToken behind :: rest⟩ = _ := eq
  refine ⟨below, s', ?_, after⟩
  rw [topLevelItem_route, settled', read]
  simp only [bind, StateT.bind, node_quiet after.waiting]
  rfl

/-- The texts of the tokens that delimit a block stand in the source. -/
def IsRoute (source : List Char) (b : RouteBlock) (d : Draft) : Prop :=
  ∃ offset behind below, d = routeDraft b offset behind below
    ∧ ∀ t ∈ [typeToken offset, openingToken offset, b.nameToken offset, b.closingToken offset,
      b.braceToken offset, endToken behind], Text.slice source t.start t.stop = t.text

/-- No comment stands at the start of a script of blocks. -/
theorem settled_script {blocks : List RouteBlock} (wellFormed : ∀ b ∈ blocks, b.WellFormed)
    (offset : Nat) :
    ∀ t, (Token.allFrom offset true (script blocks)).head? = some t → t.isSignificant := by
  cases blocks with
  | nil => simp [script, Token.allFrom, Token.Scan.tokens]
  | cons b blocks =>
    obtain ⟨ts, behind, eq, _⟩ := (wellFormed b (by simp)).allFrom_code offset (script blocks)
    have first : (Token.allFrom offset true (script (b :: blocks))).head?
        = some (typeToken offset) := congrArg List.head? eq
    rw [first]
    rintro _ ⟨rfl⟩
    rfl

/-- Well-formed blocks are read one after the other. -/
theorem items_wellBraced {blocks : List RouteBlock} (wellFormed : ∀ b ∈ blocks, b.WellFormed)
    {offset : Nat}
    (ready : Ready (Token.allFrom offset true (script blocks)) s) :
    List.Forall₂ (IsRoute s.source) blocks (items s).1 := by
  induction blocks generalizing offset s with
  | nil =>
    have ended : s.tokens = [] := ready.tokens
    rw [items_end ended]
    simp [ready.waiting]
  | cons b blocks ih =>
    obtain ⟨here, later⟩ := List.forall_mem_cons.1 wellFormed
    obtain ⟨ts, behind, eq, inside, short⟩ := here.allFrom_code offset (script blocks)
    have first : Token.allFrom offset true (script (b :: blocks))
        = blockTokens b offset behind ts (Token.allFrom (behind + 2) true (script blocks)) := eq
    rw [first] at ready
    obtain ⟨below, s', read, after⟩ :=
      topLevelItem_wellBraced inside short (settled_script later (behind + 2)) ready
    have source : s'.source = s.source := by
      have passes := (topLevelItem_lossless ready.tokens ready.sound solid_nil).1.passes
      rw [read] at passes
      exact passes.source
    have placed (d : Draft) : place [] d s' = ([d], s') := by
      obtain ⟨_, _, _, _⟩ := s'
      have quiet := after.waiting
      dsimp only at quiet
      subst quiet
      rfl
    have run : items s = (routeDraft b offset behind below :: (items s').1, (items s').2) := by
      rw [items, repeatUntil_eq itemStep_advancing trivial ready.sound, itemStep_item ready.tokens,
        read, placed]
      exact items_frame _ s'
    rw [run]
    refine .cons ⟨offset, behind, below, rfl, fun t ht => ?_⟩ (source ▸ ih later after)
    have member : t ∈ s.tokens := by
      rw [ready.tokens]
      simp only [blockTokens, List.mem_cons, List.mem_append, List.not_mem_nil, or_false] at ht ⊢
      tauto
    rw [Text.slice, ready.sound.slice? member, Option.getD_some]

end Block

/-- Nothing is cut from the ends of a word. -/
theorem trim_word {word : List Char} (wordChars : word.all Token.Lexeme.isWordChar) :
    Text.trim word = word := by
  have whole (text : List Char) (inside : ∀ c ∈ text, Text.isBlank c = false) :
      text.dropWhile Text.isBlank = text := by
    cases text with
    | nil => rfl
    | cons c text => rw [List.dropWhile_cons_of_neg (by simp [inside c])]
  have plain (c : Char) (hc : c ∈ word) : Text.isBlank c = false :=
    Token.Lexeme.isBlank_wordChar (List.all_eq_true.1 wordChars c hc)
  rw [Text.trim, Text.trimStart, whole word plain, Text.trimEnd,
    whole word.reverse fun c hc => plain c (List.mem_reverse.1 hc), List.reverse_reverse]

section Route

variable {source : List Char} {b : RouteBlock} {d : Draft}

theorem IsRoute.isRoute (h : IsRoute source b d) : d.isRoute := by
  obtain ⟨offset, behind, below, rfl, _⟩ := h
  rfl

theorem IsRoute.label (h : IsRoute source b d) (wellFormed : b.WellFormed) :
    d.routeLabel? source = some ("route[" ++ String.ofList b.name ++ "]") := by
  obtain ⟨offset, behind, below, rfl, texts⟩ := h
  have type := texts (typeToken offset) (by simp)
  have name := texts (b.nameToken offset) (by simp)
  have label : (routeDraft b offset behind below).routeLabel? source
      = some (Route.label ⟨String.ofList (Text.slice source (typeToken offset).start
          (typeToken offset).stop), some (String.ofList (Text.trim (Text.slice source
          (b.nameToken offset).start (b.nameToken offset).stop))), default, default⟩) := rfl
  rw [label, type, name, nameToken, trim_word wellFormed.wordChars, Route.label]
  rfl

theorem IsRoute.outlines (h : IsRoute source b d) :
    ∃ statements, Draft.outlines source d = [b.outline statements] := by
  obtain ⟨offset, behind, below, rfl, texts⟩ := h
  have type := texts (typeToken offset) (by simp)
  have brace := texts (b.braceToken offset) (by simp)
  have close := texts (endToken behind) (by simp)
  have opening : Draft.outlines source (tokenLeaf (openingToken offset)) = [.sign .lBracket] :=
    (outlines_leaf _ _ _ _).trans (by rw [texts (openingToken offset) (by simp)]; rfl)
  have name : Draft.outlines source (tokenLeaf (b.nameToken offset))
      = [.leaf Kind.identifier b.name] :=
    (outlines_leaf _ _ _ _).trans (by rw [texts (b.nameToken offset) (by simp)]; rfl)
  have closing : Draft.outlines source (tokenLeaf (b.closingToken offset)) = [.sign .rBracket] :=
    (outlines_leaf _ _ _ _).trans (by rw [texts (b.closingToken offset) (by simp)]; rfl)
  refine ⟨outlinesOf source below, ?_⟩
  simp only [routeDraft, outlines_branch, outlinesOf_cons, outlinesOf_nil, outlines_withField,
    outlines_leaf, outlinesOf_append, type, opening, name, closing, brace, close]
  rfl

theorem outlines_routes {blocks : List RouteBlock} {ds : List Draft}
    (routes : List.Forall₂ (IsRoute source) blocks ds) : ∃ bodies, bodies.length = blocks.length
      ∧ outlinesOf source ds = List.zipWith RouteBlock.outline blocks bodies := by
  induction routes with
  | nil => exact ⟨[], rfl, rfl⟩
  | cons route _ ih =>
    obtain ⟨statements, here⟩ := route.outlines
    obtain ⟨bodies, length, later⟩ := ih
    exact ⟨statements :: bodies, congrArg (· + 1) length, by rw [outlinesOf_cons, here, later]; rfl⟩

theorem labels_routes {blocks : List RouteBlock} {ds : List Draft}
    (routes : List.Forall₂ (IsRoute source) blocks ds) (wellFormed : ∀ b ∈ blocks, b.WellFormed) :
    (ds.filter Draft.isRoute).filterMap (Draft.routeLabel? source)
      = blocks.map fun b => "route[" ++ String.ofList b.name ++ "]" := by
  induction routes with
  | nil => rfl
  | cons route _ ih =>
    obtain ⟨here, later⟩ := List.forall_mem_cons.1 wellFormed
    rw [List.filter_cons_of_pos route.isRoute, List.filterMap_cons, route.label here, ih later]
    rfl

end Route

end Script

namespace Tree

open Script

/-- The script of some well-formed blocks consists of these blocks, each of them closed, and the
index lists them in their order. -/
theorem ofScript_routes {blocks : List RouteBlock} (wellFormed : ∀ b ∈ blocks, b.WellFormed) :
    (ofScript (RouteBlock.script blocks)).routes.map Route.label
        = blocks.map (fun b => "route[" ++ String.ofList b.name ++ "]")
      ∧ ∃ bodies, bodies.length = blocks.length ∧ (ofScript (RouteBlock.script blocks)).outline
        = .nodeOf Kind.sourceFile (List.zipWith RouteBlock.outline blocks bodies) := by
  have settled : Stream.ofText (RouteBlock.script blocks) = ⟨RouteBlock.script blocks,
      Text.size (RouteBlock.script blocks), [], Token.all (RouteBlock.script blocks)⟩ :=
    Stream.settle_eq (settled_script wellFormed 0)
  have ready : Ready (Token.allFrom 0 true (RouteBlock.script blocks))
      (.ofText (RouteBlock.script blocks)) :=
    ⟨(whole_ofText _).settle.sound, by rw [settled], by rw [settled]; rfl⟩
  have routes := items_wellBraced wellFormed ready
  obtain ⟨bodies, length, outlines⟩ := outlines_routes routes
  refine ⟨?_, bodies, length, ?_⟩
  · rw [routes_label, thaw_ofScript]
    exact labels_routes routes wellFormed
  · rw [outline_ofScript]
    exact congrArg _ outlines

/-- A malformed body before a route. -/
def malformedBlocks : List RouteBlock :=
  [⟨['A'], ["f(1, ];".toList, "if (x) drop; else )".toList, "; \x7b while ( \x7b \x7d \x7d".toList]⟩,
    ⟨['B'], ["drop;".toList]⟩]

theorem ofScript_routes_malformed :
    (∀ b ∈ malformedBlocks, b.WellFormed)
      ∧ (ofScript (RouteBlock.script malformedBlocks)).routes.map Route.label
        = ["route[A]", "route[B]"]
      ∧ ∃ bodies, bodies.length = malformedBlocks.length
        ∧ (ofScript (RouteBlock.script malformedBlocks)).outline
          = .nodeOf Kind.sourceFile (List.zipWith RouteBlock.outline malformedBlocks bodies) := by
  have wellFormed : ∀ b ∈ malformedBlocks, b.WellFormed := by decide
  exact ⟨wellFormed, ofScript_routes wellFormed⟩

/-- A body that ends with an `if`, before another route. -/
def unfinishedBlocks : List RouteBlock := [⟨['A'], ["if".toList]⟩, ⟨['B'], [[]]⟩]

/-- The closing brace behind the `if` is taken for its body, and the second route is lost. -/
theorem ofScript_routes_unfinished :
    (∀ b ∈ unfinishedBlocks, b.tokens.length ≤ 50 ∧ ∀ t ∈ b.tokens, t.isPlain)
      ∧ (ofScript (RouteBlock.script unfinishedBlocks)).routes.map Route.label
        ≠ unfinishedBlocks.map fun b => "route[" ++ String.ofList b.name ++ "]" := by
  decide +kernel

end Tree

end RouteScript
