import RouteScript.Proofs.Recovery.Block
import RouteScript.Proofs.Recovery.Lexing
/-!
# Routes, line by line

A script that is one route block with lines in it. What the block holds is what its lines hold one
by one, up to the places in the text.
-/
namespace RouteScript

namespace Script

open Draft

/-- Lines in a block, and its closing brace. -/
def upToClose : List (List Char) → List Char
  | [] => ['}', '\n']
  | line :: lines => line ++ '\n' :: upToClose lines

def header : List Char := "request_route \x7b".toList

theorem size_header : Text.size header = 15 := by decide

/-- A script that is one block with these lines. -/
def inRoute (lines : List (List Char)) : List Char := header ++ '\n' :: upToClose lines

/-- The word that opens the block. -/
def routeWord : Token := ⟨.identifier, "request_route".toList, 0, true⟩

def routeBrace : Token := ⟨.lBrace, ['{'], 14, false⟩

theorem all_inRoute (lines : List (List Char)) : Token.all (inRoute lines)
    = routeWord :: routeBrace :: Token.allFrom 16 true (upToClose lines) := by
  have tokens : Token.all header = [routeWord, routeBrace] := by decide
  have plain : ∀ t ∈ Token.all header, t.isSignificant := by decide
  have cut := Token.allFrom_line (by decide) plain 0 (upToClose lines)
  rw [tokens] at cut
  exact cut

theorem allFrom_close (offset : Nat) :
    Token.allFrom offset true (upToClose []) = [⟨.rBrace, ['}'], offset, true⟩] := by
  have brace : Token.all ['}'] = [⟨.rBrace, ['}'], 0, true⟩] := by decide
  have plain : ∀ t ∈ Token.all ['}'], t.isSignificant := by decide
  have cut := Token.allFrom_line (by decide) plain offset []
  rw [brace] at cut
  simpa [Token.shift, upToClose, Token.allFrom, Token.Scan.tokens] using cut

/-- The stream behind the opening brace of the block. -/
def Stream.inBlock (lines : List (List Char)) : Stream :=
  Stream.settle ⟨inRoute lines, Text.size (inRoute lines), [],
    Token.allFrom 16 true (upToClose lines)⟩

/-- The nodes of the block, and the stream behind it. -/
def blockOf (lines : List (List Char)) : List Draft × Stream :=
  restOfBlock topLevel routeBrace [blockStart routeBrace] (.inBlock lines)

theorem ofText_inRoute (lines : List (List Char)) : Stream.ofText (inRoute lines)
    = ⟨inRoute lines, Text.size (inRoute lines), [],
      routeWord :: routeBrace :: Token.allFrom 16 true (upToClose lines)⟩ := by
  rw [Stream.ofText, all_inRoute]
  rfl

theorem inBlock_sound (lines : List (List Char)) : (Stream.inBlock lines).Sound := by
  have start : (Stream.ofText (inRoute lines)).Sound := (whole_ofText _).settle.sound
  have first := (Conserves.next [] start (by rw [ofText_inRoute]) (solids_tokenLeaf routeWord)
    (extras_tokenLeaf routeWord)).passes.sound
  rw [ofText_inRoute] at first
  exact (Conserves.next [] first rfl (solids_tokenLeaf routeBrace)
    (extras_tokenLeaf routeBrace)).passes.sound

theorem topLevelItem_inRoute (lines : List (List Char)) :
    topLevelItem routeWord (.ofText (inRoute lines))
      = (do
          let block ← node Kind.compoundStatement (blockOf lines).1
          node Kind.routeDefinition [(Draft.leaf Kind.routeType true routeWord.start
            routeWord.stop).withField Field.routeType, block.withField Field.body])
        (blockOf lines).2 := by
  rw [ofText_inRoute]
  rfl

theorem itemStep_item {s : Stream} {t : Token} {rest : List Token} (tokens : s.tokens = t :: rest)
    (children : List Draft) : itemStep children s
      = (.inl (place children (topLevelItem t s).1 (topLevelItem t s).2).1,
        (place children (topLevelItem t s).1 (topLevelItem t s).2).2) := by
  have here : peek s = (some t, s) := by simp [peek, tokens]
  simp only [itemStep, bind, StateT.bind, here]
  rfl

theorem itemStep_end {s : Stream} (tokens : s.tokens = []) (children : List Draft) :
    itemStep children s = (.inr (children ++ s.waiting), { s with waiting := [] }) := by
  obtain ⟨source, size, waiting, ts⟩ := s
  subst tokens
  rfl

/-- Items that have been read have no influence on what is read behind them. -/
theorem items_frame (front : List Draft) (s : Stream) :
    repeatUntil itemStep id front s = (front ++ (items s).1, (items s).2) := by
  unfold items repeatUntil
  suffices h : ∀ before, repeatAtMost itemStep id (s.size + 1) (front ++ before) s
      = (front ++ (repeatAtMost itemStep id (s.size + 1) before s).1,
        (repeatAtMost itemStep id (s.size + 1) before s).2) by
    simpa using h []
  induction s.size + 1 generalizing s with
  | zero => exact fun before => rfl
  | succ rounds ih =>
    intro before
    rw [repeatAtMost_succ, repeatAtMost_succ]
    cases tokens : s.tokens with
    | nil =>
      rw [itemStep_end tokens, itemStep_end tokens]
      simp
    | cons t rest =>
      rw [itemStep_item tokens, itemStep_item tokens, place_eq, place_eq before]
      dsimp only
      rw [List.append_assoc, ih]

theorem items_end {s : Stream} (tokens : s.tokens = []) :
    items s = (s.waiting, { s with waiting := [] }) := by
  have step := itemStep_end tokens []
  unfold items repeatUntil
  rw [repeatAtMost_succ, step]
  rfl

def startOutline : Outline := .node ⟨Kind.blockStart, true, none, some ['{']⟩ []

def endOutline : Outline := .node ⟨Kind.blockEnd, true, none, some ['}']⟩ []

/-- The outline of a block with these nodes. -/
def blockOutline (below : List Outline) : Outline :=
  .node ⟨Kind.routeDefinition, true, none, none⟩
    [.node ⟨Kind.routeType, true, some Field.routeType, some "request_route".toList⟩ [],
      .node ⟨Kind.compoundStatement, true, some Field.body, none⟩ below]

/-- The outline of a script that is one closed block with these statements. -/
def routeOutline (statements : List Outline) : Outline :=
  .node ⟨Kind.sourceFile, true, none, none⟩
    [blockOutline (startOutline :: (statements ++ [endOutline]))]

theorem outlines_made {s : Stream} (hs : s.Sound) (source : List Char) (kind : String)
    (children : List Draft) : Draft.outlines source (node kind children s).1
      = [.node ⟨kind, true, none, if children.isEmpty then some [] else none⟩
          (outlinesOf source children)] := by
  change Draft.outlines source (.branch kind (absorb children s).1) = _
  rw [outlines_branch, isEmpty_absorb, outlinesOf_absorb hs]

theorem outline_ofScript (text : List Char) : (Tree.ofScript text).outline
    = .node ⟨Kind.sourceFile, true, none, none⟩ (outlinesOf text (items (.ofText text)).1) := by
  unfold Tree.outline
  rw [Tree.thaw_ofScript]
  rfl

theorem slice?_inRoute {t : Token} (ht : t = routeWord ∨ t = routeBrace)
    (lines : List (List Char)) : Text.slice? (inRoute lines) t.start t.stop = some t.text := by
  have start : (Stream.ofText (inRoute lines)).Sound := (whole_ofText _).settle.sound
  have here := start.slice? (t := t) (by rcases ht with rfl | rfl <;> simp [ofText_inRoute])
  rwa [ofText_inRoute] at here

theorem outlines_start (lines : List (List Char)) :
    Draft.outlines (inRoute lines) (blockStart routeBrace) = [startOutline] := by
  rw [outlines_leaf, Text.slice, slice?_inRoute (.inr rfl)]
  rfl

/-- The items of a script are its block and what is read behind it. -/
theorem items_inRoute (lines : List (List Char)) : ∃ waiting,
    (∀ d ∈ waiting, d ∈ (blockOf lines).2.waiting)
      ∧ outlinesOf (inRoute lines) (items (.ofText (inRoute lines))).1
        = blockOutline (outlinesOf (inRoute lines) (blockOf lines).1)
          :: outlinesOf (inRoute lines) (items { (blockOf lines).2 with waiting }).1
      ∧ (HoldMarkup (blockOf lines).1 → HoldMarkup (items (.ofText (inRoute lines))).1)
      ∧ (HoldMarkup (items { (blockOf lines).2 with waiting }).1 →
        HoldMarkup (items (.ofText (inRoute lines))).1) := by
  have start : (Stream.ofText (inRoute lines)).Sound := (whole_ofText _).settle.sound
  have conserves : Conserves [blockStart routeBrace] (.inBlock lines) (blockOf lines).1
    (blockOf lines).2 :=
    block_conserves topLevel_lossless (inBlock_sound lines) ⟨[], rfl⟩
  have first : (Stream.ofText (inRoute lines)).tokens
      = routeWord :: routeBrace :: Token.allFrom 16 true (upToClose lines) := by
    rw [ofText_inRoute]
  let type := Draft.leaf Kind.routeType true routeWord.start routeWord.stop
  let block := node Kind.compoundStatement (blockOf lines).1 (blockOf lines).2
  let route := node Kind.routeDefinition
    [type.withField Field.routeType, block.1.withField Field.body] block.2
  let later := (place [] route.1 route.2).2
  have read : topLevelItem routeWord (.ofText (inRoute lines)) = route := topLevelItem_inRoute lines
  have closed := conserves.passes.sound
  have sound : block.2.Sound := (closed.drop_waiting fun d hd => (List.mem_filter.1 hd).1).sound
  have sound' : route.2.Sound := (sound.drop_waiting fun d hd => (List.mem_filter.1 hd).1).sound
  have run : items (.ofText (inRoute lines))
      = ((place [] route.1 route.2).1 ++ (items later).1, (items later).2) := by
    rw [items, repeatUntil_eq itemStep_advancing trivial start, itemStep_item first, read]
    exact items_frame _ later
  have nonempty : (blockOf lines).1.isEmpty = false := by
    have marks := conserves.solids_ne_nil (by simp [solids_leaf (show Kind.blockStart ≠ Kind.xml by
      decide)])
    cases children : (blockOf lines).1 with
    | nil => simp [children] at marks
    | cons => rfl
  have word : Text.slice (inRoute lines) routeWord.start routeWord.stop
      = "request_route".toList := by
    rw [Text.slice, slice?_inRoute (.inl rfl)]
    rfl
  have outline : Draft.outlines (inRoute lines) route.1
      = [blockOutline (outlinesOf (inRoute lines) (blockOf lines).1)] := by
    rw [outlines_made sound, outlinesOf_cons, outlinesOf_cons, outlinesOf_nil, outlines_withField,
      outlines_withField, outlines_leaf, outlines_made closed, nonempty, word]
    rfl
  refine ⟨later.waiting, fun d hd => ?_, ?_, fun holds => ?_, fun holds => ?_⟩
  · exact (List.mem_filter.1 (List.mem_filter.1 (List.mem_filter.1 hd).1).1).1
  · rw [run, outlinesOf_append, outlinesOf_place sound', outline]
    rfl
  · rw [run]
    have inBlock : block.1.HoldsMarkup := holds.node _ _
    have inRoute : route.1.HoldsMarkup :=
      HoldMarkup.node ⟨_, by simp, inBlock.withField Field.body⟩ _ _
    exact ⟨route.1, by simp [place], inRoute⟩
  · rw [run]
    obtain ⟨d, hd, holds⟩ := holds
    exact ⟨d, List.mem_append_right _ hd, holds⟩

/-- The script with these lines is one closed block that holds these statements. -/
def Closes (lines : List (List Char)) (statements : List Outline) : Prop :=
  (Tree.ofScript (inRoute lines)).outline = routeOutline statements

/-- A block that stands before a closing brace at the end of the text closes. -/
theorem closes_of_read {lines : List (List Char)} {more : List Draft} {s : Stream} {close : Token}
    (read : blockOf lines = restOfBlock topLevel routeBrace (blockStart routeBrace :: more) s)
    (passes : (Stream.inBlock lines).Passes s) (tokens : s.tokens = [close])
    (kind : close.kind = .rBrace) : Closes lines (outlinesOf (inRoute lines) more) := by
  have opened : isOpened routeBrace (blockStart routeBrace :: more) := ⟨more, rfl⟩
  obtain ⟨last, s', eq, ended, outlines⟩ :=
    restOfBlock_close topLevel_lossless passes.sound tokens kind opened
  have here : Text.slice? (inRoute lines) close.start close.stop = some close.text := by
    have source : s.source = inRoute lines := passes.source
    rw [← source]
    exact passes.sound.slice? (by simp [tokens])
  have text : close.text = ['}'] :=
    (passes.sound.spelled close (by simp [tokens])).text "\x7d" (by rw [kind]; rfl)
  obtain ⟨waiting, sub, items_eq, _, _⟩ := items_inRoute lines
  have conserves : Conserves [blockStart routeBrace] (.inBlock lines) (blockOf lines).1
    (blockOf lines).2 :=
    block_conserves topLevel_lossless (inBlock_sound lines) ⟨[], rfl⟩
  have nothing : outlinesOf (inRoute lines) (items { (blockOf lines).2 with waiting }).1 = [] := by
    rw [items_end (by rw [read, eq]; exact ended)]
    exact outlinesOf_waiting conserves.passes.sound _ sub
  have below : outlinesOf (inRoute lines) (blockOf lines).1
      = startOutline :: (outlinesOf (inRoute lines) more ++ [endOutline]) := by
    rw [read, eq, List.cons_append, outlinesOf_cons, outlines_start, outlinesOf_append, outlines,
      outlines_leaf, Text.slice, here, text]
    rfl
  rw [Closes, outline_ofScript, items_eq, below, nothing]
  rfl

/-- A line of tokens with a semicolon at its end. -/
structure Line (text : List Char) : Prop where
  oneLine : '\n' ∉ text
  short : (Token.all text).length ≤ 50
  tokens : IsLine (Token.all text)

instance (text : List Char) : Decidable (Line text) :=
  decidable_of_iff ('\n' ∉ text ∧ (Token.all text).length ≤ 50 ∧ IsLine (Token.all text))
    ⟨fun ⟨oneLine, short, tokens⟩ => ⟨oneLine, short, tokens⟩,
      fun ⟨oneLine, short, tokens⟩ => ⟨oneLine, short, tokens⟩⟩

theorem Line.allFrom {line : List Char} (h : Line line) (offset : Nat) (lines : List (List Char)) :
    Token.allFrom offset true (upToClose (line :: lines))
      = (Token.all line).map (Token.shift offset)
        ++ Token.allFrom (offset + Text.size line + 1) true (upToClose lines) :=
  Token.allFrom_line h.oneLine (fun t ht => (h.tokens.inLine t ht).significant) offset _

theorem inLine_shift {t : Token} (h : t.InLine) (distance : Nat) : (t.shift distance).InLine :=
  ⟨h.significant, h.lBrace, h.rBrace, h.lt, h.noElse⟩

theorem isLine_shift {ts : List Token} (h : IsLine ts) (distance : Nat) :
    IsLine (ts.map (Token.shift distance)) := by
  induction h with
  | last t semicolon => exact .last _ semicolon
  | cons inLine inside _ ih => exact .cons (inLine_shift inLine distance) inside ih

/-- No token in lines is a comment, opens markup or is an `else`. -/
theorem lines_plain {lines : List (List Char)} (h : ∀ line ∈ lines, Line line) (offset : Nat) :
    ∀ t ∈ Token.allFrom offset true (upToClose lines),
      t.isSignificant ∧ t.kind ≠ .lt ∧ ¬ t.IsElse := by
  induction lines generalizing offset with
  | nil =>
    rw [allFrom_close]
    simp [Token.isSignificant, Token.isTrivia, Token.Kind.isTrivia, Token.IsElse]
  | cons line lines ih =>
    rw [(h line (by simp)).allFrom]
    intro t ht
    rcases List.mem_append.1 ht with here | there
    · have line := isLine_shift (h line (by simp)).tokens offset
      have inLine := line.inLine t here
      exact ⟨inLine.significant, inLine.lt, inLine.noElse⟩
    · exact ih (fun line hl => h line (by simp [hl])) _ t there

theorem inBlock_eq {lines : List (List Char)}
    (h : ∀ t ∈ Token.allFrom 16 true (upToClose lines), t.isSignificant) :
    Stream.inBlock lines = ⟨inRoute lines, Text.size (inRoute lines), [],
      Token.allFrom 16 true (upToClose lines)⟩ := by
  exact Stream.settle_eq fun t ht => h t (List.mem_of_head? ht)

theorem closes_nil : Closes [] [] := by
  have none : ∀ line ∈ ([] : List (List Char)), Line line := by simp
  have eq := inBlock_eq fun t ht => (lines_plain none 16 t ht).1
  have ended : (Stream.inBlock []).tokens = [⟨.rBrace, ['}'], 16, true⟩] := by
    rw [eq, allFrom_close]
  exact closes_of_read rfl (inBlock_sound []).refl ended rfl

/-- Tokens look the same wherever they stand. -/
theorem looks_shift (distance : Nat) (last : Option Nat) (ts : List Token) :
    Token.looks (last.map (· + distance)) (ts.map (Token.shift distance))
      = Token.looks last ts := by
  induction ts generalizing last with
  | nil => rfl
  | cons t ts ih =>
    have behind := ih (some t.stop)
    have adjacent : (last.map (· + distance) == some (t.start + distance))
        = (last == some t.start) := by
      cases last <;> simp
    simp only [Option.map_some] at behind
    simp only [List.map_cons, Token.looks, Token.shift_kind, Token.shift_text, Token.shift_stop,
      behind]
    rw [← adjacent]
    rfl

theorem filter_significant {ts : List Token} (h : ∀ t ∈ ts, t.isSignificant) :
    ts.filter Token.isSignificant = ts := List.filter_eq_self.2 h

section Closes

variable {line : List Char} {lines : List (List Char)} {s : Stream} {offset : Nat}

/-- A stream whose tokens are those of these lines looks as if they were all of the block. -/
theorem like_inBlock (hs : s.Sound) (plain : ∀ t ∈ s.tokens, t.isSignificant)
    (tokens : s.tokens = Token.allFrom (16 + offset) true (upToClose lines)) :
    Like (.sharp (inRoute lines) s.source) none none (.inBlock lines) s := by
  have moved := Token.allFrom_shift offset 16 true (upToClose lines)
  rw [moved] at tokens
  have plain' : ∀ t ∈ Token.allFrom 16 true (upToClose lines), t.isSignificant := by
    intro t ht
    have there : t.shift offset ∈ s.tokens := by
      rw [tokens]
      exact List.mem_map_of_mem ht
    simpa using plain (t.shift offset) there
  refine ⟨inBlock_sound lines, hs, rfl, rfl, ?_⟩
  rw [inBlock_eq plain', filter_significant plain, filter_significant plain', tokens]
  exact congrArg (List.map _) (looks_shift offset none _).symm

/-- A block that goes on with these lines behind some nodes holds what the lines hold. -/
theorem closes_of_lines {lines' : List (List Char)} {more : List Draft} {os : List Outline}
    (read : blockOf lines' = restOfBlock topLevel routeBrace (blockStart routeBrace :: more) s)
    (passes : (Stream.inBlock lines').Passes s)
    (tokens : s.tokens = Token.allFrom (16 + offset) true (upToClose lines))
    (significant : ∀ t ∈ s.tokens, t.isSignificant)
    (plain : ¬ (Tree.ofScript (inRoute lines)).HasMarkup) (rest : Closes lines os) :
    Closes lines' (outlinesOf (inRoute lines') more ++ os) := by
  have like : Like (.sharp (inRoute lines) (inRoute lines')) none none (.inBlock lines) s := by
    have := like_inBlock passes.sound significant tokens
    rwa [passes.source] at this
  have same : Peers (.sharp (inRoute lines) (inRoute lines')) routeBrace routeBrace :=
    ⟨rfl, rfl, rfl, slice?_inRoute (.inr rfl) lines, slice?_inRoute (.inr rfl) lines'⟩
  have noMarkup : ¬ HoldMarkup (items (.ofText (inRoute lines))).1 := by
    rw [Tree.hasMarkup_ofScript] at plain
    exact fun holds => plain (holdsMarkup_node.2 (.inr holds))
  obtain ⟨waiting, sub, alone, inBlock, inRest⟩ := items_inRoute lines
  obtain ⟨waiting', sub', both, _, _⟩ := items_inRoute lines'
  have shown : [blockOutline (startOutline :: (os ++ [endOutline]))]
      = blockOutline (outlinesOf (inRoute lines) (blockOf lines).1)
        :: outlinesOf (inRoute lines) (items { (blockOf lines).2 with waiting }).1 := by
    rw [Closes, outline_ofScript, alone] at rest
    exact (Rose.node.inj rest).2.symm
  obtain ⟨here, nothing⟩ := List.cons.inj shown
  have below : outlinesOf (inRoute lines) (blockOf lines).1
      = startOutline :: (os ++ [endOutline]) := by
    simpa [blockOutline] using here.symm
  obtain ⟨outlines, p, q, like'⟩ := restOfBlock_behind topLevel_lossless (level_alike _ maxNesting)
    same like (fun holds => noMarkup (inBlock holds)) below more
  rw [← read] at outlines like'
  have later : outlinesOf (inRoute lines') (items { (blockOf lines').2 with waiting := waiting' }).1
      = [] := by
    rcases items_alike (like'.keep sub sub') with holds | ⟨same, _⟩
    · exact absurd (inRest holds) noMarkup
    · rw [View.outlines_sharp, View.outlines_sharp] at same
      exact same.symm.trans nothing.symm
  rw [Closes, outline_ofScript, both, outlines, later, ← List.append_assoc]
  rfl

theorem lines_noMarkup (h : ∀ line ∈ lines, Line line) :
    ¬ (Tree.ofScript (inRoute lines)).HasMarkup := by
  apply Tree.not_hasMarkup
  intro t ht
  rw [all_inRoute] at ht
  rcases List.mem_cons.1 ht with rfl | ht
  · decide
  · rcases List.mem_cons.1 ht with rfl | ht
    · decide
    · exact (lines_plain h 16 t ht).2.1

/-- Nodes that stand in the first line show of the text no more than the line. -/
theorem outlines_line {more : List Draft}
    (conserves :
      Conserves [blockStart routeBrace] (.inBlock [line]) (blockStart routeBrace :: more) s)
    (position : s.position = 16 + Text.size line + 1) (lines : List (List Char)) :
    outlinesOf (inRoute (line :: lines)) more = outlinesOf (inRoute [line]) more := by
  let front := header ++ '\n' :: (line ++ ['\n'])
  have size : Text.size front = 16 + Text.size line + 1 := by
    simp only [front, Text.size_append, Text.size_cons, Text.size_nil, size_header,
      show Char.utf8Size '\n' = 1 from rfl]
    omega
  have split (lines : List (List Char)) : inRoute (line :: lines) = front ++ upToClose lines := by
    simp only [inRoute, upToClose, front, List.append_assoc, List.cons_append, List.nil_append]
  refine outlinesOf_congr fun start stop leaf => ?_
  have inside : stop ≤ Text.size front := by
    by_cases given : Mark.leaf start stop ∈ solidsOf [blockStart routeBrace]
    · obtain ⟨rfl, rfl⟩ : start = routeBrace.start ∧ stop = routeBrace.stop := by
        simpa [solids_leaf (show Kind.blockStart ≠ Kind.xml by decide)] using given
      have : routeBrace.stop = 15 := rfl
      omega
    · have among : Mark.leaf start stop ∈ solidsOf (blockStart routeBrace :: more) :=
        List.mem_append_right _ leaf
      have before := conserves.leaf_before (inBlock_sound _) among given
      omega
  rw [split lines, split [], Text.slice_append_left _ inside, Text.slice_append_left _ inside]

theorem Line.closes (h : Line line) (later : ∀ l ∈ lines, Line l) {os : List Outline}
    (rest : Closes lines os) :
    ∃ os', Closes [line] os' ∧ (∀ o ∈ os', o.label.kind = Kind.statement)
      ∧ Closes (line :: lines) (os' ++ os) := by
  -- the two streams part behind the line
  let behind := 16 + Text.size line + 1
  let close : Token := ⟨.rBrace, ['}'], behind, true⟩
  have plain := lines_plain later behind
  have closing : close.isSignificant ∧ ¬ close.IsElse := by
    simp [close, Token.isSignificant, Token.isTrivia, Token.Kind.isTrivia, Token.IsElse]
  let e : Tails :=
    { left := Token.allFrom behind true (upToClose lines)
      right := [close]
      left_head := fun t ht => by
        obtain ⟨significant, _, noElse⟩ := plain t (List.mem_of_head? ht)
        exact ⟨significant, noElse⟩
      right_head := fun t ht => by
        obtain rfl : close = t := by simpa using ht
        exact closing }
  have tokens : Token.allFrom 16 true (upToClose (line :: lines))
      = (Token.all line).map (Token.shift 16) ++ e.left := h.allFrom 16 lines
  have tokens' : Token.allFrom 16 true (upToClose [line])
      = (Token.all line).map (Token.shift 16) ++ e.right := by
    rw [h.allFrom, allFrom_close]
  have left := inBlock_eq fun t ht => (lines_plain (List.forall_mem_cons.2 ⟨h, later⟩) 16 t ht).1
  have right := inBlock_eq fun t ht => (lines_plain (List.forall_mem_singleton.2 h) 16 t ht).1
  have parted : Parted e 50 (.inBlock (line :: lines)) (.inBlock [line]) := by
    refine ⟨_, isLine_shift h.tokens 16, by simpa using h.short, inBlock_sound _, inBlock_sound _,
      ?_, ?_, ?_⟩
    · rw [left, right]
    · rw [left, tokens]
    · rw [right, tokens']
  have opened : isOpened routeBrace [blockStart routeBrace] := ⟨[], rfl⟩
  obtain ⟨more, s', t', past, kinds, read, read', passes, conserves⟩ :=
    line_read (show 50 < maxNesting by decide) parted opened
  have closed : Closes [line] (outlinesOf (inRoute [line]) more) :=
    closes_of_read read' conserves.passes past.right_tokens rfl
  have ahead : s'.tokens = Token.allFrom (16 + (Text.size line + 1)) true (upToClose lines) :=
    past.left_tokens
  have closed' : Closes (line :: lines) (outlinesOf (inRoute (line :: lines)) more ++ os) := by
    refine closes_of_lines read passes ahead (fun t ht => ?_) (lines_noMarkup later) rest
    rw [past.left_tokens] at ht
    exact (plain t ht).1
  have same : outlinesOf (inRoute (line :: lines)) more = outlinesOf (inRoute [line]) more := by
    refine outlines_line conserves ?_ lines
    simp [Stream.position, past.right_tokens, e, close, behind]
  rw [same] at closed'
  exact ⟨_, closed, kinds _, closed'⟩

end Closes

end Script

/-- The bodies of the items of a script. -/
def Outline.bodies (script : Outline) : List Outline :=
  script.children.flatMap fun item =>
    item.children.filter fun part => part.label.field == some Field.body

/-- The statements in the bodies of the items of a script. -/
def Tree.statements (t : Tree) : List Outline :=
  t.outline.bodies.flatMap fun body =>
    body.children.filter fun part => part.label.kind == Kind.statement

namespace Tree

open Script

theorem statements_of_closes {lines : List (List Char)} {os : List Outline} (h : Closes lines os)
    (kinds : ∀ o ∈ os, o.label.kind = Kind.statement) :
    (ofScript (inRoute lines)).statements = os := by
  have all : os.filter (fun part => part.label.kind == Kind.statement) = os :=
    List.filter_eq_self.2 fun o ho => by simpa using kinds o ho
  have bodies : (routeOutline os).bodies
      = [.node ⟨Kind.compoundStatement, true, some Field.body, none⟩
          (startOutline :: (os ++ [endOutline]))] := rfl
  rw [statements, h, bodies, List.flatMap_singleton, Rose.children,
    List.filter_cons_of_neg (by decide), List.filter_append, all,
    List.filter_cons_of_neg (by decide), List.filter_nil, List.append_nil]

theorem closes_lines {lines : List (List Char)} (h : ∀ line ∈ lines, Line line) :
    ∃ os, Closes lines os ∧ (∀ o ∈ os, o.label.kind = Kind.statement)
      ∧ os = lines.flatMap fun line => (ofScript (inRoute [line])).statements := by
  induction lines with
  | nil =>
    exact ⟨[], closes_nil, by simp, rfl⟩
  | cons line lines ih =>
    obtain ⟨here, later⟩ := List.forall_mem_cons.1 h
    obtain ⟨os, closes, kinds, eq⟩ := ih later
    obtain ⟨os', single, kinds', closes'⟩ := here.closes later closes
    refine ⟨os' ++ os, closes', fun o ho => ?_, ?_⟩
    · exact (List.mem_append.1 ho).elim (kinds' o) (kinds o)
    · rw [List.flatMap_cons, statements_of_closes single kinds', eq]

/-- The statements of a block are those of its lines, whatever the lines consist of. -/
theorem ofScript_lines {lines : List (List Char)} (h : ∀ line ∈ lines, Line line) :
    (ofScript (inRoute lines)).statements
        = lines.flatMap (fun line => (ofScript (inRoute [line])).statements)
      ∧ (ofScript (inRoute lines)).outline
        = routeOutline (ofScript (inRoute lines)).statements := by
  obtain ⟨os, closes, kinds, eq⟩ := closes_lines h
  rw [statements_of_closes closes kinds]
  exact ⟨eq, closes⟩

/-- Two broken lines before a call. -/
def brokenLines : List (List Char) := ["f(1, ];".toList, "x = if ) return ;".toList, "g();".toList]

theorem ofScript_lines_broken :
    (∀ line ∈ brokenLines, Line line)
      ∧ (ofScript (inRoute brokenLines)).statements
        = brokenLines.flatMap (fun line => (ofScript (inRoute [line])).statements)
      ∧ (ofScript (inRoute brokenLines)).outline
        = routeOutline (ofScript (inRoute brokenLines)).statements := by
  have lines : ∀ line ∈ brokenLines, Line line := by decide
  exact ⟨lines, ofScript_lines lines⟩

end Tree

end RouteScript
