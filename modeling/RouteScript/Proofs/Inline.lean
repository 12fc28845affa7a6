import RouteScript.Proofs.Shift.Statement
import RouteScript.Proofs.Recovery.Route
/-!
# Markup before a script

Well-nested elements at the head of a text are one node that ends where the last of them ends,
whatever stands in the text between their tags. The script behind them is read as if it stood alone.
-/
namespace RouteScript

/-- Trimming the end of a text leaves what it starts with, if that is no white space. -/
theorem Text.head?_trim {text : List Char} {c : Char} (head : (trimStart text).head? = some c)
    (visible : isBlank c = false) : (trim text).head? = some c := by
  obtain ⟨behind, split, blank⟩ := trim_split text
  have whole := List.takeWhile_append_dropWhile (p := isBlank) (l := text)
  have start : trimStart text = trim text ++ behind := by
    rw [List.append_assoc] at split
    exact List.append_cancel_left (whole.trans split)
  rw [start] at head
  cases inner : trim text with
  | cons d more => simpa [inner] using head
  | nil =>
    rw [inner] at head
    have := blank c (List.mem_of_head? head)
    simp [visible] at this

namespace Markup

/--
A name: its first character tells the tag from a closing one, from an instruction, a declaration
and the operator `<=`.
-/
structure IsName (name : List Char) : Prop where
  first : ∃ c rest, name = c :: rest ∧ c ∉ ['/', '?', '!', '=']
  plain : ∀ c ∈ name, c ≠ '>' ∧ Text.isBlank c = false

def openingTag (name attributes : List Char) : List Char := '<' :: (name ++ attributes ++ ['>'])

def closingTag (name : List Char) : List Char := '<' :: ('/' :: name ++ ['>'])

/-- A tag that opens no element and closes none. -/
inductive Lone : List Char → Prop
  | empty {name attributes : List Char} (named : IsName name) (closed : '>' ∉ attributes) :
      Lone (openingTag name (attributes ++ ['/']))
  | instruction {body : List Char} (closed : '>' ∉ body) : Lone ('<' :: ('?' :: body ++ ['?', '>']))
  | declaration {body : List Char} (closed : '>' ∉ body) : Lone ('<' :: ('!' :: body ++ ['>']))

mutual

/-- A tag on its own, or two tags of one name with content between them. -/
inductive Element : List Char → Prop
  | lone {tag : List Char} (h : Lone tag) : Element tag
  | pair {name attributes content : List Char} (named : IsName name) (closed : '>' ∉ attributes)
      (opens : (name ++ attributes).getLast? ≠ some '/') (h : Content content) :
      Element (openingTag name attributes ++ content ++ closingTag name)

/-- Elements and text in any order. -/
inductive Content : List Char → Prop
  | nil : Content []
  | text {run rest : List Char} (h : '<' ∉ run) (tail : Content rest) : Content (run ++ rest)
  | element {element rest : List Char} (h : Element element) (tail : Content rest) :
      Content (element ++ rest)

end

/-- Elements, at least one, with nothing but white space between them. -/
inductive Elements : List Char → Prop
  | last {element : List Char} (h : Element element) : Elements element
  | cons {element gap rest : List Char} (h : Element element) (blank : ∀ c ∈ gap, Text.isBlank c)
      (tail : Elements rest) : Elements (element ++ gap ++ rest)

/-- A tag that changes the number of open elements by this much. -/
structure IsTag (tag : List Char) (change : Int) : Prop where
  shape : ∃ body, tag = '<' :: (body ++ ['>']) ∧ '>' ∉ body
  depth : Script.tagDepth tag = change

theorem IsName.not_mem {name : List Char} (h : IsName name) : '>' ∉ name := fun there =>
  (h.plain _ there).1 rfl

theorem drop_last_two (before : List Char) (c d : Char) :
    (before ++ [c, d]).drop ((before ++ [c, d]).length - 2) = [c, d] := by
  rw [List.length_append]
  exact List.drop_left

theorem tagDepth_closing (more : List Char) : Script.tagDepth ('<' :: '/' :: more) = -1 := by
  simp [Script.tagDepth]

/-- Whether a tag that starts with a name opens an element is seen at its end. -/
theorem tagDepth_named {tag before : List Char} {c last : Char} {rest : List Char}
    (head : tag = '<' :: c :: rest) (tells : c ∉ ['/', '?', '!', '='])
    (tail : tag = before ++ [last, '>']) :
    Script.tagDepth tag = if last = '/' then 0 else 1 := by
  have first : tag.take 2 = ['<', c] := by rw [head]; rfl
  have final : tag.drop (tag.length - 2) = [last, '>'] := by rw [tail, drop_last_two]
  rw [Script.tagDepth, first, final]
  simp only [List.mem_cons, List.not_mem_nil, or_false, not_or] at tells
  simp [tells]

theorem Lone.isTag {tag : List Char} (h : Lone tag) : IsTag tag 0 := by
  cases h with
  | @empty name attributes named closed =>
    refine ⟨⟨_, rfl, by simp [named.not_mem, closed]⟩, ?_⟩
    obtain ⟨c, rest, rfl, tells⟩ := named.first
    have tail : openingTag (c :: rest) (attributes ++ ['/'])
        = ('<' :: (c :: rest ++ attributes)) ++ ['/', '>'] := by simp [openingTag]
    exact (tagDepth_named rfl tells tail).trans (if_pos rfl)
  | @instruction body closed =>
    exact ⟨⟨'?' :: body ++ ['?'], by simp, by simp [closed]⟩, by simp [Script.tagDepth]⟩
  | @declaration body closed =>
    exact ⟨⟨'!' :: body, rfl, by simp [closed]⟩, by simp [Script.tagDepth]⟩

theorem isTag_openingTag {name attributes : List Char} (named : IsName name)
    (closed : '>' ∉ attributes) (opens : (name ++ attributes).getLast? ≠ some '/') :
    IsTag (openingTag name attributes) 1 := by
  refine ⟨⟨_, rfl, by simp [named.not_mem, closed]⟩, ?_⟩
  obtain ⟨c, rest, rfl, tells⟩ := named.first
  obtain nothing | ⟨before, last, split⟩ := List.eq_nil_or_concat (c :: rest ++ attributes)
  · contradiction
  · rw [List.concat_eq_append] at split
    rw [split, List.getLast?_concat] at opens
    have tail : openingTag (c :: rest) attributes = ('<' :: before) ++ [last, '>'] := by
      rw [openingTag, split]
      simp
    exact (tagDepth_named rfl tells tail).trans (if_neg fun same => opens (congrArg some same))

theorem isTag_closingTag {name : List Char} (named : IsName name) :
    IsTag (closingTag name) (-1) :=
  ⟨⟨'/' :: name, rfl, by simp [named.not_mem]⟩, tagDepth_closing _⟩

theorem Element.head {element : List Char} (h : Element element) :
    ∃ c rest, element = '<' :: c :: rest ∧ c ≠ '=' := by
  have named {name : List Char} (h : IsName name) (attributes : List Char) :
      ∃ c rest, openingTag name attributes = '<' :: c :: rest ∧ c ≠ '=' := by
    obtain ⟨c, rest, rfl, tells⟩ := h.first
    refine ⟨c, rest ++ attributes ++ ['>'], rfl, ?_⟩
    rintro rfl
    simp at tells
  cases h with
  | lone h =>
    cases h with
    | empty h _ => exact named h _
    | instruction _ => exact ⟨'?', _, rfl, by decide⟩
    | declaration _ => exact ⟨'!', _, rfl, by decide⟩
  | @pair name attributes content h _ _ _ =>
    obtain ⟨c, rest, eq, other⟩ := named h attributes
    exact ⟨c, rest ++ content ++ closingTag name, by simp [eq], other⟩

theorem Elements.head {elements : List Char} (h : Elements elements) :
    ∃ c rest, elements = '<' :: c :: rest ∧ c ≠ '=' := by
  cases h with
  | last h => exact h.head
  | @cons element gap rest h _ _ =>
    obtain ⟨c, more, rfl, other⟩ := h.head
    exact ⟨c, more ++ gap ++ rest, rfl, other⟩

end Markup

namespace Script

open Draft Markup

theorem length_dropWhile_text {c : Char} (noTag : c ≠ '<') (rest : List Char) :
    ((c :: rest).dropWhile (· ≠ '<')).length ≤ rest.length := by
  rw [List.dropWhile_cons_of_pos (by simpa using noTag)]
  exact List.length_dropWhile_le _ rest

theorem ne_of_not_mem {x : Char} {run : List Char} (h : x ∉ run) : ∀ c ∈ run, (c ≠ x : Bool) := by
  intro c hc
  simp only [ne_eq, decide_not, Bool.not_eq_true', decide_eq_false_iff_not]
  rintro rfl
  exact h hc

/-- More rounds than characters change nothing. -/
theorem markupLeaves_enough {n m : Nat} {depth : Int} {offset : Nat} {text : List Char}
    (hn : text.length < n) (hm : text.length < m) :
    markupLeaves n depth offset text = markupLeaves m depth offset text := by
  induction n generalizing m depth offset text with
  | zero => omega
  | succ n ih =>
    obtain ⟨m, rfl⟩ : ∃ k, m = k + 1 := ⟨m - 1, by omega⟩
    cases text with
    | nil => rfl
    | cons c rest =>
      simp only [List.length_cons, Nat.add_lt_add_iff_right] at hn hm
      have same (depth : Int) (offset : Nat) {text : List Char} (shorter : text.length ≤ rest.length) :
          markupLeaves n depth offset text = markupLeaves m depth offset text :=
        ih (Nat.lt_of_le_of_lt shorter hn) (Nat.lt_of_le_of_lt shorter hm)
      unfold markupLeaves
      split
      · rename_i noTag
        dsimp only
        rw [same _ _ (length_dropWhile_text noTag rest)]
      · rename_i tag
        have opens : c = '<' := by simpa using tag
        split
        · rfl
        · rename_i close after behind
          have shorter : after.length ≤ rest.length := by
            have drop := List.length_dropWhile_le (· ≠ '>') rest
            rw [List.dropWhile_cons_of_pos (by simp [opens])] at behind
            rw [behind, List.length_cons] at drop
            exact Nat.le_of_succ_le drop
          have trimmed : (Text.trimStart after).length ≤ rest.length :=
            Nat.le_trans (List.length_dropWhile_le _ after) shorter
          dsimp only
          rw [same _ _ shorter, same _ _ trimmed]

/-- The offset and the text behind markup. -/
def behindMarkup (depth : Int) (offset : Nat) (text : List Char) : Nat × List Char :=
  (markupLeaves (text.length + 1) depth offset text).2

/-- The reading goes on at the next tag. -/
theorem behindMarkup_skip (depth : Int) (offset : Nat) (text : List Char) :
    behindMarkup depth offset text
      = behindMarkup depth (offset + Text.size (text.takeWhile (· ≠ '<')))
        (text.dropWhile (· ≠ '<')) := by
  cases text with
  | nil => rfl
  | cons c rest =>
    by_cases tag : c = '<'
    · simp [tag]
    · have enough (offset : Nat) := @markupLeaves_enough _ _ depth offset _
        (Nat.lt_succ_of_le (length_dropWhile_text tag rest)) (Nat.lt_succ_self _)
      rw [behindMarkup, List.length_cons, markupLeaves, if_pos tag]
      dsimp only
      rw [enough]
      rfl

theorem behindMarkup_text {run : List Char} (h : '<' ∉ run) (depth : Int) (offset : Nat)
    (text : List Char) :
    behindMarkup depth offset (run ++ text)
      = behindMarkup depth (offset + Text.size run) text := by
  have all := ne_of_not_mem h
  -- what follows may be text as well, so the run alone is no round of the reading
  rw [behindMarkup_skip, List.takeWhile_append_of_pos all, List.dropWhile_append_of_pos all,
    Text.size_append, ← Nat.add_assoc, ← behindMarkup_skip]

/-- Behind a tag the reading goes on as long as an element is open or another tag follows. -/
theorem behindMarkup_tag {tag : List Char} {change : Int} (h : IsTag tag change) (depth : Int)
    (offset : Nat) (text : List Char) :
    behindMarkup depth offset (tag ++ text) =
      if depth + change > 0 then behindMarkup (depth + change) (offset + Text.size tag) text
      else if (Text.trimStart text).head? = some '<' then
        behindMarkup (depth + change)
          (offset + Text.size tag + Text.size (text.takeWhile Text.isBlank)) (Text.trimStart text)
      else (offset + Text.size tag, text) := by
  obtain ⟨body, shape, closed⟩ := h.shape
  have whole : tag ++ text = '<' :: (body ++ '>' :: text) := by simp [shape]
  have all := @ne_of_not_mem '>' ('<' :: body) (by simpa using closed)
  have drop : ('<' :: (body ++ '>' :: text)).dropWhile (· ≠ '>') = '>' :: text := by
    rw [← List.cons_append, List.dropWhile_append_of_pos all]
    rfl
  have take : ('<' :: (body ++ '>' :: text)).takeWhile (· ≠ '>') ++ ['>'] = tag := by
    rw [← List.cons_append, List.takeWhile_append_of_pos all, shape]
    simp
  have same (depth : Int) (offset : Nat) {text' : List Char} (shorter : text'.length ≤ text.length) :
      (markupLeaves (body ++ '>' :: text).length.succ depth offset text').2
        = behindMarkup depth offset text' := by
    rw [behindMarkup, markupLeaves_enough _ (Nat.lt_succ_self _)]
    simp
    omega
  rw [whole, behindMarkup, List.length_cons, markupLeaves, if_neg (by simp)]
  simp only [drop, take, h.depth]
  split
  · exact same _ _ (Nat.le_refl _)
  · split
    · exact same _ _ (List.length_dropWhile_le _ text)
    · rfl

-- The change of one tag is undone by that of the other, so the reading behind an element stands as
-- deep as before it: the induction is on how the element is built, at every depth at once.
mutual

theorem behindMarkup_element : ∀ {element : List Char}, Element element → ∀ {depth : Int},
    0 < depth → ∀ (offset : Nat) (text : List Char), behindMarkup depth offset (element ++ text)
      = behindMarkup depth (offset + Text.size element) text
  | _, .lone h, depth, inside, offset, text => by
    rw [behindMarkup_tag h.isTag, if_pos (by omega), Int.add_zero]
  | _, .pair named closed opens h, depth, inside, offset, text => by
    have within : 0 < depth + 1 := by omega
    rw [List.append_assoc, List.append_assoc,
      behindMarkup_tag (isTag_openingTag named closed opens), if_pos within,
      behindMarkup_content h within, behindMarkup_tag (isTag_closingTag named),
      Int.add_neg_cancel_right, if_pos inside]
    simp [Nat.add_assoc]

/-- Behind content, the reading goes on. -/
theorem behindMarkup_content : ∀ {content : List Char}, Content content → ∀ {depth : Int},
    0 < depth → ∀ (offset : Nat) (text : List Char), behindMarkup depth offset (content ++ text)
      = behindMarkup depth (offset + Text.size content) text
  | _, .nil, depth, inside, offset, text => rfl
  | _, .text h tail, depth, inside, offset, text => by
    rw [List.append_assoc, behindMarkup_text h, behindMarkup_content tail inside, Text.size_append,
      Nat.add_assoc]
  | _, .element h tail, depth, inside, offset, text => by
    rw [List.append_assoc, behindMarkup_element h inside, behindMarkup_content tail inside,
      Text.size_append, Nat.add_assoc]

end

/-- Behind an element that stands in no other, the reading goes on only at another tag. -/
theorem behindMarkup_top {element : List Char} (h : Element element) (offset : Nat)
    (text : List Char) :
    behindMarkup 0 offset (element ++ text) =
      if (Text.trimStart text).head? = some '<' then
        behindMarkup 0 (offset + Text.size element + Text.size (text.takeWhile Text.isBlank))
          (Text.trimStart text)
      else (offset + Text.size element, text) := by
  cases h with
  | lone h => rw [behindMarkup_tag h.isTag, if_neg (by omega)]; rfl
  | @pair name attributes content named closed opens h =>
    rw [List.append_assoc, List.append_assoc, behindMarkup_tag (isTag_openingTag named closed opens),
      if_pos (by omega), behindMarkup_content h (by omega),
      behindMarkup_tag (isTag_closingTag named), if_neg (by omega)]
    simp [Nat.add_assoc]

theorem behindMarkup_elements {elements : List Char} (h : Elements elements) (offset : Nat)
    {text : List Char} (plain : (Text.trimStart text).head? ≠ some '<') :
    behindMarkup 0 offset (elements ++ text) = (offset + Text.size elements, text) := by
  induction h generalizing offset with
  | last h => rw [behindMarkup_top h, if_neg plain]
  | @cons element gap rest h blank tail ih =>
    obtain ⟨c, more, first, _⟩ := tail.head
    have noBlank : Text.isBlank '<' = false := by decide
    have trimmed : Text.trimStart (gap ++ (rest ++ text)) = rest ++ text := by
      rw [Text.trimStart, List.dropWhile_append_of_pos blank, first, List.cons_append,
        List.dropWhile_cons_of_neg (by simp [noBlank])]
    have taken : (gap ++ (rest ++ text)).takeWhile Text.isBlank = gap := by
      rw [List.takeWhile_append_of_pos blank, first, List.cons_append,
        List.takeWhile_cons_of_neg (by simp [noBlank]), List.append_nil]
    rw [List.append_assoc, List.append_assoc, behindMarkup_top h, trimmed, taken,
      if_pos (by simp [first]), ih]
    simp [Nat.add_assoc]

theorem scan_lt {c : Char} (other : c ≠ '=') (lineStart : Bool) (rest : List Char) :
    Token.Lexeme.scan lineStart '<' (c :: rest) = (.lt, 1) := by
  have pair : Token.Lexeme.pair? '<' c = none := by
    unfold Token.Lexeme.pair?
    split <;> simp_all
  rw [Token.Lexeme.scan_plain (by decide) (by simp)]
  simp [Token.Lexeme.isWordChar, Token.Lexeme.punctuation, pair, Token.Lexeme.single]

/-- A script that starts with elements starts with a token that opens markup. -/
theorem ofText_elements {elements : List Char} (h : Elements elements) (rest : List Char) :
    ∃ ts, Stream.ofText (elements ++ rest) = ⟨elements ++ rest, Text.size (elements ++ rest), [],
      ⟨.lt, ['<'], 0, true⟩ :: ts⟩ := by
  obtain ⟨c, more, rfl, other⟩ := h.head
  have first : ∃ ts, Token.all ('<' :: c :: more ++ rest) = ⟨.lt, ['<'], 0, true⟩ :: ts := by
    rw [List.cons_append, List.cons_append, Token.all, Token.allFrom, Token.Scan.tokens_cons,
      if_neg (by decide)]
    simp only [Token.Scan.token, scan_lt other]
    exact ⟨_, rfl⟩
  obtain ⟨ts, first⟩ := first
  refine ⟨ts, ?_⟩
  rw [Stream.ofText, first]
  rfl

/-- The node of the elements at the head of a script, and the stream behind it. -/
theorem markup_elements {elements : List Char} (h : Elements elements) {rest : List Char}
    (behind : rest ≠ []) (plain : (Text.trimStart rest).head? ≠ some '<') :
    ∃ leaves, markup (.ofText (elements ++ rest))
      = (.node ⟨Kind.xml, true, false, none, 0, Text.size elements⟩ leaves,
        ((Stream.ofText (elements ++ rest)).behind ⟨Text.size elements, rest⟩).settle) := by
  obtain ⟨ts, eq⟩ := ofText_elements h rest
  have tokens : (Stream.ofText (elements ++ rest)).tokens = ⟨.lt, ['<'], 0, true⟩ :: ts := by rw [eq]
  have start : (Stream.ofText (elements ++ rest)).Sound := (whole_ofText _).settle.sound
  have there : Spot.In (Stream.ofText (elements ++ rest)).source ⟨0, elements ++ rest⟩ :=
    Spot.in_start _
  have ends : (markupLeaves ((elements ++ rest).length + 1) 0 0 (elements ++ rest)).2
      = (Text.size elements, rest) := by
    rw [← Nat.zero_add (Text.size elements)]
    exact behindMarkup_elements h 0 plain
  obtain ⟨parts, leaves, cut, last, first⟩ := markupLeaves_cut ((elements ++ rest).length + 1) 0 0
    (elements ++ rest) (Nat.lt_succ_self _)
  rw [ends] at cut last
  rw [markup_eq tokens there.after?, ends]
  generalize (markupLeaves ((elements ++ rest).length + 1) 0 0 (elements ++ rest)).1 = ds at leaves ⊢
  have still := absorb_nothing (isInside_markup start tokens cut leaves)
  obtain ⟨starts, stops⟩ := spans_of_leaves leaves
  have head : ds.head?.map Draft.start = some 0 := by
    obtain ⟨c, more, eq, _⟩ := h.head
    rw [← List.head?_map, starts, List.head?_map]
    exact first (by simp [eq])
  have tail : ds.getLast?.map Draft.stop = some (Text.size elements) := by
    rw [← List.getLast?_map, stops, List.getLast?_map]
    exact last.resolve_left behind
  have node_eq : branch Kind.xml ds
      = .node ⟨Kind.xml, true, false, none, 0, Text.size elements⟩ ds := by
    rw [branch, head, tail]
    rfl
  refine ⟨ds, ?_⟩
  rw [← node_eq]
  simp only [node, bind, StateT.bind, still]
  rfl

/-- An item at the very start of a text takes in none of the comments that wait. -/
theorem items_first {s s' : Stream} (hs : s.Sound) {t : Token} {ts : List Token}
    (tokens : s.tokens = t :: ts) {item : Draft} (read : topLevelItem t s = (item, s'))
    (first : item.start = 0) : (items s).1 = item :: (items s').1 := by
  have placed : place [] item s' = ([item], s') := by simp [place, first]
  rw [items, repeatUntil_eq itemStep_advancing trivial hs, itemStep_item tokens, read, placed]
  exact congrArg Prod.fst (items_frame [item] s')

theorem size_concat_newline (text : List Char) :
    Text.size (text ++ ['\n']) = Text.size text + 1 := by
  rw [Text.size_append]
  rfl

/-- The tokens behind a line break are those of the text behind it, further on. -/
theorem allFrom_newline (offset : Nat) (text : List Char) :
    Token.allFrom offset false ('\n' :: text)
      = (Token.all text).map (Token.shift (offset + 1)) := by
  rw [Token.all, ← Token.allFrom_shift, Nat.zero_add, Token.allFrom, Token.Scan.tokens_cons,
    if_pos (by decide)]
  rfl

/-- The stream behind elements and a line break is that of the script behind, further on. -/
theorem behind_eq_shift {elements : List Char} (h : Elements elements) (script : List Char) :
    ((Stream.ofText (elements ++ '\n' :: script)).behind
        ⟨Text.size elements, '\n' :: script⟩).settle
      = (Stream.ofText script).shift (elements ++ ['\n']) := by
  obtain ⟨ts, eq⟩ := ofText_elements h ('\n' :: script)
  have whole : elements ++ '\n' :: script = elements ++ ['\n'] ++ script := by simp
  rw [eq, Stream.ofText, ← Stream.settle_shift]
  refine congrArg Stream.settle ?_
  simp only [Stream.behind, Stream.shift, allFrom_newline, size_concat_newline]
  rw [whole, Text.size_append (elements ++ ['\n']), size_concat_newline]
  rfl

/--
Elements before a script are one node that covers them and nothing else, and the script behind them
gives what it gives alone, as many bytes further on.
-/
theorem children_ofScript_elements {elements script : List Char} (h : Elements elements)
    (plain : (Text.trim script).head? ≠ some '<') :
    ∃ leaves, (Tree.ofScript (elements ++ '\n' :: script)).root.children.map Node.thaw
      = .node ⟨Kind.xml, true, false, none, 0, Text.size elements⟩ leaves ::
        ((Tree.ofScript script).root.children.map Node.thaw).map
          (Draft.shift (Text.size elements + 1)) := by
  have plain' : (Text.trimStart ('\n' :: script)).head? ≠ some '<' := fun tag =>
    plain (Text.head?_trim tag (by decide))
  obtain ⟨ts, eq⟩ := ofText_elements h ('\n' :: script)
  have tokens : (Stream.ofText (elements ++ '\n' :: script)).tokens
      = ⟨.lt, ['<'], 0, true⟩ :: ts := by rw [eq]
  have sound (text : List Char) : (Stream.ofText text).Sound := (whole_ofText text).settle.sound
  obtain ⟨leaves, read⟩ := markup_elements h (by simp) plain'
  have moved : Moves (elements ++ ['\n']) _ items items (Stream.ofText script) := items_moves
  refine ⟨leaves, ?_⟩
  rw [Tree.children_ofScript, Tree.children_ofScript, items_first (sound _) tokens read rfl,
    behind_eq_shift h, (moved (sound script)).2, size_concat_newline]

/-- An apostrophe, a brace and the marks of comments in the text between tags mean nothing. -/
theorem children_ofScript_apostrophe :
    let markup := "<p a='1'># don't \x7b /* <br/>x</p>\n<?xml v?>".toList
    let script := "loadmodule \"tm.so\" # it's\n".toList
    Elements markup ∧ (Text.trim script).head? ≠ some '<' ∧
      ∃ leaves, (Tree.ofScript (markup ++ '\n' :: script)).root.children.map Node.thaw
        = .node ⟨Kind.xml, true, false, none, 0, 42⟩ leaves ::
          ((Tree.ofScript script).root.children.map Node.thaw).map (Draft.shift 43) := by
  have p : IsName ['p'] := ⟨⟨'p', [], rfl, by decide⟩, List.forall_mem_singleton.2 (by decide)⟩
  have br : IsName ['b', 'r'] := ⟨⟨'b', ['r'], rfl, by decide⟩,
    List.forall_mem_cons.2 ⟨by decide, List.forall_mem_singleton.2 (by decide)⟩⟩
  have content : Content ("# don't \x7b /* ".toList ++ (openingTag ['b', 'r'] ([] ++ ['/']) ++
      ("x".toList ++ []))) :=
    .text (by decide) (.element (.lone (.empty br (by simp)))
      (.text (by decide) .nil))
  have split : "<p a='1'># don't \x7b /* <br/>x</p>\n<?xml v?>".toList
      = openingTag ['p'] " a='1'".toList ++ ("# don't \x7b /* ".toList ++
        (openingTag ['b', 'r'] ([] ++ ['/']) ++ ("x".toList ++ []))) ++ closingTag ['p'] ++
        ['\n'] ++ '<' :: ('?' :: "xml v".toList ++ ['?', '>']) := by decide
  have elements : Elements "<p a='1'># don't \x7b /* <br/>x</p>\n<?xml v?>".toList := by
    rw [split]
    exact .cons (.pair p (by decide) (by decide) content)
      (List.forall_mem_singleton.2 (by decide))
      (.last (.lone (.instruction (by decide))))
  have plain : (Text.trim "loadmodule \"tm.so\" # it's\n".toList).head? ≠ some '<' := by
    decide
  have size : Text.size "<p a='1'># don't \x7b /* <br/>x</p>\n<?xml v?>".toList = 42 := by
    decide
  have read := children_ofScript_elements elements plain
  rw [size] at read
  exact ⟨elements, plain, read⟩

end Script

end RouteScript
