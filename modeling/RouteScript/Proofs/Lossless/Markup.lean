import RouteScript.Proofs.Lossless.Rules
import RouteScript.Script.Markup
import Mathlib.Data.List.Forall2
/-!
# Markup is lossless

Tags and the text between them cut the stretch of markup that they come from, and the tokens behind
it are those of a text that starts there.
-/
namespace RouteScript

theorem Text.trim_split (text : List Char) :
    ∃ behind, text = text.takeWhile isBlank ++ trim text ++ behind ∧ ∀ c ∈ behind, isBlank c := by
  have front := List.takeWhile_append_dropWhile (p := isBlank) (l := text)
  have back := List.takeWhile_append_dropWhile (p := isBlank) (l := (trimStart text).reverse)
  refine ⟨((trimStart text).reverse.takeWhile isBlank).reverse, ?_, fun c hc => ?_⟩
  · rw [trim, trimEnd, List.append_assoc, ← List.reverse_append, back, List.reverse_reverse,
      trimStart, front]
  · exact List.mem_takeWhile_imp (List.mem_reverse.1 hc)

namespace Script

open Draft

/-- The kinds of the leaves of markup. -/
def markupKinds : List String := [Kind.xmlTag, Kind.xmlText, Kind.error]

theorem ne_xml_of_markupKind {kind : String} (h : kind ∈ markupKinds) : kind ≠ Kind.xml := by
  rintro rfl
  exact absurd h (by decide)

/-- A leaf of markup over the span of a token. -/
def IsLeafOf (d : Draft) (t : Token) : Prop :=
  t.isSignificant ∧ ∃ kind ∈ markupKinds, d = .leaf kind true t.start t.stop

/-- A stretch of text as a token. -/
def stretch (offset : Nat) (text : List Char) : Token := ⟨.unknown, text, offset, false⟩

theorem isLeafOf_stretch {kind : String} (h : kind ∈ markupKinds) (offset : Nat) (text : List Char) :
    IsLeafOf (.leaf kind true offset (offset + Text.size text)) (stretch offset text) :=
  ⟨rfl, kind, h, rfl⟩

/-- Where markup ends: behind its last part, or with the text. -/
def EndsAt (parts : List Token) (q : Spot) : Prop :=
  q.rest = [] ∨ parts.getLast?.map Token.stop = some q.offset

theorem EndsAt.cons {parts : List Token} {q : Spot} (h : EndsAt parts q) (t : Token) :
    EndsAt (t :: parts) q := by
  refine h.imp id fun last => ?_
  obtain ⟨u, last, stop⟩ := Option.map_eq_some_iff.1 last
  rw [List.getLast?_cons, last]
  simp [stop]

theorem textLeaves_cut (offset : Nat) (run rest : List Char) {ds : List Draft} {ts : List Token}
    {q : Spot} (leaves : List.Forall₂ IsLeafOf ds ts)
    (cut : Cut Text.isBlank ⟨offset + Text.size run, rest⟩ ts q) (ends : EndsAt ts q) :
    ∃ ts', List.Forall₂ IsLeafOf (textLeaves offset run ++ ds) ts' ∧
      Cut Text.isBlank ⟨offset, run ++ rest⟩ ts' q ∧ EndsAt ts' q := by
  obtain ⟨behind, split, blank⟩ := Text.trim_split run
  have lead : ∀ c ∈ run.takeWhile Text.isBlank, Text.isBlank c := fun c hc =>
    List.mem_takeWhile_imp hc
  unfold textLeaves
  generalize run.takeWhile Text.isBlank = front at split lead
  generalize Text.trim run = inner at split
  subst split
  simp only [Text.size_append, ← Nat.add_assoc] at cut
  have tail := Cut.gaps blank cut
  cases inner with
  | nil =>
    refine ⟨ts, leaves, ?_, ends⟩
    rw [List.append_nil, List.append_assoc]
    exact .gaps lead tail
  | cons c inner =>
    refine ⟨stretch (offset + Text.size front) (c :: inner) :: ts,
      .cons (isLeafOf_stretch (by decide) _ _) leaves, ?_, ends.cons _⟩
    rw [List.append_assoc, List.append_assoc]
    exact .gaps lead (.piece (t := stretch _ (c :: inner)) (by simp [stretch]) tail)

theorem tag_cut (offset : Nat) {tag after : List Char} {ds : List Draft} {ts : List Token}
    {q : Spot}
    (nonempty : tag ≠ []) (leaves : List.Forall₂ IsLeafOf ds ts)
    (cut : Cut Text.isBlank ⟨offset + Text.size tag, after⟩ ts q)
    (ends : EndsAt (stretch offset tag :: ts) q) :
    ∃ parts, List.Forall₂ IsLeafOf
        (.leaf Kind.xmlTag true offset (offset + Text.size tag) :: ds) parts ∧
      Cut Text.isBlank ⟨offset, tag ++ after⟩ parts q ∧ EndsAt parts q ∧
      ((tag ++ after).head? = some '<' → parts.head?.map Token.start = some offset) :=
  ⟨stretch offset tag :: ts, .cons (isLeafOf_stretch (by decide) _ _) leaves,
    .piece (t := stretch offset tag) nonempty cut, ends, fun _ => rfl⟩

/-- The leaves of markup cut the text up to where it ends. -/
theorem markupLeaves_cut (rounds : Nat) (depth : Int) (offset : Nat) (text : List Char)
    (h : text.length < rounds) :
    ∃ parts, List.Forall₂ IsLeafOf (markupLeaves rounds depth offset text).1 parts ∧
      Cut Text.isBlank ⟨offset, text⟩ parts
        ⟨(markupLeaves rounds depth offset text).2.1, (markupLeaves rounds depth offset text).2.2⟩ ∧
      EndsAt parts
        ⟨(markupLeaves rounds depth offset text).2.1, (markupLeaves rounds depth offset text).2.2⟩ ∧
      (text.head? = some '<' → parts.head?.map Token.start = some offset) := by
  induction rounds generalizing depth offset text with
  | zero => omega
  | succ rounds ih =>
    cases text with
    | nil => exact ⟨[], .nil, .done _, .inl rfl, by simp⟩
    | cons c rest =>
      unfold markupLeaves
      simp only [List.length_cons, Nat.add_lt_add_iff_right] at h
      split
      · rename_i noTag
        have run := List.takeWhile_append_dropWhile (p := (· ≠ '<')) (l := c :: rest)
        have shorter : ((c :: rest).dropWhile (· ≠ '<')).length < rounds := by
          rw [List.dropWhile_cons_of_pos (by simpa using noTag)]
          exact Nat.lt_of_le_of_lt (List.length_dropWhile_le _ rest) h
        obtain ⟨parts, leaves, cut, ends, _⟩ := ih depth
          (offset + Text.size ((c :: rest).takeWhile (· ≠ '<'))) _ shorter
        obtain ⟨parts', leaves', cut', ends'⟩ := textLeaves_cut offset _ _ leaves cut ends
        rw [run] at cut'
        exact ⟨parts', leaves', cut', ends', fun tag => absurd (by simpa using tag) noTag⟩
      · rename_i tag
        have opens : c = '<' := by simpa using tag
        have whole := List.takeWhile_append_dropWhile (p := (· ≠ '>')) (l := c :: rest)
        split
        · refine ⟨[stretch offset (c :: rest)], .cons (isLeafOf_stretch (by decide) _ _) .nil, ?_,
            .inl rfl, fun _ => rfl⟩
          have cut : Cut Text.isBlank ⟨offset, (c :: rest) ++ []⟩ [stretch offset (c :: rest)] _ :=
            .piece (t := stretch offset (c :: rest)) (by simp [stretch]) (.done _)
          rwa [List.append_nil] at cut
        · rename_i close after behind
          rw [behind, List.append_cons] at whole
          have shorter : after.length < rest.length := by
            have len := congrArg List.length whole
            have first : (c :: rest).takeWhile (· ≠ '>') = c :: rest.takeWhile (· ≠ '>') :=
              List.takeWhile_cons_of_pos (by simp [opens])
            rw [first] at len
            simp only [List.length_append, List.length_cons, List.length_nil] at len
            omega
          have nonempty : (c :: rest).takeWhile (· ≠ '>') ++ [close] ≠ [] := by simp
          generalize (c :: rest).takeWhile (· ≠ '>') ++ [close] = text at whole nonempty
          rw [← whole]
          dsimp only
          split
          · obtain ⟨parts, leaves, cut, ends, _⟩ :=
              ih (depth + tagDepth text) (offset + Text.size text) after (by omega)
            exact tag_cut offset nonempty leaves cut (ends.cons _)
          · split
            · obtain ⟨parts, leaves, cut, ends, _⟩ := ih (depth + tagDepth text)
                (offset + Text.size text + Text.size (after.takeWhile Text.isBlank))
                (Text.trimStart after)
                (Nat.lt_of_le_of_lt (List.length_dropWhile_le _ after) (by omega))
              refine tag_cut offset nonempty leaves ?_ (ends.cons _)
              have tail := Cut.gaps (fun d hd => List.mem_takeWhile_imp hd) cut
              rwa [Text.trimStart, List.takeWhile_append_dropWhile] at tail
            · exact tag_cut offset nonempty .nil (.done _) (.inr rfl)

theorem marks_leaves_of {ds : List Draft} {ts : List Token} (h : List.Forall₂ IsLeafOf ds ts) :
    solidsOf ds = ts.map tokenMark ∧ extrasOf ds = [] := by
  induction h with
  | nil => exact ⟨rfl, rfl⟩
  | cons leaf _ ih =>
    obtain ⟨_, kind, inMarkup, rfl⟩ := leaf
    have notMarkup := ne_xml_of_markupKind inMarkup
    simp [solids_leaf notMarkup, extras_leaf notMarkup, ih, tokenMark]

theorem significant_of_leaves {ds : List Draft} {ts : List Token}
    (h : List.Forall₂ IsLeafOf ds ts) : ∀ t ∈ ts, t.isSignificant := by
  induction h with
  | nil => simp
  | cons leaf _ ih => exact List.forall_mem_cons.2 ⟨leaf.1, ih⟩

theorem spans_of_leaves {ds : List Draft} {ts : List Token} (h : List.Forall₂ IsLeafOf ds ts) :
    ds.map start = ts.map Token.start ∧ ds.map stop = ts.map Token.stop := by
  induction h with
  | nil => exact ⟨rfl, rfl⟩
  | cons leaf _ ih =>
    obtain ⟨_, kind, _, rfl⟩ := leaf
    exact ⟨congrArg _ ih.1, congrArg _ ih.2⟩

theorem marks_xml {ds : List Draft} (nonempty : ds ≠ []) {ts : List Token}
    (h : List.Forall₂ IsLeafOf ds ts) :
    (branch Kind.xml ds).solids = Piece.region ts :: ts.map tokenMark ∧
      (branch Kind.xml ds).extras = [] := by
  obtain ⟨starts, stops⟩ := spans_of_leaves h
  obtain ⟨solids, extras⟩ := marks_leaves_of h
  have region : (branch Kind.xml ds).marks = Piece.region ts :: ds.flatMap marks := by
    simp [branch, marks_node, regions, nonempty, Piece.region, ← List.head?_map,
      ← List.getLast?_map, starts, stops]
  constructor
  · rw [Draft.solids, region, List.filter_cons_of_pos rfl, List.filter_flatMap, ← solids]
    rfl
  · rw [Draft.extras, region, List.filter_cons_of_neg (by simp [Piece.region, Mark.isExtra]),
      List.filter_flatMap, ← extras]
    rfl

/-- The stream behind markup that was read up to this place. -/
def Stream.behind (s : Stream) (q : Spot) : Stream :=
  { s with tokens := Token.allFrom q.offset false q.rest }

theorem Stream.Sound.cut_behind {s : Stream} (hs : s.Sound) {q : Spot} (inside : q.In s.source) :
    Cut Token.Scan.isGap q (s.behind q).tokens ⟨s.size, []⟩ := by
  have cut := Token.allFrom_cut q.offset false q.rest
  rwa [inside.size, ← hs.size] at cut

/-- A stream may go on at another place of its source. -/
theorem Stream.Sound.relex {s : Stream} (hs : s.Sound) {first : Token} {rest : List Token}
    (tokens : s.tokens = first :: rest) {q : Spot} (inside : q.In s.source)
    (further : first.start < q.offset) :
    (s.behind q).Whole := by
  refine ⟨hs.size, ⟨q, inside, hs.cut_behind inside⟩, hs.waiting, fun d hd t ht => ?_,
    Token.allFrom_scanned inside false⟩
  have before := hs.ordered d hd first (by simp [tokens])
  have behind := ((hs.cut_behind inside).bounds t ht).1
  exact Nat.le_trans before (Nat.le_trans (Nat.le_of_lt further) behind)

theorem Stream.Whole.place {s : Stream} (hs : s.Whole) {t : Token} {rest : List Token}
    (tokens : s.tokens = t :: rest) :
    ∃ behind, Spot.In s.source ⟨t.start, t.text ++ behind⟩ := by
  obtain ⟨p, inside, cut⟩ := hs.cut
  rw [tokens] at cut
  obtain ⟨⟨offset, chars⟩, start, lead, cut⟩ := cut.start_eq rfl
  obtain ⟨behind, text, _⟩ := cut.head_eq start
  have there := lead.place inside
  simp only at start text
  rw [start, text] at there
  exact ⟨behind, there⟩

theorem absorb_nothing {children : List Draft} {s : Stream}
    (h : ∀ d ∈ s.waiting, isInside children d = false) : absorb children s = (children, s) := by
  have none : s.waiting.filter (isInside children) = [] := by simpa using h
  have all : (s.waiting.filter fun d => !isInside children d) = s.waiting := by simpa using h
  simp [absorb, none, all]

theorem markup_eq {s : Stream} {t : Token} {rest : List Token} {text : List Char}
    (tokens : s.tokens = t :: rest) (here : Text.after? s.source t.start = some text) :
    markup s =
      node Kind.xml (markupLeaves (text.length + 1) 0 t.start text).1
        (s.behind ⟨(markupLeaves (text.length + 1) 0 t.start text).2.1,
          (markupLeaves (text.length + 1) 0 t.start text).2.2⟩).settle := by
  have text : (Text.after? s.source t.start).getD [] = text := by rw [here, Option.getD_some]
  subst text
  unfold markup
  have ahead : peek s = (some t, s) := by rw [peek, tokens]; rfl
  simp only [bind, StateT.bind, ahead]
  rfl

theorem mem_of_leaves {ds : List Draft} {ts : List Token} (h : List.Forall₂ IsLeafOf ds ts) :
    ∀ d ∈ ds, ∃ t ∈ ts, d.start = t.start ∧ d.stop = t.stop := by
  induction h with
  | nil => simp
  | @cons d t _ _ leaf _ ih =>
    obtain ⟨_, kind, _, rfl⟩ := leaf
    refine List.forall_mem_cons.2 ⟨⟨t, by simp, rfl, rfl⟩, fun d hd => ?_⟩
    obtain ⟨u, hu, same⟩ := ih d hd
    exact ⟨u, by simp [hu], same⟩

theorem mem_of_isInside {children : List Draft} {d : Draft} (h : isInside children d) :
    ∃ first ∈ children, ∃ last ∈ children, first.start ≤ d.start ∧ d.stop ≤ last.stop := by
  unfold isInside at h
  split at h
  · rename_i first last head tail
    simp only [Bool.and_eq_true, decide_eq_true_eq] at h
    exact ⟨first, List.mem_of_head? head, last, List.mem_of_getLast? tail, h⟩
  · contradiction

section Node

variable {s : Stream} (hs : s.Sound) {t : Token} {rest parts : List Token} {text : List Char}
  {q : Spot} (tokens : s.tokens = t :: rest) (there : Spot.In s.source ⟨t.start, text⟩)
  (cut : Cut Text.isBlank ⟨t.start, text⟩ parts q) (nonempty : parts ≠ [])
include hs tokens there cut nonempty

theorem Stream.Sound.passes_behind :
    s.Passes (s.behind q).settle ∧ s.position < (s.behind q).settle.position := by
  obtain ⟨u, more, rfl⟩ := List.exists_cons_of_ne_nil nonempty
  have inside := cut.place there
  have bounds := cut.bounds u (by simp)
  have further : t.start < q.offset :=
    Nat.lt_of_le_of_lt bounds.1 (Nat.lt_of_lt_of_le bounds.2.1 bounds.2.2)
  have whole := hs.relex tokens inside further
  have here : s.position = t.start := by simp [Stream.position, tokens]
  have position : q.offset ≤ (s.behind q).position := Stream.le_position (hs.cut_behind inside)
  have passes : (s.behind q).Passes (s.behind q).settle := whole.settle
  have := passes.position
  exact ⟨⟨passes.sound, passes.source, by omega⟩, by omega⟩

omit there nonempty in
/-- Nothing that waits lies inside markup. -/
theorem isInside_markup {ds : List Draft} (leaves : List.Forall₂ IsLeafOf ds parts) :
    ∀ d ∈ (s.behind q).settle.waiting, isInside ds d = false := by
  intro d hd
  by_contra inside
  obtain ⟨first, hfirst, last, hlast, start, stop⟩ := mem_of_isInside (by simpa using inside)
  obtain ⟨u, hu, hu_start, _⟩ := mem_of_leaves leaves first hfirst
  obtain ⟨v, hv, _, hv_stop⟩ := mem_of_leaves leaves last hlast
  have low := (cut.bounds u hu).1
  have high := (cut.bounds v hv).2.2
  simp only at low
  rcases List.mem_append.1 hd with old | new
  · obtain ⟨w, _, there, rfl⟩ := hs.waiting d old
    have before := hs.ordered _ old t (by simp [tokens])
    have long := Token.start_lt_stop there.nonempty
    have : (extraLeaf w).start = w.start := rfl
    have : (extraLeaf w).stop = w.stop := rfl
    omega
  · obtain ⟨w, hw, rfl⟩ := List.mem_map.1 new
    obtain ⟨behind, long, _⟩ := (Token.allFrom_cut q.offset false q.rest).bounds w
      ((List.takeWhile_prefix _).subset hw)
    have : (extraLeaf w).stop = w.stop := rfl
    simp only at behind
    omega

omit nonempty in
/-- The leaves of markup stand in order, and comments right behind it wait. -/
theorem Stream.Sound.orders_markup {ds : List Draft} (leaves : List.Forall₂ IsLeafOf ds parts)
    (some_leaves : ds ≠ []) :
    Orders [] s [(node Kind.xml ds (s.behind q).settle).1]
      (node Kind.xml ds (s.behind q).settle).2 := by
  have split := List.takeWhile_append_dropWhile (p := Token.isTrivia) (l := (s.behind q).tokens)
  have ahead := hs.cut_behind (cut.place there)
  rw [← split] at ahead
  obtain ⟨r, gap, behind⟩ := ahead.split
  have significant := significant_of_leaves leaves
  have all : (parts ++ (s.behind q).tokens.takeWhile Token.isTrivia).filter Token.isSignificant
      = parts := by
    rw [List.filter_append, significant_takeWhile, List.append_nil]
    exact List.filter_eq_self.2 significant
  have none : parts.filter Token.isTrivia = [] := List.filter_eq_nil_iff.2 fun u hu => by
    simpa [Token.isSignificant] using significant u hu
  have are_leaves : List.Forall₂ IsLeaf ds parts := leaves.imp fun d t leaf => by
    obtain ⟨_, kind, inMarkup, rfl⟩ := leaf
    exact isLeaf_leaf (ne_xml_of_markupKind inMarkup) true t
  have orders : Orders [] s ([] ++ ds) (s.behind q).settle := by
    refine .of_cut (cut.append (gap.mono fun c => Token.isBlank_of_isGap)) ?_
      (Stream.le_position (s := (s.behind q).settle) behind) ?_ [] (by rwa [all])
    · simp [Stream.position, tokens]
    · rw [List.filter_append, none, List.nil_append, trivia_takeWhile]
      rfl
  have position := hs.passes_behind tokens there cut (by rintro rfl; cases leaves; contradiction)
  have enclosed := Orders.node (s := (s.behind q).settle) some_leaves Kind.xml [] []
  exact orders.trans (by simpa using enclosed) position.1.position

end Node

theorem markup_lossless {s : Stream} {t : Token} {rest : List Token} (tokens : s.tokens = t :: rest)
    (opens : t.kind = .lt) : Lossless s [] markup (fun d => [d]) fun d =>
      ∃ ds parts, List.Forall₂ IsLeafOf ds parts ∧ d = branch Kind.xml ds := by
  intro hs _
  obtain ⟨behind, there⟩ := hs.place tokens
  have here : Text.after? s.source t.start = some (t.text ++ behind) := there.after?
  have spelling : t.text = ['<'] :=
    (hs.spelled t (by simp [tokens])).text "<" (by rw [opens]; rfl)
  obtain ⟨parts, leaves, cut, ends, starts⟩ := markupLeaves_cut ((t.text ++ behind).length + 1) 0
    t.start (t.text ++ behind) (Nat.lt_succ_self _)
  have starts := starts (by simp [spelling])
  have nonempty : parts ≠ [] := by
    rintro rfl
    contradiction
  unfold Gives
  rw [markup_eq tokens here]
  generalize markupLeaves _ _ _ (t.text ++ behind) = read at leaves cut ends
  obtain ⟨ds, offset, after⟩ := read
  dsimp only at leaves cut ends ⊢
  generalize Spot.mk offset after = q at cut ends
  obtain ⟨passes, further⟩ := hs.passes_behind tokens there cut nonempty
  have still :
      node Kind.xml ds (s.behind q).settle = (branch Kind.xml ds, (s.behind q).settle) := by
    have := absorb_nothing (isInside_markup hs tokens cut leaves)
    simp only [node, bind, StateT.bind, this]
    rfl
  have some_leaves : ds ≠ [] := by
    rintro rfl
    cases leaves
    contradiction
  obtain ⟨solids, extras⟩ := marks_xml some_leaves leaves
  have orders := hs.orders_markup tokens there cut leaves some_leaves
  rw [still] at orders ⊢
  refine ⟨⟨⟨.markup parts :: ((Token.allFrom q.offset false q.rest).takeWhile Token.isTrivia).map
    .token, ⟨passes, ?_, fun _ => further⟩, ?_, ?_⟩, orders⟩, by simp [solids],
    ds, parts, leaves, rfl⟩
  · rw [tokens]
    refine .markup opens here cut (significant_of_leaves leaves) starts ends ?_
    have := Follows.tokens s.source
      ((Token.allFrom q.offset false q.rest).takeWhile Token.isTrivia)
      ((Token.allFrom q.offset false q.rest).dropWhile Token.isTrivia)
    rwa [List.takeWhile_append_dropWhile] at this
  · simp only [List.flatMap_cons, Piece.solids_tokens, significant_takeWhile]
    simp [solids, Piece.solids]
  · simp only [List.flatMap_cons, Piece.extras_tokens, trivia_takeWhile]
    simp [extras, Piece.extras, Stream.settle, Stream.behind]

end Script

end RouteScript
