import RouteScript.Proofs.Lossless.Items
import RouteScript.Proofs.Frozen
/-!
# Trees of scripts are lossless

The leaves of the tree of a text cut the text: every character that is no white space lies in one
of them, the leaves of the structure stand in their order, and every comment is one extra leaf.
-/
namespace RouteScript

open Script Cut

namespace Tree

/-- The tags of the childless nodes below the root, in preorder. -/
def leaves (t : Tree) : List Tag := (t.root.children.flatMap Rose.leaves).map Entry.tag

/-- The spans of inline markup, in preorder. -/
def regions (t : Tree) : List (Nat × Nat) :=
  (t.root.labels.filter fun e => e.tag.kind == Kind.xml).map fun e => (e.tag.start, e.tag.stop)

end Tree

/-- The bytes that a node covers. -/
def Tag.span (t : Tag) : Nat × Nat := (t.start, t.stop)

/-- The tokens outside some stretches of a source; behind a stretch the source is read afresh. -/
def Token.outside (source : List Char) : List (Nat × Nat) → List Token → List Token
  | [], ts => ts
  | (start, stop) :: more, ts =>
    ts.takeWhile (·.start < start) ++
      outside source more (allFrom stop false ((Text.after? source stop).getD []))

/-- The kind and span of the leaf of a comment or directive. -/
def Token.extraMark (t : Token) : Mark := .extra (extraLeaf t).label.kind t.start t.stop

/-- The leaves of a tree cut its text and hold all comments. -/
structure Tree.Lossless (t : Tree) : Prop where
  bounds : ∀ leaf ∈ t.leaves,
    leaf.start < leaf.stop ∧ (Text.slice? t.source leaf.start leaf.stop).isSome
  disjoint : t.leaves.Pairwise fun a b => a.stop ≤ b.start ∨ b.stop ≤ a.start
  complete : ∀ before c after, t.source = before ++ c :: after → ¬ Text.isBlank c →
    t.leaves.countP (fun leaf => covers (Text.size before) c leaf.span) = 1
  ordered : (t.leaves.filter fun leaf => !leaf.extra).Pairwise fun a b => a.stop ≤ b.start
  comments : ((t.leaves.filter Tag.extra).map Tag.mark).Perm
    (((Token.outside t.source t.regions (Token.all t.source)).filter Token.isTrivia).map
      Token.extraMark)

namespace Script.Follows

variable {source : List Char} {ts us : List Token} {ps : List Piece} {p : Spot}

/-- Only blanks stand before the next token. -/
theorem lead {t : Token} {text : List Char} {q : Spot} (inside : p.In source)
    (ahead : Cut Token.Scan.isGap p (t :: ts) q) (here : Text.after? source t.start = some text) :
    Cut Token.Scan.isGap p [] ⟨t.start, text⟩ ∧ Spot.In source ⟨t.start, text⟩ := by
  obtain ⟨⟨offset, chars⟩, start, lead, _⟩ := ahead.start_eq rfl
  have there := lead.place inside
  dsimp only at start
  subst start
  obtain rfl : chars = text := Option.some.inj (there.after?.symm.trans here)
  exact ⟨lead, there⟩

/-- The pieces between two lists of tokens cut the text between them. -/
theorem cut (h : Follows source ts ps us) (inside : p.In source)
    (ahead : Cut Token.Scan.isGap p ts ⟨Text.size source, []⟩) :
    ∃ q, Cut Text.isBlank p (ps.flatMap Piece.tokens) q ∧ q.In source ∧
      Cut Token.Scan.isGap q us ⟨Text.size source, []⟩ := by
  induction h generalizing p with
  | done ts => exact ⟨p, .done p, inside, ahead⟩
  | @token t ts us ps tail ih =>
    obtain ⟨q, left, right⟩ := Cut.split (show Cut _ p ([t] ++ ts) _ from ahead)
    obtain ⟨r, cut, there, behind⟩ := ih (left.place inside) right
    exact ⟨r, (left.mono fun c => Token.isBlank_of_isGap).append cut, there, behind⟩
  | @sigil dollar opening ts us ps _ _ adjacent tail ih =>
    obtain ⟨q, left, right⟩ := Cut.split (show Cut _ p ([dollar, opening] ++ ts) _ from ahead)
    obtain ⟨r, cut, there, behind⟩ := ih (left.place inside) right
    have joined := left.join adjacent (v := ⟨.dollar, dollar.text ++ opening.text, dollar.start,
      dollar.newlineBefore⟩) rfl rfl
    exact ⟨r, (joined.mono fun c => Token.isBlank_of_isGap).append cut, there, behind⟩
  | @markup t ts us parts ps text q _ here parts_cut _ _ _ tail ih =>
    obtain ⟨lead, there⟩ := lead inside ahead here
    have inside' := parts_cut.place there
    have ahead' := Token.allFrom_cut q.offset false q.rest
    rw [inside'.size] at ahead'
    obtain ⟨r, cut, there', behind⟩ := ih inside' ahead'
    exact ⟨r, (lead.mono fun c => Token.isBlank_of_isGap).append (parts_cut.append cut), there',
      behind⟩

end Script.Follows

namespace Script.Piece

/-- The spans of the markup in a piece. -/
def regions : Piece → List (Nat × Nat)
  | markup parts =>
    let first := (parts.head?.map Token.start).getD 0
    [(first, (parts.getLast?.map Token.stop).getD first)]
  | _ => []

/-- The marks of a piece are those of its tokens. -/
structure Fair (p : Piece) : Prop where
  solids : p.solids.filter (fun m => !m.isMarkup)
    = (p.tokens.filter Token.isSignificant).map tokenMark
  extras : p.extras = (p.tokens.filter Token.isTrivia).map Token.extraMark
  regions : ∀ r ∈ p.regions, ∃ t ∈ p.tokens, r.1 = t.start

theorem extras_extraLeaf (t : Token) : (extraLeaf t).extras = [t.extraMark] := by
  have marks : (extraLeaf t).marks = [t.extraMark] := by
    unfold Token.extraMark extraLeaf
    split <;> rfl
  rw [Draft.extras, marks]
  rfl

theorem fair_token (t : Token) : (token t).Fair := by
  cases trivia : t.isTrivia
  · constructor <;> simp [solids, extras, regions, tokens, Token.isSignificant, trivia]
    rfl
  · constructor <;>
      simp [solids, extras, regions, tokens, Token.isSignificant, trivia, extras_extraLeaf]

theorem fair_sigil {dollar opening : Token} (adjacent : dollar.stop = opening.start) :
    (sigil dollar opening).Fair := by
  have stop : opening.start + Text.size opening.text
      = dollar.start + (Text.size dollar.text + Text.size opening.text) := by
    rw [← adjacent, Token.stop, Nat.add_assoc]
  constructor
  · simpa [solids, tokens, Token.isSignificant, Token.isTrivia, Token.Kind.isTrivia, tokenMark,
      Token.stop, Mark.isMarkup] using stop
  · simp [extras, tokens, Token.isTrivia, Token.Kind.isTrivia]
  · simp [regions]

theorem fair_markup {parts : List Token} (significant : ∀ u ∈ parts, u.isSignificant)
    (nonempty : parts ≠ []) : (markup parts).Fair := by
  have all : parts.filter Token.isSignificant = parts := List.filter_eq_self.2 significant
  have none : parts.filter Token.isTrivia = [] := List.filter_eq_nil_iff.2 fun u hu => by
    simpa [Token.isSignificant] using significant u hu
  constructor
  · have kept : (parts.map tokenMark).filter (fun m => !m.isMarkup) = parts.map tokenMark :=
      List.filter_eq_self.2 fun m hm => by
        obtain ⟨u, _, rfl⟩ := List.mem_map.1 hm
        rfl
    rw [solids, List.filter_cons_of_neg (by simp [region, Mark.isMarkup]), kept, tokens, all]
  · rw [tokens, none]
    rfl
  · obtain ⟨first, more, rfl⟩ := List.exists_cons_of_ne_nil nonempty
    simp [regions, tokens]

end Script.Piece

namespace Script.Follows

variable {source : List Char} {ts us : List Token} {ps : List Piece} {p : Spot}

theorem fair (h : Follows source ts ps us) : ∀ p ∈ ps, p.Fair := by
  induction h with
  | done _ => simp
  | token _ ih => exact List.forall_mem_cons.2 ⟨Piece.fair_token _, ih⟩
  | sigil _ _ adjacent _ ih => exact List.forall_mem_cons.2 ⟨Piece.fair_sigil adjacent, ih⟩
  | markup _ _ _ significant starts _ _ ih =>
    refine List.forall_mem_cons.2 ⟨Piece.fair_markup significant ?_, ih⟩
    rintro rfl
    contradiction

theorem solids (h : Follows source ts ps us) :
    (ps.flatMap Piece.solids).filter (fun m => !m.isMarkup)
      = ((ps.flatMap Piece.tokens).filter Token.isSignificant).map tokenMark := by
  rw [List.filter_flatMap, List.filter_flatMap, List.map_flatMap]
  exact congrArg List.flatten (List.map_congr_left fun p hp => (h.fair p hp).solids)

theorem extras (h : Follows source ts ps us) :
    ps.flatMap Piece.extras
      = ((ps.flatMap Piece.tokens).filter Token.isTrivia).map Token.extraMark := by
  rw [List.filter_flatMap, List.map_flatMap]
  exact congrArg List.flatten (List.map_congr_left fun p hp => (h.fair p hp).extras)

end Script.Follows

namespace Token

/-- Nothing in white space is a comment or directive. -/
theorem Lexeme.scan_blank {c : Char} (blank : Text.isBlank c) (lineStart : Bool)
    (rest : List Char) : (scan lineStart c rest).1.isTrivia = false := by
  unfold scan
  split
  · exact absurd blank (by decide)
  · exact absurd blank (by decide)
  · exact absurd blank (by decide)
  · exact absurd blank (by decide)
  · split
    · rename_i bang
      have : c = '!' := by simp_all
      subst this
      exact absurd blank (by decide)
    · split
      · dsimp only
        split <;> rfl
      · split
        · rfl
        · split
          · rfl
          · exact punctuation_significant c rest

theorem allFrom_blank {text : List Char} (blank : ∀ c ∈ text, Text.isBlank c) (offset : Nat)
    (newline : Bool) : ∀ t ∈ allFrom offset newline text, t.isTrivia = false := by
  have scanned (rounds : Nat) (s : Scan) (blank : ∀ c ∈ s.rest, Text.isBlank c) :
      ∀ t ∈ Scan.tokens rounds s, t.isTrivia = false := by
    induction rounds generalizing s with
    | zero => simp [Scan.tokens]
    | succ rounds ih =>
      unfold Scan.tokens
      split
      · simp
      · rename_i c rest chars
        rw [chars] at blank
        split
        · exact ih _ fun d hd => blank d (List.mem_cons_of_mem c hd)
        · refine List.forall_mem_cons.2 ⟨Lexeme.scan_blank (blank c (by simp)) _ _, ih _ ?_⟩
          intro d hd
          have := List.mem_of_mem_drop hd
          rw [chars] at this
          exact blank d this
  exact scanned _ _ blank

theorem outside_cons {source : List Char} {regions : List (Nat × Nat)} {t : Token}
    (h : ∀ r ∈ regions, t.start < r.1) (ts : List Token) :
    outside source regions (t :: ts) = t :: outside source regions ts := by
  cases regions with
  | nil => rfl
  | cons r more => simp [outside, h r (by simp)]

end Token

namespace Script

namespace Follows

variable {source : List Char} {ts us : List Token} {ps : List Piece} {p : Spot}

theorem regions_ge (h : Follows source ts ps us) (inside : p.In source)
    (ahead : Cut Token.Scan.isGap p ts ⟨Text.size source, []⟩) :
    ∀ r ∈ ps.flatMap Piece.regions, p.offset ≤ r.1 := by
  obtain ⟨q, cut, _⟩ := h.cut inside ahead
  intro r hr
  obtain ⟨piece, member, hr⟩ := List.mem_flatMap.1 hr
  obtain ⟨t, ht, start⟩ := (h.fair piece member).regions r hr
  rw [start]
  exact (cut.bounds t (List.mem_flatMap.2 ⟨piece, member, ht⟩)).1

/-- The markup that is left lies behind the tokens before it. -/
theorem regions_gt {front : List Token} {q : Spot} (h : Follows source ts ps us)
    (inside : p.In source) (left : Cut Token.Scan.isGap p front q)
    (right : Cut Token.Scan.isGap q ts ⟨Text.size source, []⟩) :
    ∀ t ∈ front, ∀ r ∈ ps.flatMap Piece.regions, t.start < r.1 := by
  intro t ht r hr
  have here := left.bounds t ht
  have later := h.regions_ge (left.place inside) right r hr
  omega

/-- Nothing behind the last piece of markup is a comment if nothing but blanks stands there. -/
theorem comments_blank {parts : List Token} {last : Token} {q : Spot} (there : p.In source)
    (cut : Cut Text.isBlank p parts q) (ends : parts.getLast? = some last) (none : q.rest = []) :
    (Token.allFrom last.stop false ((Text.after? source last.stop).getD [])).filter Token.isTrivia
      = [] := by
  obtain ⟨blank, isBlank, behind⟩ := cut.behind_last there ends
  rw [none, List.append_nil] at behind
  rw [behind.after?, Option.getD_some]
  exact List.filter_eq_nil_iff.2 fun u hu => by
    simp [Token.allFrom_blank isBlank last.stop false u hu]

/-- The comments outside markup are those of the pieces. -/
theorem comments (h : Follows source ts ps us) (none : us = []) (inside : p.In source)
    (ahead : Cut Token.Scan.isGap p ts ⟨Text.size source, []⟩) :
    (Token.outside source (ps.flatMap Piece.regions) ts).filter Token.isTrivia
      = (ps.flatMap Piece.tokens).filter Token.isTrivia := by
  induction h generalizing p with
  | done _ => simp [none, Token.outside]
  | @token t ts us ps tail ih =>
    obtain ⟨q, left, right⟩ := Cut.split (show Cut _ p ([t] ++ ts) _ from ahead)
    have regions := tail.regions_gt inside left right t (by simp)
    have step := ih none (left.place inside) right
    simp only [List.flatMap_cons, Piece.regions, Piece.tokens, List.nil_append,
      Token.outside_cons regions, List.singleton_append, List.filter_cons, step]
  | @sigil dollar opening ts us ps significant significant' adjacent tail ih =>
    obtain ⟨q, left, right⟩ := Cut.split (show Cut _ p ([dollar, opening] ++ ts) _ from ahead)
    have first := tail.regions_gt inside left right dollar (by simp)
    have second := tail.regions_gt inside left right opening (by simp)
    have step := ih none (left.place inside) right
    have joined : Token.isTrivia ⟨.dollar, dollar.text ++ opening.text, dollar.start,
      dollar.newlineBefore⟩ = false := rfl
    have significant : dollar.isTrivia = false := by simpa [Token.isSignificant] using significant
    have significant' : opening.isTrivia = false := by
      simpa [Token.isSignificant] using significant'
    simp only [List.flatMap_cons, Piece.regions, Piece.tokens, List.nil_append,
      Token.outside_cons first, Token.outside_cons second, List.singleton_append,
      List.filter_cons, step, joined, significant, significant', Bool.false_eq_true, if_false]
  | @markup t ts us parts ps text q _ here parts_cut significant starts ends tail ih =>
    obtain ⟨_, there⟩ := lead inside ahead here
    have inside' := parts_cut.place there
    have structural : parts.filter Token.isTrivia = [] := List.filter_eq_nil_iff.2 fun u hu => by
      simpa [Token.isSignificant] using significant u hu
    have nonempty : parts ≠ [] := by
      rintro rfl
      contradiction
    obtain ⟨last, last_eq⟩ := Option.isSome_iff_exists.1 (List.getLast?_isSome.2 nonempty)
    have region : Piece.regions (.markup parts) = [(t.start, last.stop)] := by
      simp [Piece.regions, starts, last_eq]
    have nothing : (t :: ts).takeWhile (·.start < t.start) = [] := by simp
    rw [List.flatMap_cons, List.flatMap_cons, region, Piece.tokens, List.filter_append, structural,
      List.singleton_append, Token.outside, nothing, List.nil_append, List.nil_append]
    rcases ends with nothing' | last'
    · rw [nothing'] at tail
      cases tail
      exact comments_blank there parts_cut last_eq nothing'
    · have stop : last.stop = q.offset := by simpa [last_eq] using last'
      have ahead' := Token.allFrom_cut q.offset false q.rest
      rw [inside'.size] at ahead'
      rw [stop, inside'.after?]
      exact ih none inside' ahead'

end Follows

end Script

namespace Script

/-- All items of a text, as the pieces of the whole text. -/
theorem items_pieces (text : List Char) :
    ∃ ps, Follows text (Token.all text) ps [] ∧
      Draft.solidsOf (items (.ofText text)).1 = ps.flatMap Piece.solids ∧
      (Draft.extrasOf (items (.ofText text)).1).Perm (ps.flatMap Piece.extras) := by
  have sound : (Stream.ofText text).Sound := (whole_ofText text).settle.sound
  obtain ⟨⟨ps, reads, solids, extras⟩, tokens, waiting⟩ := items_conserves sound
  have follows := reads.follows
  rw [tokens] at follows
  have lead := Follows.tokens text ((Token.all text).takeWhile Token.isTrivia)
    ((Token.all text).dropWhile Token.isTrivia)
  rw [List.takeWhile_append_dropWhile] at lead
  refine ⟨_, lead.append follows, ?_, ?_⟩
  · rw [List.flatMap_append, Piece.solids_tokens, significant_takeWhile]
    exact solids
  · rw [List.flatMap_append, Piece.extras_tokens, trivia_takeWhile]
    rw [waiting] at extras
    simpa [Stream.ofText, Stream.settle] using extras

end Script

namespace Draft

theorem regions_marks (d : Draft) :
    (d.labels.filter fun t => t.kind == Kind.xml).map Tag.span
      = d.marks.filterMap Mark.region? := by
  induction d using Rose.induction with
  | node t children ih =>
    have own : ([t].filter fun t => t.kind == Kind.xml).map Tag.span
        = (regions t).filterMap Mark.region? := by
      by_cases xml : t.kind = Kind.xml <;> simp [regions, xml, Mark.region?, Tag.span]
    have leaf : [t.mark].filterMap Mark.region? = [] := by
      unfold Tag.mark
      split <;> rfl
    have below : ((children.flatMap Rose.labels).filter fun t => t.kind == Kind.xml).map Tag.span
        = (children.flatMap marks).filterMap Mark.region? := by
      rw [List.filter_flatMap, List.map_flatMap, List.filterMap_flatMap]
      exact congrArg List.flatten (List.map_congr_left ih)
    rw [Rose.labels_node, marks_node, ← List.singleton_append, List.filter_append, List.map_append,
      List.filterMap_append, own, below]
    split
    · rename_i nothing
      rw [leaf, List.isEmpty_iff.1 nothing]
      rfl
    · rfl

theorem regions_solids (d : Draft) :
    d.solids.filterMap Mark.region? = d.marks.filterMap Mark.region? := by
  rw [solids, List.filterMap_filter]
  congr 1
  funext m
  cases m <;> rfl

end Draft

theorem Script.Piece.regions_solids (p : Piece) : p.solids.filterMap Mark.region? = p.regions := by
  cases p with
  | token t =>
    simp only [regions, solids]
    split <;> rfl
  | sigil _ _ => rfl
  | markup parts =>
    have none : (parts.map tokenMark).filterMap Mark.region? = [] :=
      List.filterMap_eq_nil_iff.2 fun m hm => by
        obtain ⟨u, _, rfl⟩ := List.mem_map.1 hm
        rfl
    rw [solids, List.filterMap_cons, none]
    rfl

namespace Tree

theorem children_ofScript (text : List Char) :
    (ofScript text).root.children.map Node.thaw = (items (.ofText text)).1 := by
  rw [← Node.children_thaw, thaw_ofScript]
  rfl

theorem leaves_ofScript (text : List Char) :
    (ofScript text).leaves = (items (.ofText text)).1.flatMap Rose.leaves := by
  rw [leaves, ← children_ofScript, List.map_flatMap, List.flatMap_map]
  simp only [Node.thaw, Rose.leaves_map]

theorem regions_ofScript (text : List Char) :
    (ofScript text).regions
      = ((items (.ofText text)).1.flatMap Draft.marks).filterMap Mark.region? := by
  have spans : (ofScript text).regions
      = ((draft text).labels.filter fun t => t.kind == Kind.xml).map Tag.span := by
    rw [← labels_ofScript, List.filter_map, List.map_map]
    rfl
  obtain ⟨tag, kind, root⟩ : ∃ tag : Tag, tag.kind = Kind.sourceFile ∧
      draft text = .node tag (items (.ofText text)).1 := ⟨_, rfl, rfl⟩
  have other : (tag.kind == Kind.xml) = false := by rw [kind]; decide
  rw [spans, root, Rose.labels_node, List.filter_cons_of_neg (by simp [other]), List.filter_flatMap,
    List.map_flatMap, List.filterMap_flatMap]
  exact congrArg List.flatten (List.map_congr_left fun d _ => Draft.regions_marks d)

theorem isExtra_mark (t : Tag) : t.mark.isExtra = t.extra := by
  unfold Tag.mark
  cases t.extra <;> rfl

theorem marks_ofScript (text : List Char) : (ofScript text).leaves.map Tag.mark
    = ((items (.ofText text)).1.flatMap Draft.marks).filter fun m => !m.isMarkup := by
  rw [leaves_ofScript, List.map_flatMap, List.filter_flatMap]
  exact congrArg List.flatten (List.map_congr_left fun d _ => (Draft.marks_leaves d).symm)

/-- The leaves of the structure of a script, as marks. -/
theorem solids_ofScript (text : List Char) :
    ((ofScript text).leaves.filter fun leaf => !leaf.extra).map Tag.mark
      = (Draft.solidsOf (items (.ofText text)).1).filter fun m => !m.isMarkup := by
  have all : Draft.solidsOf (items (.ofText text)).1
      = ((items (.ofText text)).1.flatMap Draft.marks).filter fun m => !m.isExtra := by
    rw [List.filter_flatMap]
    rfl
  calc ((ofScript text).leaves.filter fun leaf => !leaf.extra).map Tag.mark
      = ((ofScript text).leaves.map Tag.mark).filter fun m => !m.isExtra := by
        rw [List.filter_map]
        simp only [Function.comp_def, isExtra_mark]
    _ = _ := by
        rw [marks_ofScript, all, List.filter_filter, List.filter_filter]
        simp only [Bool.and_comm]

/-- The comments among the leaves of a script, as marks. -/
theorem extras_ofScript (text : List Char) :
    ((ofScript text).leaves.filter Tag.extra).map Tag.mark
      = Draft.extrasOf (items (.ofText text)).1 := by
  calc ((ofScript text).leaves.filter Tag.extra).map Tag.mark
      = ((ofScript text).leaves.map Tag.mark).filter Mark.isExtra := by
        rw [List.filter_map]
        simp only [Function.comp_def, isExtra_mark]
    _ = ((items (.ofText text)).1.flatMap Draft.marks).filter Mark.isExtra := by
        rw [marks_ofScript, List.filter_filter]
        refine List.filter_congr fun m _ => ?_
        cases m <;> rfl
    _ = _ := by
        rw [List.filter_flatMap]
        rfl

/-- The leaves of a script are the tokens of the pieces that its text was read into. -/
theorem leaves_pieces (text : List Char) :
    ∃ ps, Follows text (Token.all text) ps [] ∧
      ((ofScript text).leaves.filter fun leaf => !leaf.extra).map Tag.mark
        = ((ps.flatMap Piece.tokens).filter Token.isSignificant).map tokenMark ∧
      (((ofScript text).leaves.filter Tag.extra).map Tag.mark).Perm
        (((ps.flatMap Piece.tokens).filter Token.isTrivia).map Token.extraMark) ∧
      (ofScript text).regions = ps.flatMap Piece.regions := by
  obtain ⟨ps, follows, solids, extras⟩ := items_pieces text
  refine ⟨ps, follows, ?_, ?_, ?_⟩
  · rw [solids_ofScript, solids]
    exact follows.solids
  · rw [extras_ofScript, ← follows.extras]
    exact extras
  · calc (ofScript text).regions
        = (Draft.solidsOf (items (.ofText text)).1).filterMap Mark.region? := by
          rw [regions_ofScript, Draft.solidsOf, List.filterMap_flatMap, List.filterMap_flatMap]
          simp only [Draft.regions_solids]
      _ = ps.flatMap Piece.regions := by
          rw [solids, List.filterMap_flatMap]
          simp only [Piece.regions_solids]

theorem span_mark (t : Tag) : t.mark.span = t.span := by
  unfold Tag.mark
  split <;> rfl

/-- The spans of all leaves are those of the pieces' tokens. -/
theorem spans_perm {leaves : List Tag} {ts : List Token}
    (solids : (leaves.filter fun leaf => !leaf.extra).map Tag.mark
      = (ts.filter Token.isSignificant).map tokenMark)
    (extras : ((leaves.filter Tag.extra).map Tag.mark).Perm
      ((ts.filter Token.isTrivia).map Token.extraMark)) :
    (leaves.map Tag.span).Perm (ts.map fun t => (t.start, t.stop)) := by
  have span_tag (ls : List Tag) : ls.map Tag.span = (ls.map Tag.mark).map Mark.span := by
    simp [Function.comp_def, span_mark]
  have split : (leaves.filter Tag.extra ++ leaves.filter fun leaf => !leaf.extra).Perm leaves :=
    List.filter_append_perm _ _
  have split' : (ts.filter Token.isTrivia ++ ts.filter Token.isSignificant).Perm ts :=
    List.filter_append_perm _ _
  refine ((split.map Tag.span).symm.trans ?_).trans (split'.map _)
  rw [span_tag, List.map_append, List.map_append, List.map_append, solids, List.map_map,
    List.map_map]
  refine List.Perm.append ?_ (.refl _)
  have := extras.map Mark.span
  rwa [List.map_map, List.map_map] at this

/-- A text is cut into tokens that its leaves stand for: the structure in their order, the comments,
which may have moved, in any. -/
theorem leaves_cut (text : List Char) : ∃ ts, Cut Text.isBlank ⟨0, text⟩ ts ⟨Text.size text, []⟩ ∧
    ((ofScript text).leaves.filter fun leaf => !leaf.extra).map Tag.mark
      = (ts.filter Token.isSignificant).map tokenMark ∧
    (((ofScript text).leaves.filter Tag.extra).map Tag.mark).Perm
      ((ts.filter Token.isTrivia).map Token.extraMark) ∧
    (Token.outside text (ofScript text).regions (Token.all text)).filter Token.isTrivia
      = ts.filter Token.isTrivia := by
  obtain ⟨ps, follows, solids, extras, regions⟩ := leaves_pieces text
  have ahead := all_cut text
  have comments := follows.comments rfl (Spot.in_start text) ahead
  obtain ⟨q, cut, _, behind⟩ := follows.cut (Spot.in_start text) ahead
  have cut := cut.append (behind.mono fun c => Token.isBlank_of_isGap)
  rw [List.append_nil] at cut
  exact ⟨_, cut, solids, extras, by rw [regions]; exact comments⟩

/-- The leaves of the structure stand in their order. -/
theorem leaves_ordered (text : List Char) :
    ((ofScript text).leaves.filter fun leaf => !leaf.extra).Pairwise
      fun a b => a.stop ≤ b.start := by
  obtain ⟨ts, cut, solids, _, _⟩ := leaves_cut text
  have ordered : ((ts.filter Token.isSignificant).map fun t => (t.start, t.stop)).Pairwise
      fun a b => a.2 ≤ b.1 := List.pairwise_map.2 (cut.pairwise.filter _)
  have same := congrArg (List.map Mark.span) solids
  rw [List.map_map, List.map_map] at same
  simp only [Function.comp_def, span_mark] at same
  rw [show (ts.filter Token.isSignificant).map (fun t => (tokenMark t).span)
    = (ts.filter Token.isSignificant).map fun t => (t.start, t.stop) from rfl] at same
  rw [← same] at ordered
  exact List.pairwise_map.1 ordered

/-- Every leaf spans a token that the text is cut into. -/
theorem leaves_spans {text : List Char} {ts : List Token}
    (solids : ((ofScript text).leaves.filter fun leaf => !leaf.extra).map Tag.mark
      = (ts.filter Token.isSignificant).map tokenMark)
    (extras : (((ofScript text).leaves.filter Tag.extra).map Tag.mark).Perm
      ((ts.filter Token.isTrivia).map Token.extraMark)) :
    ∀ leaf ∈ (ofScript text).leaves, ∃ t ∈ ts, t.start = leaf.start ∧ t.stop = leaf.stop := by
  intro leaf member
  have := (spans_perm solids extras).mem_iff.1 (List.mem_map_of_mem member)
  obtain ⟨t, ht, span⟩ := List.mem_map.1 this
  exact ⟨t, ht, Prod.mk.inj span⟩

theorem ofScript_lossless (text : List Char) :
    (ofScript text).source = text ∧ (ofScript text).Lossless := by
  obtain ⟨ts, cut, solids, extras, comments⟩ := leaves_cut text
  have spans := spans_perm solids extras
  have slices := cut.slice? (Spot.in_start text)
  refine ⟨rfl, ?_, ?_, ?_, leaves_ordered text, ?_⟩
  · intro leaf member
    obtain ⟨t, ht, start, stop⟩ := leaves_spans solids extras leaf member
    rw [← start, ← stop]
    exact ⟨(cut.bounds t ht).2.1, by simp [ofScript, grammar, Grammar.parse, ofDraft, slices t ht]⟩
  · have disjoint : ts.Pairwise fun t u => t.stop ≤ u.start ∨ u.stop ≤ t.start :=
      cut.pairwise.imp fun before => .inl before
    have moved : ((ofScript text).leaves.map Tag.span).Pairwise fun a b => a.2 ≤ b.1 ∨ b.2 ≤ a.1 :=
      (spans.pairwise_iff fun h => h.symm).2 (List.pairwise_map.2 disjoint)
    exact List.pairwise_map.1 moved
  · intro before c after eq noBlank
    obtain rfl : text = before ++ c :: after := eq
    have once := cut.countP_covers noBlank (by simp [← Nat.add_assoc])
    rw [Nat.zero_add] at once
    have moved := spans.countP_eq (covers (Text.size before) c)
    rw [List.countP_map, List.countP_map] at moved
    exact moved.trans once
  · rw [← comments] at extras
    exact extras

end Tree

end RouteScript
