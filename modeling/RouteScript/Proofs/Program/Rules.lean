import RouteScript.Proofs.Program.Basic
import RouteScript.Proofs.Alike.Rules
/-!
# Reading without errors

A reader parses some looks of tokens if, on every stream that begins with them, it gives nodes of
the expected outlines with no error among them and stops at the looks behind.
-/
namespace RouteScript

namespace Draft

/-- No node is an error. -/
def Clean (d : Draft) : Prop := ∀ t ∈ d.labels, t.isError = false

theorem clean_node {t : Tag} {children : List Draft} :
    Clean (.node t children) ↔ t.isError = false ∧ ∀ d ∈ children, d.Clean := by
  unfold Clean
  rw [Rose.labels_node, List.forall_mem_cons]
  simp only [List.mem_flatMap, forall_exists_index, and_imp]
  exact and_congr_right fun _ => ⟨fun h d hd u hu => h u d hd hu, fun h u d hd hu => h d hd u hu⟩

theorem Clean.withField {d : Draft} (h : d.Clean) (field : String) : (d.withField field).Clean := by
  obtain ⟨t, children⟩ := d
  obtain ⟨noError, below⟩ := clean_node.1 h
  exact clean_node.2 ⟨noError, below⟩

theorem clean_branch {kind : String} (h : kind ≠ errorKind) {children : List Draft}
    (clean : ∀ d ∈ children, d.Clean) : (branch kind children).Clean :=
  clean_node.2 ⟨by simpa [Tag.isError] using h, clean⟩

theorem clean_extraLeaf (t : Token) : (Script.extraLeaf t).Clean := by
  unfold Script.extraLeaf
  refine clean_node.2 ⟨?_, by simp⟩
  dsimp only
  split <;> rfl

end Draft

/-- The outline of a token that is a leaf of the tree. -/
def Token.Look.outline (l : Token.Look) : Outline :=
  match l.kind with
  | .identifier => .leaf RouteScript.Kind.identifier l.text
  | .number => .leaf RouteScript.Kind.number l.text
  | .string => .leaf RouteScript.Kind.string l.text
  | kind => .node ⟨kind.spelling?.getD errorKind, false, none, some l.text⟩ []

/-- A token of this look, wherever it stands. -/
def Token.Look.token (l : Token.Look) : Token := ⟨l.kind, l.text, 0, l.newlineBefore⟩

namespace Script

open Draft Outline

variable {α β σ : Type} {a : List Char} {p : Option Nat} {s : Stream} {l : Token.Look}
  {ls rest : List Token.Look}

/-- Drafts of known outlines, with no error in them. -/
structure Shows (a : List Char) (ds : List Draft) (os : List Outline) : Prop where
  outlines : outlinesOf a ds = os
  solid : Solid ds
  clean : ∀ d ∈ ds, d.Clean

/-- A token of the text of a certain look. -/
structure Seen (a : List Char) (l : Token.Look) (t : Token) : Prop where
  kind : t.kind = l.kind
  text : t.text = l.text
  newlineBefore : t.newlineBefore = l.newlineBefore
  slice : Text.slice a t.start t.stop = l.text

namespace Shows

variable {ds ds' : List Draft} {os os' : List Outline} {d : Draft} {o : Outline}

theorem nil : Shows a [] [] := ⟨rfl, solid_nil, by simp⟩

theorem append (h : Shows a ds os) (h' : Shows a ds' os') : Shows a (ds ++ ds') (os ++ os') :=
  ⟨by simp [h.outlines, h'.outlines], (solid_append _ _).2 ⟨h.solid, h'.solid⟩,
    fun d hd => (List.mem_append.1 hd).elim (h.clean d) (h'.clean d)⟩

theorem cons (h : Shows a [d] [o]) (h' : Shows a ds os) : Shows a (d :: ds) (o :: os) :=
  append h h'

theorem withField (h : Shows a [d] [o]) (field : String) :
    Shows a [d.withField field] [labelled field o] := by
  have outline : Draft.outlines a d = [o] := by simpa using h.outlines
  refine ⟨?_, by simpa using h.solid, by simpa using (h.clean d (by simp)).withField field⟩
  simp [outlines_withField, outline, labelled]

theorem map_withField (h : Shows a ds os) (field : String) :
    Shows a (ds.map (Draft.withField field)) (os.map (labelled field)) := by
  refine ⟨?_, (solid_map_withField field ds).2 h.solid, fun d hd => ?_⟩
  · rw [outlinesOf_map_withField, h.outlines]
    rfl
  · obtain ⟨d', hd', rfl⟩ := List.mem_map.1 hd
    exact (h.clean d' hd').withField field

theorem nonempty (h : Shows a ds os) (some_node : os ≠ []) : ds ≠ [] := by
  rintro rfl
  exact some_node h.outlines.symm

theorem branch (h : Shows a ds os) (some_node : os ≠ []) {kind : String} (known : kind ≠ errorKind) :
    Shows a [.branch kind ds] [nodeOf kind os] := by
  have nonempty := h.nonempty some_node
  refine ⟨?_, ?_, by simpa using clean_branch known h.clean⟩
  · rw [outlinesOf_cons, outlinesOf_nil, outlines_branch, List.isEmpty_eq_false_iff.2 nonempty,
      h.outlines]
    rfl
  · simpa using (structural_branch kind fun _ => h.solid.solidsOf_ne_nil nonempty).1

theorem wrap (h : Shows a [d] [o]) : Shows a [wrap d] [wrapped o] :=
  h.branch (by simp) (by decide)

end Shows

namespace Seen

variable {t : Token} (h : Seen a l t)
include h

theorem word : t.word = String.ofList l.text := congrArg String.ofList h.text

theorem leaf {kind : String} {named : Bool} (known : (named && kind == errorKind) = false)
    (noMarkup : kind ≠ Kind.xml) : Shows a [.leaf kind named t.start t.stop]
      [.node ⟨kind, named, none, some l.text⟩ []] := by
  refine ⟨?_, by simp [solids_leaf noMarkup], ?_⟩
  · rw [outlinesOf_cons, outlines_leaf, h.slice]
    rfl
  · have clean : (Draft.leaf kind named t.start t.stop).Clean := clean_node.2 ⟨known, by simp⟩
    simpa using clean

theorem named (kind : String) (known : kind ≠ errorKind) (noMarkup : kind ≠ Kind.xml) :
    Shows a [.leaf kind true t.start t.stop] [.leaf kind l.text] :=
  h.leaf (by simpa using known) noMarkup

theorem sign {kind : String} (noMarkup : kind ≠ Kind.xml) :
    Shows a [.leaf kind false t.start t.stop] [.node ⟨kind, false, none, some l.text⟩ []] :=
  h.leaf rfl noMarkup

theorem tokenLeaf (plain : l.kind ≠ .unterminatedString ∧ l.kind ≠ .unknown) :
    Shows a [tokenLeaf t] [l.outline] := by
  have noMarkup : l.kind.spelling?.getD errorKind ≠ Kind.xml := by
    cases spelling : l.kind.spelling? with
    | none => decide
    | some w => exact kind_ne_xml_of_spelling? spelling
  have sign := h.sign noMarkup
  have identifier := h.named Kind.identifier (by decide) (by decide)
  have number := h.named Kind.number (by decide) (by decide)
  have string := h.named Kind.string (by decide) (by decide)
  obtain ⟨kind, text, newlineBefore, adjacent⟩ := l
  unfold Script.tokenLeaf
  rw [h.kind]
  cases kind <;> first
    | exact sign
    | exact identifier
    | exact number
    | exact string
    | simp at plain

theorem keywordLeaf {text : String} (known : Vocabulary.anonymousKind? text = some text)
    (same : l.text = text.toList) : Shows a [keywordLeaf t] [keyword text] := by
  have word : t.word = text := by rw [h.word, same, String.ofList_toList]
  have noMarkup : text ≠ Kind.xml := by
    rintro rfl
    contradiction
  unfold Script.keywordLeaf
  rw [word, known]
  simpa [keyword, same] using h.sign noMarkup

end Seen

/-- A sound stream over a text whose significant tokens, behind an offset, look like this. -/
structure Ahead (a : List Char) (p : Option Nat) (ls : List Token.Look) (s : Stream) : Prop where
  sound : s.Sound
  source : s.source = a
  looks : Token.looks p (s.tokens.filter Token.isSignificant) = ls

namespace Ahead

theorem nil (h : Ahead a p [] s) : s.tokens = [] := by
  have nothing := h.looks
  cases tokens : s.tokens with
  | nil => rfl
  | cons t ts => simp [tokens, h.sound.settled t (by simp [tokens]), Token.looks] at nothing

theorem cons (h : Ahead a p (l :: ls) s) : ∃ t ts, s.tokens = t :: ts ∧ Seen a l t
    ∧ (p == some t.start) = l.adjacent
    ∧ Token.looks (some t.stop) (ts.filter Token.isSignificant) = ls := by
  have same := h.looks
  cases tokens : s.tokens with
  | nil => simp [tokens, Token.looks] at same
  | cons t ts =>
    have significant := h.sound.settled t (by simp [tokens])
    simp only [tokens, List.filter_cons, significant, if_true, Token.looks, List.cons.injEq] at same
    obtain ⟨rfl, behind⟩ := same
    have slice := h.sound.slice? (t := t) (by simp [tokens])
    rw [h.source] at slice
    exact ⟨t, ts, rfl, ⟨rfl, rfl, rfl, by simp [Text.slice, slice]⟩, rfl, behind⟩

theorem head? (h : Ahead a p ls s) : s.tokens.head?.map Token.kind = ls.head?.map Token.Look.kind := by
  cases ls with
  | nil => simp [h.nil]
  | cons l ls =>
    obtain ⟨t, ts, tokens, seen, _⟩ := h.cons
    simp [tokens, seen.kind]

theorem keep (h : Ahead a p ls s) {waiting : List Draft} (sub : ∀ d ∈ waiting, d ∈ s.waiting) :
    Ahead a p ls { s with waiting } :=
  ⟨(h.sound.drop_waiting sub).sound, h.source, h.looks⟩

theorem next (h : Ahead a p (l :: ls) s) {t : Token} {ts : List Token} (tokens : s.tokens = t :: ts) :
    Ahead a (some t.stop) ls (Script.next s).2 := by
  obtain ⟨t', ts', tokens', _, _, behind⟩ := h.cons
  obtain ⟨rfl, rfl⟩ := List.cons.inj (tokens.symm.trans tokens')
  have passes := (Conserves.next [] h.sound tokens (solids_tokenLeaf t) (extras_tokenLeaf t)).passes
  refine ⟨passes.sound, passes.source.trans h.source, ?_⟩
  rw [next_snd tokens]
  simpa only [Stream.settle, filter_dropWhile_trivia] using behind

end Ahead

/-- On streams with some looks ahead a reader gives a result as `post` says and stops at the rest
of them. -/
def Parses (a : List Char) (p : Option Nat) (ls : List Token.Look) (s : Stream) (x : Reader α)
    (rest : List Token.Look) (post : α → Prop) : Prop :=
  Ahead a p ls s → post (x s).1 ∧ ∃ p', Ahead a p' rest (x s).2

namespace Parses

variable {x : Reader α} {mid : List Token.Look} {given : α → Prop} {post : β → Prop}

theorem pure {b : β} (h : post b) : Parses a p ls s (Pure.pure b) ls post :=
  fun ahead => ⟨h, p, ahead⟩

theorem pure_bind {b : α} {k : α → Reader β} (h : Parses a p ls s (k b) rest post) :
    Parses a p ls s (Pure.pure b >>= k) rest post := h

theorem bind {k : α → Reader β} (hx : Parses a p ls s x mid given)
    (hk : ∀ {p s} c, given c → Parses a p mid s (k c) rest post) :
    Parses a p ls s (x >>= k) rest post := by
  intro ahead
  obtain ⟨holds, p', ahead'⟩ := hx ahead
  exact hk _ holds ahead'

theorem mono {post' : α → Prop} (h : Parses a p ls s x rest given)
    (imp : ∀ b, given b → post' b) : Parses a p ls s x rest post' := fun ahead =>
  ⟨imp _ (h ahead).1, (h ahead).2⟩

/-- A reader that does the same at this stream may stand for another. -/
theorem ofEq {x y : Reader β} (eq : Ahead a p ls s → x s = y s)
    (h : Parses a p ls s y rest post) : Parses a p ls s x rest post := by
  intro ahead
  rw [eq ahead]
  exact h ahead

theorem peek {k : Option Token → Reader β}
    (h : ∀ t, Seen a l t → Parses a p (l :: ls) s (k (some t)) rest post) :
    Parses a p (l :: ls) s (peek >>= k) rest post := by
  intro ahead
  obtain ⟨t, ts, tokens, seen, _⟩ := ahead.cons
  refine ofEq (fun _ => ?_) (h t seen) ahead
  change k s.tokens.head? s = _
  rw [tokens]
  rfl

theorem peek_nil {k : Option Token → Reader β} (h : Parses a p [] s (k none) rest post) :
    Parses a p [] s (Script.peek >>= k) rest post := by
  refine ofEq (fun ahead => ?_) h
  change k s.tokens.head? s = _
  rw [ahead.nil]
  rfl

theorem peekKind {k : Option Token.Kind → Reader β}
    (h : Parses a p ls s (k (ls.head?.map Token.Look.kind)) rest post) :
    Parses a p ls s (peekKind >>= k) rest post := by
  refine ofEq (fun ahead => ?_) h
  rw [← ahead.head?]
  rfl

theorem isAt {kind : Token.Kind} {k : Bool → Reader β}
    (h : Parses a p ls s (k (ls.head?.map Token.Look.kind == some kind)) rest post) :
    Parses a p ls s (isAt kind >>= k) rest post :=
  peekKind (k := fun following => k (following == some kind)) h

theorem isAt_yes {k : Bool → Reader β} (h : Parses a p (l :: ls) s (k true) rest post) :
    Parses a p (l :: ls) s (Script.isAt l.kind >>= k) rest post :=
  isAt (by simpa using h)

theorem isAt_no {kind : Token.Kind} {k : Bool → Reader β}
    (other : ∀ l, ls.head? = some l → l.kind ≠ kind) (h : Parses a p ls s (k false) rest post) :
    Parses a p ls s (Script.isAt kind >>= k) rest post := by
  have no : (ls.head?.map Token.Look.kind == some kind) = false := by
    cases ls with
    | nil => rfl
    | cons l ls => simpa using other l rfl
  exact isAt (by rwa [no])

theorem peekSecondKind {k : Option Token.Kind → Reader β}
    (h : Parses a p (l :: ls) s (k (ls.head?.map Token.Look.kind)) rest post) :
    Parses a p (l :: ls) s (peekSecondKind >>= k) rest post := by
  refine ofEq (fun ahead => ?_) h
  obtain ⟨t, ts, tokens, seen, _, behind⟩ := ahead.cons
  have second : (s.tokens.tail.find? Token.isSignificant).map Token.kind
      = ls.head?.map Token.Look.kind := by
    rw [tokens, List.tail_cons, ← List.head?_filter, ← behind]
    cases ts.filter Token.isSignificant <;> rfl
  rw [← second]
  rfl

theorem isAtWord {word : String} {k : Bool → Reader β}
    (h : Parses a p ls s
      (k (ls.head?.any fun l => l.kind == .identifier && String.ofList l.text == word)) rest post) :
    Parses a p ls s (isAtWord word >>= k) rest post := by
  refine ofEq (fun ahead => ?_) h
  change k (Script.isAtWord word s).1 (Script.isAtWord word s).2 = _
  rw [isAtWord_eq]
  cases ls with
  | nil => rw [ahead.nil]; rfl
  | cons l ls =>
    obtain ⟨t, ts, tokens, seen, _⟩ := ahead.cons
    simp [tokens, seen.kind, seen.word]

theorem isAdjacent_yes {offset : Nat} {k : Bool → Reader β} (adjacent : l.adjacent)
    (h : Parses a (some offset) (l :: ls) s (k true) rest post) :
    Parses a (some offset) (l :: ls) s (isAdjacent offset l.kind >>= k) rest post := by
  refine ofEq (fun ahead => ?_) h
  change k (Script.isAdjacent offset l.kind s).1 (Script.isAdjacent offset l.kind s).2 = _
  rw [isAdjacent_eq]
  obtain ⟨t, ts, tokens, seen, start, _⟩ := ahead.cons
  rw [adjacent] at start
  have start : t.start = offset := by simpa using Eq.symm (by simpa using start)
  simp [tokens, seen.kind, start]

theorem isAdjacent_no {offset : Nat} {kind : Token.Kind} {k : Bool → Reader β}
    (other : ∀ l, ls.head? = some l → l.kind ≠ kind) (h : Parses a p ls s (k false) rest post) :
    Parses a p ls s (isAdjacent offset kind >>= k) rest post := by
  refine ofEq (fun ahead => ?_) h
  change k (Script.isAdjacent offset kind s).1 (Script.isAdjacent offset kind s).2 = _
  rw [isAdjacent_eq]
  cases ls with
  | nil => rw [ahead.nil]; rfl
  | cons l ls =>
    obtain ⟨t, ts, tokens, seen, _⟩ := ahead.cons
    have no : (l.kind == kind) = false := by simpa using other l rfl
    simp [tokens, seen.kind, no]

theorem next {k : Option Token → Reader β}
    (h : ∀ {s} t, Seen a l t → Parses a (some t.stop) ls s (k (some t)) rest post) :
    Parses a p (l :: ls) s (next >>= k) rest post := by
  intro ahead
  obtain ⟨t, ts, tokens, seen, _⟩ := ahead.cons
  have first : (Script.next s).1 = some t := by simp [Script.next, tokens]
  have later := h t seen (ahead.next tokens)
  rw [← first] at later
  exact later

end Parses

theorem nextLeaf_parses (plain : l.kind ≠ .unterminatedString ∧ l.kind ≠ .unknown) :
    Parses a p (l :: ls) s nextLeaf ls (Shows a · [l.outline]) :=
  .next fun _ seen => .pure (seen.tokenLeaf plain)

theorem nextKeyword_parses {text : String} (known : Vocabulary.anonymousKind? text = some text)
    (same : l.text = text.toList) :
    Parses a p (l :: ls) s nextKeyword ls (Shows a · [keyword text]) :=
  .next fun _ seen => .pure (seen.keywordLeaf known same)

theorem optionalLeaf_yes (plain : l.kind ≠ .unterminatedString ∧ l.kind ≠ .unknown) :
    Parses a p (l :: ls) s (optionalLeaf l.kind) ls (Shows a · [l.outline]) :=
  Parses.isAt_yes (nextLeaf_parses plain)

theorem optionalLeaf_no {kind : Token.Kind} (other : ∀ l, ls.head? = some l → l.kind ≠ kind) :
    Parses a p ls s (optionalLeaf kind) ls (Shows a · []) :=
  Parses.isAt_no other (.pure Shows.nil)

/-- Drafts of known outlines with comments among them. -/
structure Listed (a : List Char) (ds : List Draft) (os : List Outline) : Prop where
  outlines : outlinesOf a ds = os
  clean : ∀ d ∈ ds, d.Clean

/-- There is more than comments. -/
structure Gathers (a : List Char) (ds : List Draft) (os : List Outline) : Prop
    extends Listed a ds os where
  solid : solidsOf ds ≠ []

theorem Shows.gathers {ds : List Draft} {os : List Outline} (h : Shows a ds os)
    (some_node : os ≠ []) : Gathers a ds os :=
  ⟨⟨h.outlines, h.clean⟩, h.solid.solidsOf_ne_nil (h.nonempty some_node)⟩

theorem Ahead.clean_waiting (h : Ahead a p ls s) {d : Draft} (hd : d ∈ s.waiting) : d.Clean := by
  obtain ⟨t, _, _, rfl⟩ := h.sound.waiting d hd
  exact clean_extraLeaf t

/-- A node takes its place among its siblings, behind the comments that wait before it. -/
theorem Listed.place {ds : List Draft} {os : List Outline} (h : Listed a ds os) {d : Draft}
    {o : Outline} (shows : Shows a [d] [o]) :
    Parses a p ls s (place ds d) ls
      fun ds' => Listed a ds' (os ++ [o]) ∧ ∃ more, ds' = ds ++ more := by
  intro ahead
  refine ⟨⟨⟨?_, fun d' hd' => ?_⟩, _, List.append_assoc _ _ _⟩, p,
    ahead.keep fun _ hd => (List.mem_filter.1 hd).1⟩
  · have outline : Draft.outlines a d = [o] := by simpa using shows.outlines
    rw [outlinesOf_place ahead.sound, h.outlines, outline]
  · simp only [Script.place, List.mem_append, List.mem_singleton] at hd'
    rcases hd' with (old | waiting) | rfl
    · exact h.clean d' old
    · exact ahead.clean_waiting (List.mem_filter.1 waiting).1
    · exact shows.clean d' (by simp)

theorem Gathers.place {ds : List Draft} {os : List Outline} (h : Gathers a ds os) {d : Draft}
    {o : Outline} (shows : Shows a [d] [o]) :
    Parses a p ls s (Script.place ds d) ls
      fun ds' => Gathers a ds' (os ++ [o]) ∧ ∃ more, ds' = ds ++ more := by
  refine (h.toListed.place shows).mono fun ds' ⟨listed, more, grown⟩ => ?_
  refine ⟨⟨listed, ?_⟩, more, grown⟩
  simp [grown, h.solid]

/-- At the end of a script all comments that wait are siblings, too. -/
theorem Listed.flush {ds : List Draft} {os : List Outline} (h : Listed a ds os) :
    Parses a p ls s (flush ds) ls (Listed a · os) := by
  intro ahead
  refine ⟨⟨?_, fun d hd => ?_⟩, p, ahead.keep (by simp)⟩
  · change outlinesOf a (ds ++ s.waiting) = os
    rw [outlinesOf_append, outlinesOf_waiting ahead.sound a fun _ hd => hd, List.append_nil,
      h.outlines]
  · rcases List.mem_append.1 hd with old | waiting
    · exact h.clean d old
    · exact ahead.clean_waiting waiting

theorem Gathers.node {ds : List Draft} {os : List Outline} (h : Gathers a ds os) {kind : String}
    (known : kind ≠ errorKind) :
    Parses a p ls s (node kind ds) ls (Shows a [·] [nodeOf kind os]) := by
  intro ahead
  have below : solidsOf (absorb ds s).1 ≠ [] := by
    rw [solidsOf_absorbed ahead.sound]
    exact h.solid
  have nonempty : (absorb ds s).1 ≠ [] := by
    intro nothing
    simp [nothing] at below
  have clean : ∀ d ∈ (absorb ds s).1, d.Clean := fun d hd => by
    rcases List.mem_append.1 ((absorb_perm _ ds).mem_iff.1 hd) with old | new
    · exact h.clean d old
    · exact ahead.clean_waiting (List.mem_filter.1 new).1
  refine ⟨?_, p, ahead.keep fun _ hd => (List.mem_filter.1 hd).1⟩
  change Shows a [.branch kind (absorb ds s).1] [nodeOf kind os]
  refine ⟨?_, by simpa using (structural_branch kind fun _ => below).1,
    by simpa using clean_branch known clean⟩
  rw [outlinesOf_cons, outlinesOf_nil, outlines_branch, List.isEmpty_eq_false_iff.2 nonempty,
    outlinesOf_absorb ahead.sound, h.outlines]
  rfl

theorem Shows.node {ds : List Draft} {os : List Outline} (h : Shows a ds os) (some_node : os ≠ [])
    {kind : String} (known : kind ≠ errorKind) :
    Parses a p ls s (node kind ds) ls (Shows a [·] [nodeOf kind os]) :=
  (h.gathers some_node).node known

/-- A step that does not look at the places of tokens. -/
def Placeless (step : σ → Token → Option σ) : Prop :=
  ∀ a state l t, Seen a l t → step state t = step state l.token

/-- A step accepts tokens of some looks one after the other and refuses what stands behind. -/
def Takes (step : σ → Token → Option σ) (final : σ) (rest : List Token.Look) :
    σ → List Token.Look → Prop
  | state, [] => state = final ∧ ∀ l, rest.head? = some l → step state l.token = none
  | state, l :: front =>
    ∃ state', step state l.token = some state' ∧ Takes step final rest state' front

theorem takeSteps_looks {step : σ → Token → Option σ} (placeless : Placeless step) {final : σ}
    {front : List Token.Look} {state : σ} {ts : List Token}
    (takes : Takes step final rest state front)
    (here : ∀ t ∈ ts, t.isSignificant ∧ Text.slice a t.start t.stop = t.text)
    (looks : Token.looks p ts = front ++ rest) :
    ∃ us vs p', takeSteps step state ts = (final, us, vs) ∧ List.Forall₂ (Seen a) front us
      ∧ Token.looks p' vs = rest := by
  induction front generalizing state ts p with
  | nil =>
    obtain ⟨rfl, stops⟩ := takes
    cases ts with
    | nil => exact ⟨[], [], p, rfl, .nil, looks⟩
    | cons t ts =>
      obtain ⟨significant, slice⟩ := here t (by simp)
      have notTrivia : t.isTrivia = false := by simpa [Token.isSignificant] using significant
      rw [List.nil_append] at looks
      obtain ⟨r, more, rfl⟩ : ∃ r more, rest = r :: more := by
        rw [← looks]
        exact ⟨_, _, rfl⟩
      obtain ⟨rfl, -⟩ := List.cons.inj looks
      have refused := stops _ rfl
      rw [← placeless a _ _ t ⟨rfl, rfl, rfl, slice⟩] at refused
      exact ⟨[], t :: ts, p, by simp [takeSteps, notTrivia, refused], .nil, looks⟩
  | cons l front ih =>
    obtain ⟨state', accepts, takes⟩ := takes
    cases ts with
    | nil => simp [Token.looks] at looks
    | cons t ts =>
      obtain ⟨significant, slice⟩ := here t (by simp)
      have notTrivia : t.isTrivia = false := by simpa [Token.isSignificant] using significant
      obtain ⟨rfl, behind⟩ := List.cons.inj looks
      have seen : Seen a ⟨t.kind, t.text, t.newlineBefore, p == some t.start⟩ t :=
        ⟨rfl, rfl, rfl, slice⟩
      rw [← placeless a _ _ t seen] at accepts
      obtain ⟨us, vs, p', run, all, left⟩ := ih takes (fun u hu => here u (by simp [hu])) behind
      exact ⟨t :: us, vs, p', by simp [takeSteps, notTrivia, accepts, run], .cons seen all, left⟩

theorem Ahead.collect {step : σ → Token → Option σ} (placeless : Placeless step) {final state : σ}
    {front : List Token.Look} (takes : Takes step final rest state front)
    (h : Ahead a p (front ++ rest) s) :
    ∃ us, List.Forall₂ (Seen a) front us ∧ (collect step state s).1 = (final, us.map tokenLeaf)
      ∧ ∃ p', Ahead a p' rest (collect step state s).2 := by
  have here : ∀ t ∈ s.tokens.filter Token.isSignificant,
      t.isSignificant ∧ Text.slice a t.start t.stop = t.text := fun t ht => by
    obtain ⟨member, significant⟩ := List.mem_filter.1 ht
    have slice := h.sound.slice? member
    rw [h.source] at slice
    exact ⟨significant, by simp [Text.slice, slice]⟩
  obtain ⟨us, vs, p', run, seen, behind⟩ := takeSteps_looks placeless takes here h.looks
  rw [takeSteps_filter, Prod.mk.injEq, Prod.mk.injEq] at run
  obtain ⟨final_eq, taken, left⟩ := run
  have passes := (collect_lossless step state s h.sound solid_nil).1.passes
  refine ⟨us, seen, ?_, p', passes.sound, passes.source.trans h.source, ?_⟩
  · change ((takeSteps step state s.tokens).1, _) = _
    rw [final_eq, taken]
  · change Token.looks p' ((takeSteps step state s.tokens).2.2.filter Token.isSignificant) = rest
    rw [left]
    exact behind

/-- A reader takes exactly one token. -/
theorem collectWhile_one {accepts : Token → Bool}
    (placeless : ∀ a l t, Seen a l t → accepts t = accepts l.token)
    (plain : l.kind ≠ .unterminatedString ∧ l.kind ≠ .unknown) (first : accepts l.token)
    (stops : ∀ l, ls.head? = some l → accepts l.token = false) :
    Parses a p (l :: ls) s (collectWhile accepts) ls (Shows a · [l.outline]) := by
  intro ahead
  let step : Unit → Token → Option Unit := fun _ t => if accepts t then some () else none
  have takes : Takes step () ls () [l] :=
    ⟨(), by simp [step, first], rfl, fun r hr => by simp [step, stops r hr]⟩
  have placed : Placeless step := fun a _ l t seen => by simp only [step, placeless a l t seen]
  have front : Ahead a p ([l] ++ ls) s := ahead
  obtain ⟨us, seen, result, later⟩ := front.collect placed takes
  cases seen with
  | cons seen none_left =>
    cases none_left
    refine ⟨?_, later⟩
    change Shows a (collect step () s).1.2 [l.outline]
    rw [result]
    exact seen.tokenLeaf plain

section Loop

variable {inv : α → Prop} {step : α → Reader (α ⊕ β)} {unfinished : α → β} {post : β → Prop} {c : α}

/-- A round that goes on. -/
theorem Parses.round {given : α → Prop} {mid : List Token.Look} (advancing : Advancing inv step)
    (hc : inv c)
    (once : Parses a p ls s (step c) mid fun out => ∃ c', out = .inl c' ∧ given c')
    (hk : ∀ {p s} c', given c' → Parses a p mid s (repeatUntil step unfinished c') rest post) :
    Parses a p ls s (repeatUntil step unfinished c) rest post := by
  intro ahead
  obtain ⟨⟨c', result, holds⟩, p', ahead'⟩ := once ahead
  have unrolled : repeatUntil step unfinished c s = repeatUntil step unfinished c' (step c s).2 := by
    rw [repeatUntil_eq advancing hc ahead.sound]
    cases taken : step c s with
    | mk out s' =>
      rw [taken] at result
      obtain rfl : out = .inl c' := result
      rfl
  rw [unrolled]
  exact hk c' holds ahead'

/-- The last round. -/
theorem Parses.finish (advancing : Advancing inv step) (hc : inv c)
    (once : Parses a p ls s (step c) rest fun out => ∃ b, out = .inr b ∧ post b) :
    Parses a p ls s (repeatUntil step unfinished c) rest post := by
  intro ahead
  obtain ⟨⟨b, result, holds⟩, p', ahead'⟩ := once ahead
  have unrolled : repeatUntil step unfinished c s = (b, (step c s).2) := by
    rw [repeatUntil_eq advancing hc ahead.sound]
    cases taken : step c s with
    | mk out s' =>
      rw [taken] at result
      obtain rfl : out = .inr b := result
      rfl
  rw [unrolled]
  exact ⟨holds, p', ahead'⟩

end Loop

end Script

end RouteScript
