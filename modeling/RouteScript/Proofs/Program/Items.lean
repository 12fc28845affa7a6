import RouteScript.Proofs.Program.Statement
import RouteScript.Proofs.Program.Fitting
import RouteScript.Proofs.Lossless.Items
import Mathlib.Data.List.MinMax
/-!
# Printed scripts

Every program is read back from its printed form: the tree of the script has no error, and its
outline is the one of the program.
-/
namespace RouteScript.Script

open Draft Outline Program

variable {a : List Char} {p : Option Nat} {s : Stream} {l : Token.Look}
  {ls mid rest : List Token.Look} {o o' : Outline} {os os' : List Outline} {t : Token}
  {newline adjacent newline' adjacent' : Bool} {post : Draft → Prop} {text : List Char}

theorem stringItem_parses {kind field word : String} (known : Vocabulary.anonymousKind? word = some word)
    (noError : kind ≠ errorKind) (noSemicolon : Without .semicolon ls) :
    Parses a p (⟨.identifier, word.toList, newline, adjacent⟩ :: ⟨.string, text, false, adjacent'⟩
      :: ls) s (stringItem kind field) ls
      (Shows a [·] [nodeOf kind [keyword word, labelled field (leaf Kind.string text)]]) := by
  refine .bind (nextKeyword_parses known rfl) fun _ first => .peek fun t seen => ?_
  have value : (t.kind == .string && !t.newlineBefore) = true := by
    simp [seen.kind, seen.newlineBefore]
  dsimp only
  rw [if_pos value]
  refine .bind (nextLeaf_parses (by simp)) fun _ second =>
    .bind (optionalLeaf_no noSemicolon) fun _ last => ?_
  exact ((first.append (second.map_withField field)).append last).node (by simp) noError

theorem modParam_parses
    (h : ∀ {p s}, Parses a p ls s (argumentList topLevel) rest (Gets a o))
    (noSemicolon : Without .semicolon rest) :
    Parses a p (⟨.identifier, "modparam".toList, newline, adjacent⟩ :: ls) s modParam rest
      (Shows a [·] [nodeOf Kind.modParam [keyword "modparam", labelled Field.arguments o]]) := by
  refine .bind (nextKeyword_parses rfl rfl) fun _ first => .bind h fun out gets => ?_
  obtain ⟨d, rfl, shows⟩ := gets
  refine .bind (optionalLeaf_no noSemicolon) fun _ last => ?_
  exact ((first.append (shows.withField Field.arguments)).append last).node (by simp) (by decide)

theorem routeBody_parses {children : List Draft} (shows : Shows a children os)
    (h : ∀ {p s}, Parses a p (⟨.lBrace, ['{'], newline, adjacent⟩ :: ls) s (compound topLevel) rest
      (Shows a [·] [o])) :
    Parses a p (⟨.lBrace, ['{'], newline, adjacent⟩ :: ls) s (routeBody children) rest
      (Shows a [·] [nodeOf Kind.routeDefinition (os ++ [labelled Field.body o])]) :=
  .isAt_yes (.bind h fun _ taken =>
    (shows.append (taken.withField Field.body)).node (by simp) (by decide))

theorem routeName_parses {adjacent'' : Bool} :
    Parses a p (⟨.lBracket, ['['], newline, adjacent⟩ :: ⟨.identifier, text, false, adjacent'⟩
      :: ⟨.rBracket, [']'], newline', adjacent''⟩ :: ls) s routeName ls fun out => ∃ ds,
        out = (ds, true) ∧ Shows a ds [sign .lBracket,
          labelled Field.name (nodeOf Kind.routeName [leaf Kind.identifier text]),
          sign .rBracket] := by
  refine .bind (nextLeaf_parses (by simp)) fun _ first => ?_
  have words {p s} : Parses a p (⟨.identifier, text, false, adjacent'⟩
      :: ⟨.rBracket, [']'], newline', adjacent''⟩ :: ls) s (collectWhile fun t => !endsRouteName t)
      _ (Shows a · [leaf Kind.identifier text]) :=
    collectWhile_one (fun _ _ _ seen => by simp [endsRouteName, seen.kind, Token.Look.token])
      (by simp) rfl (by rintro _ ⟨rfl⟩; rfl)
  refine .bind words fun ds name => ?_
  have some_word : ds.isEmpty = false := by
    simpa using name.nonempty (by simp)
  rw [some_word]
  refine .bind (name.node (by simp) (by decide)) fun d shows => .pure_bind (.isAt_yes ?_)
  refine .bind (nextLeaf_parses (by simp)) fun _ last => .pure ⟨_, rfl, ?_⟩
  exact (first.append (shows.withField Field.name)).append last

/-- A route without a name. -/
theorem routeDefinition_parses
    (h : ∀ {p s}, Parses a p (⟨.lBrace, ['{'], newline', adjacent'⟩ :: ls) s (compound topLevel) rest
      (Shows a [·] [o])) :
    Parses a p (⟨.identifier, text, newline, adjacent⟩ :: ⟨.lBrace, ['{'], newline', adjacent'⟩
      :: ls) s routeDefinition rest (Shows a [·] [nodeOf Kind.routeDefinition
        [labelled Field.routeType (leaf Kind.routeType text), labelled Field.body o]]) := by
  refine .next fun t seen => .isAt_no (without_cons (by simp)) ?_
  have type := (seen.named Kind.routeType (by decide) (by decide)).withField Field.routeType
  exact routeBody_parses type h

theorem namedRoute_parses {type : List Char} {opens closes : Bool}
    (h : ∀ {p s}, Parses a p (⟨.lBrace, ['{'], newline', adjacent'⟩ :: ls) s (compound topLevel) rest
      (Shows a [·] [o])) :
    Parses a p (⟨.identifier, type, newline, adjacent⟩ :: ⟨.lBracket, ['['], false, true⟩
      :: ⟨.identifier, text, false, opens⟩ :: ⟨.rBracket, [']'], false, closes⟩
      :: ⟨.lBrace, ['{'], newline', adjacent'⟩ :: ls) s routeDefinition rest
      (Shows a [·] [nodeOf Kind.routeDefinition
        [labelled Field.routeType (leaf Kind.routeType type), sign .lBracket,
          labelled Field.name (nodeOf Kind.routeName [leaf Kind.identifier text]), sign .rBracket,
          labelled Field.body o]]) := by
  refine .next fun t seen => .isAt_yes (.bind routeName_parses fun out named => ?_)
  obtain ⟨ds, rfl, shows⟩ := named
  have type := (seen.named Kind.routeType (by decide) (by decide)).withField Field.routeType
  exact routeBody_parses (type.append shows) h

theorem globalAssignment_parses {value : List Char} {close : Bool}
    (ends : ∀ l, ls.head? = some l → l.newlineBefore) :
    Parses a p (⟨.identifier, text, newline, adjacent⟩ :: ⟨.assign, ['='], newline', adjacent'⟩
      :: ⟨.number, value, false, close⟩ :: ls) s globalAssignment ls
      (Shows a [·] [nodeOf Kind.globalAssignment [labelled Field.key (leaf Kind.identifier text),
        sign .assign,
        labelled Field.value (nodeOf Kind.coreValue [leaf Kind.number value])]]) := by
  refine .bind (nextLeaf_parses (by simp)) fun _ key => ?_
  refine .bind (nextLeaf_parses (by simp)) fun _ equals => ?_
  have words {p s} : Parses a p (⟨.number, value, false, close⟩ :: ls) s
      (collectWhile fun t => !endsValue t) ls (Shows a · [leaf Kind.number value]) :=
    collectWhile_one
      (fun _ _ _ seen => by simp [endsValue, seen.kind, seen.newlineBefore, Token.Look.token])
      (by simp) rfl fun l hl => by simp [endsValue, ends l hl, Token.Look.token]
  refine .bind words fun ds number => ?_
  have some_word : ds.isEmpty = false := by
    simpa using number.nonempty (by simp)
  rw [some_word]
  refine .bind (number.node (by simp) (by decide)) fun d shows => .pure_bind ?_
  have children := ((key.map_withField Field.key).append equals).append
    (shows.withField Field.value)
  cases ls with
  | nil => exact .peek_nil (children.node (by simp) (by decide))
  | cons l ls =>
    refine .peek fun t seen => ?_
    have onward : ¬ (t.kind == .semicolon && !t.newlineBefore) = true := by
      simp [seen.newlineBefore, ends l rfl]
    dsimp only
    rw [if_neg onward]
    exact children.node (by simp) (by decide)

theorem wordItem_parses {word : String} {read : Reader Draft}
    (seen : Seen a ⟨.identifier, text, newline, adjacent⟩ t) (same : text = word.toList)
    (item : wordItem word (ls.head?.map Token.Look.kind) = read)
    (h : Parses a p (⟨.identifier, text, newline, adjacent⟩ :: ls) s read rest post) :
    Parses a p (⟨.identifier, text, newline, adjacent⟩ :: ls) s (topLevelItem t) rest post := by
  have known : t.word = word := by rw [seen.word, same, String.ofList_toList]
  unfold topLevelItem
  rw [seen.kind, known]
  refine .peekSecondKind ?_
  rw [item]
  exact h

/-- What stands behind a line begins a new one. -/
theorem looks_newline {bits : List Bit} {adjacent : Bool} :
    ∀ l, (Bit.looks true adjacent bits).head? = some l → l.newlineBefore := by
  induction bits generalizing adjacent with
  | nil => simp [Bit.looks]
  | cons b bits ih =>
    cases b with
    | gap text => exact ih
    | token kind text =>
      unfold Bit.looks
      split
      · exact ih
      · rintro _ ⟨rfl⟩
        rfl

theorem route_known (type : RouteType) {following : Option Token.Kind}
    (opens : following = some .lBracket ∨ following = some .lBrace) :
    wordItem type.word following = routeDefinition := by
  have known := type.known
  simp only [Vocabulary.routeTypes, List.mem_cons, List.not_mem_nil, or_false] at known
  rcases opens with rfl | rfl
  all_goals rcases known with h | h | h | h | h | h | h | h | h <;> rw [h] <;> rfl

section Printed

variable {bits : List Bit}

/-- The body of a route. -/
theorem routeBlock_parses {body : List Stmt} (enough : Stmt.nestingAll body + 3 ≤ maxNesting) :
    Parses a p (Bit.looks false false (opening (Stmt.bitsAll 1 body
      (closing 0 (.newline :: bits))))) s (compound topLevel) (Bit.looks true false bits)
      (Shows a [·] [block (Stmt.outlinesAll body)]) := by
  have lines (opening : Token) : Runs a maxNesting opening (Bit.looks true false
      (Stmt.bitsAll 1 body (closing 0 (.newline :: bits)))) _ _ :=
    statements_run body (k := 61) (Nat.le_of_add_le_add_right enough) rfl
  exact printedBlock_parses lines

/-- Every item is read from the start of its line on. -/
theorem item_parses {i : Item} (enough : i.nesting + 3 ≤ maxNesting)
    (noSemicolon : Without .semicolon (Bit.looks true false bits)) :
    ∃ l ls, Bit.looks true false (i.bits bits) = l :: ls ∧ ∀ {p s t}, Seen a l t →
      Parses a p (l :: ls) s (topLevelItem t) (Bit.looks true false bits)
        (Shows a [·] [i.outline]) := by
  cases i with
  | parameter name value =>
    have other := not_keyword name.free
    have known : wordItem (String.ofList name.text) (some .assign) = globalAssignment := by
      unfold wordItem
      simp [other "loadmodule" (by decide), other "loadpath" (by decide),
        other "include_file" (by decide), other "import_file" (by decide)]
    exact ⟨_, _, rfl, fun seen => wordItem_parses seen (by simp) known
      (globalAssignment_parses looks_newline)⟩
  | loadModule file =>
    exact ⟨_, _, rfl, fun seen => wordItem_parses seen rfl rfl
      (stringItem_parses rfl (by decide) noSemicolon)⟩
  | modParam file key value =>
    have values : ∀ e ∈ [Expr.string file, .string key, .number value], Readable a 63 e :=
      readable_all _ (Nat.zero_le 63)
    exact ⟨_, _, rfl, fun seen => wordItem_parses seen rfl rfl
      (modParam_parses (argumentList_bits values) noSemicolon)⟩
  | assign scope name value =>
    refine ⟨_, _, rfl, fun {p s t} seen => ?_⟩
    unfold topLevelItem
    rw [seen.kind]
    exact assign_parses scope name (k := 61) (Nat.le_of_add_le_add_right enough)
  | route type name body =>
    simp only [Item.nesting] at enough
    cases name with
    | none =>
      exact ⟨_, _, rfl, fun seen => wordItem_parses seen rfl (route_known type (.inr rfl))
        (routeDefinition_parses (routeBlock_parses (by omega)))⟩
    | some name =>
      exact ⟨_, _, rfl, fun seen => wordItem_parses seen rfl (route_known type (.inl rfl))
        (namedRoute_parses (routeBlock_parses (by omega)))⟩

/-- No item starts with a semicolon. -/
theorem without_semicolon (items : List Item) :
    Without .semicolon (Bit.looks true false (items.foldr Item.bits [])) := by
  cases items with
  | nil => simp [Without, Bit.looks]
  | cons i items =>
    cases i with
    | route type name body => cases name <;> exact without_cons (by simp)
    | _ => exact without_cons (by simp)

end Printed

theorem itemStep_goes {children : List Draft} (listed : Listed a children os)
    (item : ∀ {p s t}, Seen a l t →
      Parses a p (l :: ls) s (topLevelItem t) mid (Shows a [·] [o])) :
    Parses a p (l :: ls) s (itemStep children) mid
      fun out => ∃ children', out = .inl children' ∧ Listed a children' (os ++ [o]) := by
  refine .peek fun t seen => .bind (item seen) fun d shows => ?_
  exact .bind (listed.place shows) fun children' placed => .pure ⟨_, rfl, placed.1⟩

theorem itemStep_stops {children : List Draft} (listed : Listed a children os) :
    Parses a p [] s (itemStep children) []
      fun out => ∃ children', out = .inr children' ∧ Listed a children' os := by
  apply Parses.peek_nil
  exact .bind listed.flush fun children' flushed => .pure ⟨_, rfl, flushed⟩

/-- Printed items are read one after the other. -/
theorem items_parse (items : List Item) (enough : ∀ i ∈ items, i.nesting + 3 ≤ maxNesting)
    {children : List Draft} (listed : Listed a children os) :
    Parses a p (Bit.looks true false (items.foldr Item.bits [])) s
      (repeatUntil itemStep id children) [] (Listed a · (os ++ items.map Item.outline)) := by
  induction items generalizing p s children os with
  | nil =>
    rw [List.map_nil, List.append_nil]
    exact .finish itemStep_advancing trivial (itemStep_stops listed)
  | cons i items ih =>
    obtain ⟨l, ls, looks, item⟩ := item_parses (a := a) (enough i (by simp))
      (without_semicolon items)
    have later : ∀ i ∈ items, i.nesting + 3 ≤ maxNesting := fun j hj => enough j (by simp [hj])
    have whole : os ++ (i :: items).map Item.outline
        = os ++ [i.outline] ++ items.map Item.outline := by simp
    rw [List.foldr_cons, looks, whole]
    exact .round itemStep_advancing trivial (itemStep_goes listed item)
      fun children' listed' => ih later listed'

theorem ahead_ofText (a : List Char) :
    Ahead a none (Token.looks none ((Token.all a).filter Token.isSignificant)) (.ofText a) := by
  refine ⟨(whole_ofText a).settle.sound, rfl, ?_⟩
  simp only [Stream.ofText, Stream.settle, filter_dropWhile_trivia]

/-- The items of a printed program are read one after the other. -/
theorem listed_code (p : Program) (shallow : p.nesting ≤ 50) :
    Listed p.code (items (.ofText p.code)).1 (p.items.map Item.outline) := by
  have enough : ∀ i ∈ p.items, i.nesting + 3 ≤ maxNesting := by
    intro i hi
    have deep : i.nesting ≤ p.nesting :=
      List.le_max_of_le' 0 (List.mem_map_of_mem hi) (Nat.le_refl _)
    have limit : maxNesting = 64 := rfl
    omega
  have start := ahead_ofText p.code
  rw [p.looks_code] at start
  exact (items_parse p.items enough ⟨rfl, List.forall_mem_nil _⟩ start).1

end RouteScript.Script

namespace RouteScript.Tree

open Script

variable {text : List Char} {os : List Outline}

/-- A script the items of which are known has no error. -/
theorem noError_of_listed (h : Listed text (items (.ofText text)).1 os) :
    (ofScript text).hasError = false := by
  have clean : (draft text).Clean := Draft.clean_node.2 ⟨rfl, h.clean⟩
  rw [hasError, List.any_eq_false]
  intro e he
  have := clean e.tag (labels_ofScript text ▸ List.mem_map_of_mem he)
  simp [this]

theorem outline_of_listed (h : Listed text (items (.ofText text)).1 os) :
    (ofScript text).outline = .nodeOf Kind.sourceFile os := by
  unfold outline
  rw [thaw_ofScript]
  exact congrArg _ h.outlines

theorem noError_code (p : Program) (shallow : p.nesting ≤ 50) :
    (ofScript p.code).hasError = false := noError_of_listed (listed_code p shallow)

/-- A printed program is read back: its tree has no error and the shape of the program. -/
theorem ofScript_code (p : Program) (shallow : p.nesting ≤ 50) :
    (ofScript p.code).hasError = false ∧ (ofScript p.code).outline = p.outline
      ∧ (ofScript p.code).root.sexp = p.outline.sexp := by
  have shape : (ofScript p.code).outline = p.outline := by
    unfold outline
    rw [thaw_ofScript]
    exact congrArg _ (listed_code p shallow).outlines
  exact ⟨noError_code p shallow, shape, by rw [sexp_root, shape]⟩

/-- A module, and a route that drops where a header is missing. -/
def guardedRoute : Program :=
  ⟨[.loadModule ⟨"tm.so".toList, rfl⟩,
    .route ⟨"route", by decide⟩ (some ⟨"GUARD".toList, rfl, rfl, by decide⟩)
      [.branch (.binary (.builtin ⟨"hdr".toList, rfl, rfl, by decide⟩
          (some ⟨"Via".toList, rfl, rfl, by decide⟩)) ⟨.eq, rfl⟩ (.number 0)) [.drop] none]]⟩

theorem ofScript_code_guarded :
    guardedRoute.code
        = "loadmodule \"tm.so\"\nroute[GUARD] \x7b\n\tif (($hdr(Via) == 0)) \x7b\n".toList
          ++ "\t\tdrop;\n\t\x7d\n\x7d\n".toList
      ∧ (ofScript guardedRoute.code).hasError = false
      ∧ (ofScript guardedRoute.code).outline = guardedRoute.outline
      ∧ (ofScript guardedRoute.code).root.sexp = guardedRoute.outline.sexp :=
  ⟨by decide, ofScript_code guardedRoute (by decide)⟩

end RouteScript.Tree
