import RouteScript.Proofs.Formed.Items
import RouteScript.Proofs.Hover
import RouteScript.Proofs.Scanned
/-!
# Names of user variables

The name of a user variable is a run of tokens, of which a script keeps the last identifier. That is
the whole name, or what stands behind its prefix, exactly if it is an identifier. Names that are no
identifiers lose a part of themselves, and variables with different names may become one.
-/
namespace RouteScript

namespace Cut

variable {gap : Char → Bool} {source : List Char} {p q : Spot} {ts : List Token} {t : Token}
  {test : Token → Bool}

/-- A cut may start with the first piece that passes a test. -/
theorem from_first (h : Cut gap p ts q) (inside : p.In source)
    (head : (ts.filter test).head? = some t) : ∃ p' us, p'.In source ∧ p'.offset = t.start ∧
      Cut gap p' us q ∧ us ⊆ ts ∧ us.filter test = ts.filter test := by
  obtain ⟨more, kept⟩ := List.head?_eq_some_iff.1 head
  obtain ⟨front, behind, rfl, others, _, _⟩ := List.filter_eq_cons_iff.1 kept
  obtain ⟨m, left, right⟩ := h.split
  obtain ⟨p', start, lead, right⟩ := right.start_eq rfl
  have nothing : front.filter test = [] := List.filter_eq_nil_iff.2 others
  exact ⟨p', t :: behind, lead.place (left.place inside), start, right, by simp, by simp [nothing]⟩

/-- And it may end with the last one. -/
theorem to_last (h : Cut gap p ts q) (last : (ts.filter test).getLast? = some t) :
    ∃ rest us, Cut gap p us ⟨t.stop, rest⟩ ∧ us ⊆ ts ∧ us.filter test = ts.filter test := by
  obtain ⟨more, kept⟩ := List.getLast?_eq_some_iff.1 last
  obtain ⟨front, behind, rfl, before, kept⟩ := List.filter_eq_append_iff.1 kept
  obtain ⟨between, after, rfl, others, passes, none⟩ := List.filter_eq_cons_iff.1 kept
  have nonempty : t.text ≠ [] := h.nonempty t (by simp)
  rw [← List.append_assoc] at h
  obtain ⟨m, left, right⟩ := h.split
  obtain ⟨⟨offset, chars⟩, start, lead, right⟩ := right.start_eq rfl
  obtain ⟨rest, text, _⟩ := right.head_eq start
  simp only at start text
  subst start text
  refine ⟨rest, (front ++ between) ++ ([] ++ [t]), left.append (lead.append (.piece nonempty
    (.done _))), by simp, ?_⟩
  have nothing : between.filter test = [] := List.filter_eq_nil_iff.2 others
  simp [nothing, none, passes]

end Cut

theorem Token.ScannedIn.slice {source : List Char} {t : Token} (h : t.ScannedIn source) :
    Text.slice source t.start t.stop = t.text := by
  obtain ⟨_, c, rest, n, inside, _, _, text⟩ := h
  rw [← List.take_append_drop n (c :: rest), ← text] at inside
  rw [Text.slice, Token.stop, inside.slice?]
  rfl

namespace Draft

variable {source : List Char} {ds : List Draft} {first last : Draft}

/-- What the leaves of successive tokens cover is cut into these tokens, comments among them. -/
theorem LeavesIn.exists_cut (h : LeavesIn source ds) (head : ds.head? = some first)
    (tail : ds.getLast? = some last) : ∃ inner after ts,
      Spot.In source ⟨first.start, inner ++ after⟩ ∧
      Cut Token.Scan.isGap ⟨first.start, inner ++ after⟩ ts ⟨last.stop, after⟩ ∧
      (∀ t ∈ ts, t.ScannedIn source) ∧
      ds = (ts.filter Token.isSignificant).map Script.tokenLeaf := by
  obtain ⟨p, q, ts, inside, cut, scanned, rfl⟩ := h
  rw [List.head?_map] at head
  rw [List.getLast?_map] at tail
  obtain ⟨t, ht, rfl⟩ := Option.map_eq_some_iff.1 head
  obtain ⟨u, hu, rfl⟩ := Option.map_eq_some_iff.1 tail
  obtain ⟨⟨offset, chars⟩, us, inside, start, cut, sub, same⟩ := cut.from_first inside ht
  obtain ⟨after, vs, cut, sub', same'⟩ := cut.to_last (same ▸ hu)
  obtain ⟨inner, text, _⟩ := cut.exists_text
  simp only at start text
  subst start text
  obtain ⟨_, _, leaf, _⟩ := tokenLeaf_eq t
  obtain ⟨_, _, leaf', _⟩ := tokenLeaf_eq u
  rw [leaf, leaf']
  exact ⟨inner, after, vs, inside, cut, fun v hv => scanned v (sub (sub' hv)), by rw [same', same]⟩

end Draft

namespace Tree

variable {text : List Char} {marker name c : Cursor}

theorem kind_name (hmarker : marker ∈ (ofScript text).cursors)
    (user : marker.kind ∈ Draft.userKinds) (role : marker.child? Field.name = some name) :
    name.kind = Kind.variableName := by
  have shaped : Draft.WellFormed text marker.draft :=
    Script.draft_formed text _ (Draft.thaw_mem_nodes hmarker)
  have field : name.node.field? = some Field.name := by simpa using List.find?_some role
  have below : name.draft ∈ marker.draft.children := by
    rw [← marker.map_draft_children]
    exact List.mem_map_of_mem (List.mem_of_find?_eq_some role)
  rw [name.kind_eq]
  exact shaped.user (marker.kind_eq ▸ user) _ below (by rw [name.label_draft]; exact field)

/-- The text of a name is cut into tokens, and the children of the name that are not extra are
their leaves. -/
theorem name_cut (hname : name ∈ (ofScript text).cursors) (kind : name.kind = Kind.variableName)
    (hc : c ∈ name.children) : ∃ after ts, let inner := name.textIn (ofScript text)
      Spot.In text ⟨name.node.start, inner ++ after⟩ ∧
      Cut Token.Scan.isGap ⟨name.node.start, inner ++ after⟩ ts ⟨name.node.stop, after⟩ ∧
      (∀ t ∈ ts, t.ScannedIn text) ∧
      (name.draft.children.filter fun d => !d.label.extra) =
        (ts.filter Token.isSignificant).map Script.tokenLeaf := by
  have leaves : Draft.LeavesIn text (name.draft.children.filter fun d => !d.label.extra) :=
    (Script.draft_formed text _ (Draft.thaw_mem_nodes hname)).name (name.kind_eq ▸ kind)
  have framed := framed_cursor hname (by rw [kind]; decide)
  have some_child : name.draft.children ≠ [] := by
    rw [← name.map_draft_children]
    exact List.ne_nil_of_mem (List.mem_map_of_mem hc)
  obtain ⟨first, head⟩ := Option.isSome_iff_exists.1 (List.isSome_head?.2 some_child)
  obtain ⟨last, tail⟩ := Option.isSome_iff_exists.1 (List.getLast?_isSome.2 some_child)
  obtain ⟨notExtra, start⟩ := framed.first first head
  obtain ⟨stop, closed⟩ := framed.last last tail
  have no_block : name.draft.isUnclosed = false := by
    simp [Draft.isUnclosed, ← name.kind_eq, kind, Kind.variableName, Kind.compoundStatement]
  have notExtra' : last.label.extra = false := by
    by_contra extra
    rw [closed (by simpa using extra)] at no_block
    contradiction
  have head' : (name.draft.children.filter fun d => !d.label.extra).head? = some first := by
    obtain ⟨more, eq⟩ := List.head?_eq_some_iff.1 head
    simp [eq, notExtra]
  have tail' : (name.draft.children.filter fun d => !d.label.extra).getLast? = some last := by
    obtain ⟨more, eq⟩ := List.getLast?_eq_some_iff.1 tail
    simp [eq, notExtra']
  obtain ⟨inner, after, ts, inside, cut, scanned, eq⟩ := leaves.exists_cut head' tail'
  rw [start, ← name.start_eq] at inside cut
  rw [stop, ← name.stop_eq] at cut
  have covered : name.textIn (ofScript text) = inner := by
    change (Text.slice? text name.node.start name.node.stop).getD [] = inner
    rw [cut.stop_eq, inside.slice?]
    rfl
  exact ⟨after, ts, covered ▸ inside, covered ▸ cut, scanned, eq⟩

theorem isIdentifier_tokenLeaf (t : Token) : ((Script.tokenLeaf t).label.named &&
    (Script.tokenLeaf t).label.kind == Kind.identifier) = (t.kind == .identifier) := by
  obtain ⟨kind, text, start, newline⟩ := t
  cases kind <;> rfl

/-- The last identifier in a name is the last identifier among its tokens. -/
theorem exists_last_identifier {ts : List Token} {word : Cursor}
    (hname : name ∈ (ofScript text).cursors) (scanned : ∀ t ∈ ts, t.ScannedIn text)
    (leaves : (name.draft.children.filter fun d => !d.label.extra) =
      (ts.filter Token.isSignificant).map Script.tokenLeaf)
    (last : (name.namedChildren.filter fun c => c.kind == Kind.identifier).getLast? = some word) :
    ∃ t, (ts.filter (·.kind == .identifier)).getLast? = some t ∧
      word.textIn (ofScript text) = t.text := by
  let isWord (t : Tag) : Bool := t.named && t.kind == Kind.identifier
  have identifiers : (name.namedChildren.filter fun c => c.kind == Kind.identifier) =
      name.children.filter fun c => isWord c.node.tag && !c.node.tag.extra := by
    rw [Cursor.namedChildren, List.filter_filter]
    refine List.filter_congr fun c hc => ?_
    cases extra : c.notExtra with
    | true =>
      have notExtra : c.node.tag.extra = false := by
        simpa [Cursor.notExtra, Node.notExtra, Node.isExtra] using extra
      simp [notExtra, isWord, Bool.and_comm, Cursor.isNamed, Node.isNamed, Cursor.kind, Node.kind]
    | false =>
      have kinds := kind_of_extra (Cursor.mem_preorder_of_child hname hc) extra
      have other : c.kind ≠ Kind.identifier := fun same =>
        absurd (same ▸ kinds) (by decide : Kind.identifier ∉ extraKinds)
      have extra : c.node.tag.extra = true := by
        simpa [Cursor.notExtra, Node.notExtra, Node.isExtra] using extra
      simp [other, extra]
  have drafts : (name.namedChildren.filter fun c => c.kind == Kind.identifier).map Cursor.draft =
      (ts.filter (·.kind == .identifier)).map Script.tokenLeaf := by
    rw [identifiers, name.map_draft_filter fun t => isWord t && !t.extra, ← List.filter_filter,
      leaves, List.filter_map, List.filter_filter]
    refine congrArg _ (List.filter_congr fun t _ => ?_)
    have significant : t.kind = .identifier → t.isSignificant := fun same => by
      simp [Token.isSignificant, Token.isTrivia, same, Token.Kind.isTrivia]
    simp only [Function.comp_apply, isWord, isIdentifier_tokenLeaf]
    by_cases same : t.kind = .identifier
    · simp [same, significant same]
    · simp [same]
  have ends := congrArg List.getLast? drafts
  rw [List.getLast?_map, last, List.getLast?_map] at ends
  obtain ⟨t, ht, leaf⟩ := Option.map_eq_some_iff.1 ends.symm
  refine ⟨t, ht, ?_⟩
  have there := scanned t (List.mem_filter.1 (List.mem_of_getLast? ht)).1
  obtain ⟨_, _, eq, _⟩ := Draft.tokenLeaf_eq t
  change Text.slice text word.node.start word.node.stop = t.text
  rw [word.start_eq, word.stop_eq, ← leaf, eq]
  exact there.slice

end Tree

namespace Variable

/-- The node of the name in the target of an assignment. -/
def nameOf? (assignment : Cursor) : Option Cursor := do
  let target ← assignment.child? Field.left
  let content ← target.significantChildren.find? fun c => c.kind == Kind.pseudoContent
  let marker ← content.significantChildren.head?
  marker.child? Field.name

/-- A name without its prefix, a word that a colon ends, and the gaps behind it. -/
def withoutPrefix (name : List Char) : List Char :=
  let behind := name.dropWhile Token.Lexeme.isWordChar
  if behind.head? = some ':' then behind.tail.dropWhile Token.Scan.isGap else name

/-- What the target of an assignment is called, without a prefix. -/
def written? (t : Tree) (assignment : Cursor) : Option (List Char) :=
  (nameOf? assignment).map fun name => withoutPrefix (name.textIn t)

theorem withoutPrefix_cases (name : List Char) : withoutPrefix name = name ∨
    ∃ word gaps : List Char, word.all Token.Lexeme.isWordChar ∧ (∀ c ∈ gaps, Token.Scan.isGap c) ∧
      name = word ++ ':' :: (gaps ++ withoutPrefix name) := by
  by_cases colon : (name.dropWhile Token.Lexeme.isWordChar).head? = some ':'
  · obtain ⟨behind, eq⟩ := List.head?_eq_some_iff.1 colon
    have part : withoutPrefix name = behind.dropWhile Token.Scan.isGap := by
      simp [withoutPrefix, eq]
    refine .inr ⟨name.takeWhile Token.Lexeme.isWordChar, behind.takeWhile Token.Scan.isGap,
      List.all_takeWhile, fun c hc => List.mem_takeWhile_imp hc, ?_⟩
    rw [part, List.takeWhile_append_dropWhile, ← eq, List.takeWhile_append_dropWhile]
  · exact .inl (if_neg colon)

theorem qualify_inj {s : Scope} {a b : String} (h : s.qualify a = s.qualify b) : a = b := by
  unfold Scope.qualify at h
  simpa [← String.toList_inj] using h

theorem userKind_of_ofKind? {kind : String} {s : Scope} (known : Scope.ofKind? kind = some s) :
    kind ∈ Draft.userKinds := by
  by_contra other
  have none : Scope.ofKind? kind = none := by
    simp only [Draft.userKinds, List.mem_cons, List.not_mem_nil, or_false, not_or] at other
    simp [Scope.ofKind?, other]
  rw [none] at known
  contradiction

section Script

variable {text : List Char} {c c' : Cursor} {v v' : Variable}

/-- A recorded variable has a name, which holds an identifier. -/
theorem exists_name (hc : c ∈ (Tree.ofScript text).cursors)
    (recorded : ofAssignment? (.ofScript text) c = some v) :
    ∃ name word, nameOf? c = some name ∧ name ∈ (Tree.ofScript text).cursors ∧
      name.kind = Kind.variableName ∧
      (name.namedChildren.filter fun c => c.kind == Kind.identifier).getLast? = some word ∧
      v.identifier = word.wordIn (.ofScript text) ∧ v.name = v.scope.qualify v.identifier := by
  have below {c d : Cursor} (hc : c ∈ (Tree.ofScript text).cursors)
      (hd : d ∈ c.significantChildren) : d ∈ (Tree.ofScript text).cursors :=
    Cursor.mem_preorder_of_child hc (List.mem_filter.1 hd).1
  obtain ⟨target, left, _⟩ := Option.bind_eq_some_iff.1 recorded
  have htarget := Cursor.mem_preorder_of_child hc (List.mem_of_find?_eq_some left)
  obtain ⟨_, content, marker, hcontent, hmarker, scope, identifier, qualified⟩ :=
    Hover.exists_of_ofAssignment? recorded left
  have inside := below (below htarget (List.mem_of_find?_eq_some hcontent))
    (List.mem_of_head? hmarker)
  obtain ⟨name, hname, identifier⟩ := Option.bind_eq_some_iff.1 identifier
  obtain ⟨word, hword, identifier⟩ := Option.bind_eq_some_iff.1 identifier
  refine ⟨name, word, ?_, Cursor.mem_preorder_of_child inside (List.mem_of_find?_eq_some hname),
    Tree.kind_name inside (userKind_of_ofKind? scope) hname, hword,
    (Option.some.inj identifier).symm, qualified⟩
  simp [nameOf?, left, hcontent, hmarker, hname]

/-- What a recorded variable keeps of its name. -/
theorem identifier_eq_iff (hc : c ∈ (Tree.ofScript text).cursors)
    (recorded : ofAssignment? (.ofScript text) c = some v) :
    ∃ word, written? (.ofScript text) c = some word ∧
      (v.identifier.toList = word ↔ Token.single? word = some .identifier) := by
  obtain ⟨name, word, found, hname, kind, last, identifier, _⟩ := exists_name hc recorded
  have child : word ∈ name.children :=
    (List.mem_filter.1 (List.mem_filter.1 (List.mem_of_getLast? last)).1).1
  obtain ⟨after, ts, inside, cut, scanned, leaves⟩ := Tree.name_cut hname kind child
  obtain ⟨t, ht, same⟩ := Tree.exists_last_identifier hname scanned leaves last
  obtain ⟨member, isIdentifier⟩ := List.mem_filter.1 (List.mem_of_getLast? ht)
  refine ⟨withoutPrefix (name.textIn (.ofScript text)), by simp [written?, found], ?_⟩
  have kept : v.identifier.toList = t.text := by
    rw [identifier, Cursor.wordIn, same, String.toList_ofList]
  rw [kept]
  refine ⟨fun whole => whole ▸ (scanned t member).single? (eq_of_beq isIdentifier),
    fun single => ?_⟩
  -- the identifier at the end of the name is its last token
  obtain ⟨front, u, rfl, kind, text⟩ : ∃ front u, ts = front ++ [u] ∧ u.kind = .identifier ∧
      u.text = withoutPrefix (name.textIn (.ofScript text)) := by
    rcases withoutPrefix_cases (name.textIn (.ofScript text)) with
      whole | ⟨word, gaps, all, gap, parted⟩
    · rw [whole] at single ⊢
      obtain ⟨u, rfl, kind, text⟩ := cut.identifier single inside scanned
      exact ⟨[], u, rfl, kind, text⟩
    · generalize withoutPrefix (name.textIn (.ofScript text)) = bare at single parted ⊢
      rw [parted, List.append_assoc, List.cons_append] at inside cut
      obtain ⟨front, us, offset, rfl, place, behind⟩ := cut.colon all inside scanned
      have scanned (u : Token) (hu : u ∈ us) := scanned u (List.mem_append_right _ hu)
      have stop := behind.stop_eq
      rw [List.append_assoc] at place behind
      have reach : offset + Text.size gaps ≤ name.node.stop := by
        rw [stop, Text.size_append]
        omega
      obtain ⟨u, rfl, kind, text⟩ := (behind.past_gaps gap reach place scanned).identifier single
        (place.skip gaps) scanned
      exact ⟨front, u, rfl, kind, text⟩
  have only : t = u := by simpa [kind] using ht.symm
  rw [only, text]

/--
In a script, what a variable is recorded under is its written name without the prefix exactly if
that is an identifier. Two variables of one class with such names are recorded under one name
exactly if they are written alike.
-/
theorem ofAssignment?_name (hc : c ∈ (Tree.ofScript text).cursors)
    (hc' : c' ∈ (Tree.ofScript text).cursors)
    (recorded : ofAssignment? (.ofScript text) c = some v)
    (recorded' : ofAssignment? (.ofScript text) c' = some v') :
    ∃ word word', written? (.ofScript text) c = some word ∧
      written? (.ofScript text) c' = some word' ∧
      (v.identifier.toList = word ↔ Token.single? word = some .identifier) ∧
      (v.scope = v'.scope → Token.single? word = some .identifier →
        Token.single? word' = some .identifier → (v.name = v'.name ↔ word = word')) := by
  obtain ⟨_, _, _, _, _, _, _, qualified⟩ := exists_name hc recorded
  obtain ⟨_, _, _, _, _, _, _, qualified'⟩ := exists_name hc' recorded'
  obtain ⟨word, written, identifier⟩ := identifier_eq_iff hc recorded
  obtain ⟨word', written', identifier'⟩ := identifier_eq_iff hc' recorded'
  refine ⟨word, word', written, written', identifier, fun scope single single' => ?_⟩
  have names : v.name = v'.name ↔ v.identifier = v'.identifier := by
    rw [qualified, qualified', scope]
    exact ⟨qualify_inj, congrArg _⟩
  rw [names, ← identifier.2 single, ← identifier'.2 single', String.toList_inj]

end Script

/-- A name with a prefix and one without. -/
theorem ofAssignment?_name_prefix :
    let t := Tree.ofScript "$avp(s:caller) = 1;\n$avp(callee) = 2;\n".toList
    ∃ c ∈ t.cursors, ∃ c' ∈ t.cursors, ∃ v v', ofAssignment? t c = some v ∧
      ofAssignment? t c' = some v' ∧ v.identifier.toList = "caller".toList ∧
      v.name ≠ v'.name := by
  intro t
  have assigned : ∃ c ∈ t.cursors, ((ofAssignment? t c).map scope = some .transaction ∧
      written? t c = some "caller".toList) ∧ ∃ c' ∈ t.cursors,
        (ofAssignment? t c').map scope = some .transaction ∧
        written? t c' = some "callee".toList := by
    decide +kernel
  obtain ⟨c, hc, ⟨there, written⟩, c', hc', there', written'⟩ := assigned
  obtain ⟨v, recorded, scope⟩ := Option.map_eq_some_iff.1 there
  obtain ⟨v', recorded', scope'⟩ := Option.map_eq_some_iff.1 there'
  obtain ⟨word, word', found, found', identifier, names⟩ :=
    ofAssignment?_name hc hc' recorded recorded'
  obtain rfl := Option.some.inj (written.symm.trans found)
  obtain rfl := Option.some.inj (written'.symm.trans found')
  refine ⟨c, hc, c', hc', v, v', recorded, recorded', identifier.2 (by decide), ?_⟩
  rw [ne_eq, names (scope.trans scope'.symm) (by decide) (by decide)]
  decide

/-- Two numbers behind a prefix, which are both recorded as the prefix. -/
theorem ofAssignment?_name_number :
    let t := Tree.ofScript "$avp(i:10) = 1;\n$avp(i:20) = 2;\n".toList
    (∃ c ∈ t.cursors, (ofAssignment? t c).map (fun v => (v.scope, v.name, v.identifier)) =
      some (.transaction, "$avp(i)", "i") ∧ written? t c = some "10".toList) ∧
    ∃ c ∈ t.cursors, (ofAssignment? t c).map (fun v => (v.scope, v.name, v.identifier)) =
      some (.transaction, "$avp(i)", "i") ∧ written? t c = some "20".toList := by
  decide +kernel

end Variable

end RouteScript
