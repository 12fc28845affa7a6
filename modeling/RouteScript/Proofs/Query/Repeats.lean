import RouteScript.Query.Compile
import RouteScript.Script.Items
import RouteScript.Proofs.Query.Keys
import RouteScript.Proofs.Siblings
/-!
# Repeated matches

Captures that repeat those just before are left out, so a match is reported twice exactly if equal
captures are found apart from each other. Orderly patterns never do this; for every other pattern
without alternations there is a tree on which it does.

The specimen of a pattern has two children for each child pattern, both of them specimens of it.
-/
namespace RouteScript.Query

section Specimens

variable {m : Matcher} {children rest : List (Option String × Pattern)} {captures : List Nat}
  {field : Option String} {p : Pattern} {c : Cursor} {nodes : List Cursor}

/-- The tag of a node that a matcher allows. -/
def Matcher.specimen (field : Option String) : Matcher → Tag
  | .named kind => ⟨kind, true, false, field, 0, 0⟩
  | .token kind => ⟨kind, false, false, field, 0, 0⟩
  | .anyNamed | .any => ⟨errorKind, true, false, field, 0, 0⟩

theorem Matcher.accepts_specimen {field : Option String} {n : Node}
    (tag : n.tag = m.specimen field) : m.accepts n := by
  cases m <;> simp [accepts, Node.isNamed, Node.kind, tag, specimen]

mutual

/-- A draft at which a pattern binds, in a role. -/
def Pattern.specimen (field : Option String) : Pattern → Draft
  | .node m children _ => .node (m.specimen field) (specimens children)
  | .oneOf _ _ => .leaf errorKind true 0 0

def Pattern.specimens : List (Option String × Pattern) → List Draft
  | [] => []
  | (field, p) :: rest => specimen field p :: specimen field p :: specimens rest

end

theorem tag_of_specimen {c : Cursor}
    (draft : c.draft = Pattern.specimen field (.node m children captures)) :
    c.node.tag = m.specimen field := by
  rw [← c.label_draft, draft]
  rfl

theorem draft_children_of_specimen
    (draft : c.draft = Pattern.specimen field (.node m children captures)) :
    c.children.map Cursor.draft = Pattern.specimens children := by
  rw [c.map_draft_children, draft]
  rfl

theorem fits_specimen (plain : p.isPlain) (draft : c.draft = Pattern.specimen field p) :
    fits field p c := by
  cases p with
  | oneOf => contradiction
  | node m children captures =>
    have tag := tag_of_specimen draft
    cases m <;>
      simp [fits, Node.field?, tag, Matcher.specimen, Pattern.requiresNamed, Cursor.isNamed,
        Node.isNamed]

/-- The two specimens of the first child pattern, and those of the others. -/
theorem exists_specimens
    (drafts : nodes.map Cursor.draft = Pattern.specimens ((field, p) :: rest)) :
    ∃ c c' behind, nodes = c :: c' :: behind ∧ c.draft = Pattern.specimen field p ∧
      c'.draft = Pattern.specimen field p ∧
        behind.map Cursor.draft = Pattern.specimens rest := by
  obtain ⟨c, nodes, rfl, first, drafts⟩ := List.map_eq_cons_iff.1 drafts
  obtain ⟨c', behind, rfl, second, drafts⟩ := List.map_eq_cons_iff.1 drafts
  exact ⟨c, c', behind, rfl, first, second, drafts⟩

/-- What binds further back binds. -/
theorem keysAmong_sublist (patterns : List (Option String × Pattern)) (child : Cursor)
    (nodes : List Cursor) :
    (keysAmong patterns nodes).Sublist (keysAmong patterns (child :: nodes)) := by
  cases patterns with
  | nil => rw [keysAmong_nil, keysAmong_nil]
  | cons first rest =>
    rw [keysAmong_cons]
    exact List.sublist_append_right _ _

/-- The bindings among two specimens are those that take the first, then those that take the
second. -/
theorem joined_sublist_keysAmong (rest : List (Option String × Pattern)) {c c' : Cursor}
    (behind : List Cursor) (plain : p.isPlain)
    (first : c.draft = Pattern.specimen field p) (second : c'.draft = Pattern.specimen field p) :
    (joined (keysAt p c) (keysAmong rest behind) ++
      joined (keysAt p c') (keysAmong rest behind)).Sublist
        (keysAmong ((field, p) :: rest) (c :: c' :: behind)) := by
  rw [keysAmong_cons, if_pos (fits_specimen plain first), keysAmong_cons,
    if_pos (fits_specimen plain second), ← List.append_assoc]
  exact ((joined_sublist (.refl _) (keysAmong_sublist rest c' behind)).append (.refl _)).trans
    (List.sublist_append_left _ _)

mutual

theorem exists_mem_keysAt (p : Pattern) (plain : p.isPlain) {c : Cursor} {field : Option String}
    (draft : c.draft = Pattern.specimen field p) : ∃ l, l ∈ keysAt p c := by
  match p with
  | .oneOf _ _ => contradiction
  | .node m children captures =>
    rw [keysAt_node (Matcher.accepts_specimen (tag_of_specimen draft))]
    obtain ⟨l, hl⟩ := exists_mem_keysAmong children plain (draft_children_of_specimen draft)
    exact ⟨_, List.mem_map_of_mem hl⟩

theorem exists_mem_keysAmong (patterns : List (Option String × Pattern))
    (plain : Pattern.allPlain patterns) {nodes : List Cursor}
    (drafts : nodes.map Cursor.draft = Pattern.specimens patterns) :
    ∃ l, l ∈ keysAmong patterns nodes := by
  match patterns with
  | [] => simp [keysAmong_nil]
  | (field, p) :: rest =>
    have plains := Bool.and_eq_true_iff.1 plain
    obtain ⟨c, c', behind, rfl, first, second, others⟩ := exists_specimens drafts
    obtain ⟨l, hl⟩ := exists_mem_keysAt p plains.1 first
    obtain ⟨r, hr⟩ := exists_mem_keysAmong rest plains.2 others
    have both := mem_joined.2 ⟨l, hl, r, hr, rfl⟩
    exact ⟨_, (joined_sublist_keysAmong rest behind plains.1 first second).subset
      (List.mem_append_left _ both)⟩

end

theorem nil_mem_keysAt (plain : p.isPlain) (silent : p.width = 0)
    (draft : c.draft = Pattern.specimen field p) : [] ∈ keysAt p c := by
  obtain ⟨l, hl⟩ := exists_mem_keysAt p plain draft
  rwa [List.length_eq_zero_iff.1 ((length_keysAt p plain c l hl).trans silent)] at hl

/-- A list of bindings that begin with one, and go on with some of those behind. -/
theorem map_append_sublist {l : List (Nat × Nat)} {found found' laters : List (List (Nat × Nat))}
    (here : l ∈ found) (sub : found'.Sublist laters) :
    (found'.map (l ++ ·)).Sublist (joined found laters) := by
  have one : [l].Sublist found := List.singleton_sublist.2 here
  simpa [joined] using joined_sublist one sub

/-- A list of bindings that end with one. -/
theorem map_append_sublist' {l : List (Nat × Nat)} {found found' laters : List (List (Nat × Nat))}
    (sub : found'.Sublist found) (there : l ∈ laters) :
    (found'.map (· ++ l)).Sublist (joined found laters) := by
  have one : [l].Sublist laters := List.singleton_sublist.2 there
  have all : joined found' [l] = found'.map (· ++ l) := List.map_eq_flatMap.symm
  exact all ▸ joined_sublist sub one

/-- Where something is captured, there are two bindings with different captures. -/
theorem exists_two (patterns : List (Option String × Pattern)) (plain : Pattern.allPlain patterns)
    (captures : Pattern.widthAmong patterns ≠ 0) {nodes : List Cursor}
    (drafts : nodes.map Cursor.draft = Pattern.specimens patterns)
    (distinct : (idsBelow nodes).Nodup) :
    ∃ x y, x ≠ y ∧ [x, y].Sublist (keysAmong patterns nodes) := by
  match patterns with
  | [] => contradiction
  | (field, p) :: rest =>
    have plains := Bool.and_eq_true_iff.1 plain
    obtain ⟨c, c', behind, rfl, first, second, others⟩ := exists_specimens drafts
    have sub := joined_sublist_keysAmong rest behind plains.1 first second
    obtain ⟨l, hl⟩ := exists_mem_keysAt p plains.1 first
    by_cases first_captures : p.width = 0
    · rw [idsBelow_cons, idsBelow_cons] at distinct
      have rest_captures : Pattern.widthAmong rest ≠ 0 := by
        simpa [Pattern.widthAmong, first_captures] using captures
      obtain ⟨x, y, other, pair⟩ := exists_two rest plains.2 rest_captures others
        (List.nodup_append'.1 (List.nodup_append'.1 distinct).2.1).2.1
      exact ⟨l ++ x, l ++ y, fun same => other (List.append_cancel_left same),
        (map_append_sublist hl pair).trans ((List.sublist_append_left _ _).trans sub)⟩
    · obtain ⟨l', hl'⟩ := exists_mem_keysAt p plains.1 second
      obtain ⟨r, hr⟩ := exists_mem_keysAmong rest plains.2 others
      have here := mem_joined.2 ⟨l, hl, r, hr, rfl⟩
      have there := mem_joined.2 ⟨l', hl', r, hr, rfl⟩
      refine ⟨l ++ r, l' ++ r, fun same => ?_,
        ((List.singleton_sublist.2 here).append (List.singleton_sublist.2 there)).trans sub⟩
      refine disjoint_keysAmong plain first_captures distinct _ here ?_
      rw [same, keysAmong_cons, if_pos (fits_specimen plains.1 second)]
      exact List.mem_append_left _ there

mutual

/-- Where the captures do not tell how a pattern was bound, two bindings have the same. -/
theorem exists_twice (p : Pattern) (plain : p.isPlain) (vague : p.isTelling = false) {c : Cursor}
    {field : Option String} (draft : c.draft = Pattern.specimen field p) :
    ∃ x, [x, x].Sublist (keysAt p c) := by
  match p with
  | .oneOf _ _ => contradiction
  | .node m children captures =>
    rw [keysAt_node (Matcher.accepts_specimen (tag_of_specimen draft))]
    obtain ⟨x, sub⟩ :=
      exists_twice_among children plain vague (draft_children_of_specimen draft)
    exact ⟨_, sub.map _⟩

theorem exists_twice_among (patterns : List (Option String × Pattern))
    (plain : Pattern.allPlain patterns) (vague : Pattern.allTelling patterns = false)
    {nodes : List Cursor} (drafts : nodes.map Cursor.draft = Pattern.specimens patterns) :
    ∃ x, [x, x].Sublist (keysAmong patterns nodes) := by
  match patterns with
  | [] => contradiction
  | (field, p) :: rest =>
    have plains := Bool.and_eq_true_iff.1 plain
    obtain ⟨c, c', behind, rfl, first, second, others⟩ := exists_specimens drafts
    have sub := joined_sublist_keysAmong rest behind plains.1 first second
    have sub_left := (List.sublist_append_left _ _).trans sub
    obtain ⟨l, hl⟩ := exists_mem_keysAt p plains.1 first
    obtain ⟨r, hr⟩ := exists_mem_keysAmong rest plains.2 others
    rw [Pattern.allTelling, Bool.and_eq_false_iff, Bool.and_eq_false_iff, bne_eq_false_iff_eq]
      at vague
    obtain (silent | first_vague) | rest_vague := vague
    · have each {c : Cursor} (draft : c.draft = Pattern.specimen field p) :=
        List.singleton_sublist.2
          (mem_joined.2 ⟨[], nil_mem_keysAt plains.1 silent draft, r, hr, rfl⟩)
      exact ⟨r, ((each first).append (each second)).trans sub⟩
    · obtain ⟨x, pair⟩ := exists_twice p plains.1 first_vague first
      exact ⟨x ++ r, (map_append_sublist' pair hr).trans sub_left⟩
    · obtain ⟨x, pair⟩ := exists_twice_among rest plains.2 rest_vague others
      exact ⟨l ++ x, (map_append_sublist hl pair).trans sub_left⟩

end

mutual

/-- A pattern that is not orderly has a binding with other captures between two with equal ones. -/
theorem exists_return (p : Pattern) (plain : p.isPlain) (disorder : p.isOrderly = false)
    {c : Cursor} {field : Option String} (draft : c.draft = Pattern.specimen field p)
    (distinct : (c.preorder.map Cursor.id).Nodup) :
    ∃ x y, x ≠ y ∧ [x, y, x].Sublist (keysAt p c) := by
  match p with
  | .oneOf _ _ => contradiction
  | .node m children captures =>
    rw [ids_preorder] at distinct
    rw [keysAt_node (Matcher.accepts_specimen (tag_of_specimen draft))]
    obtain ⟨x, y, other, sub⟩ := exists_return_among children plain disorder
      (draft_children_of_specimen draft) (List.nodup_cons.1 distinct).2
    exact ⟨_, _, fun same => other (List.append_cancel_left same), sub.map _⟩

theorem exists_return_among (patterns : List (Option String × Pattern))
    (plain : Pattern.allPlain patterns) (disorder : Pattern.orderlyAmong patterns = false)
    {nodes : List Cursor} (drafts : nodes.map Cursor.draft = Pattern.specimens patterns)
    (distinct : (idsBelow nodes).Nodup) :
    ∃ x y, x ≠ y ∧ [x, y, x].Sublist (keysAmong patterns nodes) := by
  match patterns with
  | [] => contradiction
  | (field, p) :: rest =>
    have plains := Bool.and_eq_true_iff.1 plain
    obtain ⟨c, c', behind, rfl, first, second, others⟩ := exists_specimens drafts
    have sub := joined_sublist_keysAmong rest behind plains.1 first second
    have sub_left := (List.sublist_append_left _ _).trans sub
    obtain ⟨l, hl⟩ := exists_mem_keysAt p plains.1 first
    rw [idsBelow_cons, List.nodup_append', idsBelow_cons, List.nodup_append'] at distinct
    rw [Pattern.orderlyAmong] at disorder
    split at disorder
    · obtain ⟨x, y, other, triple⟩ := exists_return p plains.1 disorder first distinct.1
      obtain ⟨r, hr⟩ := exists_mem_keysAmong rest plains.2 others
      exact ⟨x ++ r, y ++ r, fun same => other (List.append_cancel_right same),
        (map_append_sublist' triple hr).trans sub_left⟩
    · next rest_captures =>
      obtain ⟨x, y, other, pair⟩ :=
        exists_two rest plains.2 rest_captures others distinct.2.1.2.1
      rw [Bool.and_eq_false_iff, Bool.and_eq_false_iff, bne_eq_false_iff_eq] at disorder
      obtain (silent | vague) | rest_disorder := disorder
      · -- The pair is found behind the first specimen and again behind the second.
        have twice := ((map_append_sublist (nil_mem_keysAt plains.1 silent first) pair).append
          (map_append_sublist (nil_mem_keysAt plains.1 silent second) pair)).trans sub
        have half : [x, y, x].Sublist [x, y, x, y] := by simp
        exact ⟨x, y, other, half.trans (by simpa using twice)⟩
      · obtain ⟨z, again⟩ := exists_twice p plains.1 vague first
        have twice := (joined_sublist again pair).trans sub_left
        have half : [z ++ x, z ++ y, z ++ x].Sublist (joined [z, z] [x, y]) := by simp [joined]
        exact ⟨z ++ x, z ++ y, fun same => other (List.append_cancel_left same), half.trans twice⟩
      · obtain ⟨x, y, other, triple⟩ :=
          exists_return_among rest plains.2 rest_disorder others distinct.2.1.2.1
        exact ⟨l ++ x, l ++ y, fun same => other (List.append_cancel_left same),
          (map_append_sublist hl triple).trans sub_left⟩

end

end Specimens

/-- The matches of a query with the nodes that they stand at. -/
def reports (q : Query) (root : Cursor) : List (Cursor × Match) :=
  root.preorder.flatMap fun c => (matchesAt q c).map (c, ·)

theorem map_snd_reports (q : Query) (root : Cursor) :
    (reports q root).map Prod.snd = run q root := by
  simp [reports, run, List.map_flatMap, Function.comp_def]

/-- No two matches of one pattern at one node have the same captures. -/
def Unrepeated (q : Query) (root : Cursor) : Prop :=
  (reports q root).Pairwise fun a b =>
    ¬ (a.1.id = b.1.id ∧ a.2.pattern = b.2.pattern ∧ sameCaptures a.2.captures b.2.captures)

instance (q : Query) (root : Cursor) : Decidable (Unrepeated q root) :=
  inferInstanceAs (Decidable (List.Pairwise _ _))

theorem dropRepeats_pairwise_iff (found : List (List Capture)) :
    ((dropRepeats none found).Pairwise fun a b => ¬ sameCaptures a b) ↔
      Grouped (found.map (List.map Capture.key)) := by
  have mapped : (found.destutter fun a b => a.map Capture.key ≠ b.map Capture.key).map
      (List.map Capture.key) = (found.map (List.map Capture.key)).destutter (· ≠ ·) :=
    List.map_destutter fun _ _ _ _ => Iff.rfl
  rw [← nodup_destutter_iff, ← mapped, dropRepeats_none, List.Nodup, List.pairwise_map]
  simp only [sameCaptures_iff, ne_eq]

/-- Two matches for different patterns of a query are no repeats of each other. -/
theorem matchesAt_pairwise_iff {q : Query} {c : Cursor} :
    ((matchesAt q c).Pairwise fun a b =>
      ¬ (a.pattern = b.pattern ∧ sameCaptures a.captures b.captures)) ↔
      ∀ p ∈ q.patterns, Grouped (keysAt p c) := by
  have numbers : q.patterns.zipIdx.Pairwise fun a b => a.2 ≠ b.2 := by
    rw [← List.pairwise_map, List.zipIdx_map_snd]
    exact List.nodup_range'
  have apart : q.patterns.zipIdx.Pairwise fun a b =>
      ∀ x ∈ (dropRepeats none (bindings a.1 c)).map (Match.mk a.2),
        ∀ y ∈ (dropRepeats none (bindings b.1 c)).map (Match.mk b.2),
          ¬ (x.pattern = y.pattern ∧ sameCaptures x.captures y.captures) := by
    refine numbers.imp fun {a b} other x hx y hy same => ?_
    obtain ⟨_, _, rfl⟩ := List.mem_map.1 hx
    obtain ⟨_, _, rfl⟩ := List.mem_map.1 hy
    exact other same.1
  rw [matchesAt, List.pairwise_flatMap, and_iff_left apart]
  simp only [List.pairwise_map, true_and, dropRepeats_pairwise_iff]
  constructor
  · intro h p hp
    obtain ⟨i, there⟩ := List.mem_iff_getElem?.1 hp
    exact h (p, i) (List.mk_mem_zipIdx_iff_getElem?.2 there)
  · exact fun h a ha => h a.1 (List.fst_mem_of_mem_zipIdx ha)

/-- What is reported twice is reported twice at one node for one pattern. -/
theorem unrepeated_iff {q : Query} {root : Cursor}
    (distinct : (root.preorder.map Cursor.id).Nodup) :
    Unrepeated q root ↔ ∀ c ∈ root.preorder, ∀ p ∈ q.patterns, Grouped (keysAt p c) := by
  have apart : root.preorder.Pairwise fun c c' =>
      ∀ x ∈ (matchesAt q c).map (c, ·), ∀ y ∈ (matchesAt q c').map (c', ·),
        ¬ (x.1.id = y.1.id ∧ x.2.pattern = y.2.pattern ∧
          sameCaptures x.2.captures y.2.captures) := by
    refine (List.pairwise_map.1 distinct).imp fun {c c'} other x hx y hy same => ?_
    obtain ⟨_, _, rfl⟩ := List.mem_map.1 hx
    obtain ⟨_, _, rfl⟩ := List.mem_map.1 hy
    exact other same.1
  rw [Unrepeated, reports, List.pairwise_flatMap, and_iff_left apart]
  simp only [List.pairwise_map, true_and, matchesAt_pairwise_iff]

theorem nodup_ids_preorder {language : String} {source : List Char} {draft : Draft} {c : Cursor}
    (there : c ∈ (Tree.ofDraft language source draft).cursors) :
    (c.preorder.map Cursor.id).Nodup := by
  have ordered := (Tree.cursors_pairwise language source draft).sublist
    (Cursor.preorder_sublist there)
  exact List.pairwise_map.2 (ordered.imp Nat.ne_of_lt)

/--
Every match of a query without alternations is reported at a node, and no captures are reported
twice at one node for one pattern, whatever the tree, exactly if all patterns are orderly: if before
the last child pattern that captures something, at every level, no child pattern and none below it
captures nothing. For any other query there is a tree at whose root captures are reported again.
-/
theorem run_unrepeated_iff {q : Query} (plain : ∀ p ∈ q.patterns, p.isPlain) :
    (∀ root, (reports q root).map Prod.snd = run q root) ∧
      ((∀ language source draft, ∀ root ∈ (Tree.ofDraft language source draft).cursors,
        Unrepeated q root) ↔ ∀ p ∈ q.patterns, p.isOrderly) := by
  refine ⟨map_snd_reports q, fun h p hp => ?_, fun orderly language source draft root there => ?_⟩
  · by_contra disorder
    let t := Tree.ofDraft "" [] (p.specimen none)
    have there : Cursor.root t ∈ t.cursors := Cursor.mem_preorder_self _
    have distinct := nodup_ids_preorder there
    have grouped := (unrepeated_iff distinct).1 (h _ _ _ _ there) _ there p hp
    have draft : (Cursor.root t).draft = p.specimen none := Tree.thaw_ofDraft "" [] _
    obtain ⟨x, y, other, sub⟩ :=
      exists_return p (plain p hp) (Bool.eq_false_iff.2 disorder) draft distinct
    exact other (grouped.eq_of_sublist sub)
  · have distinct := nodup_ids_preorder there
    refine (unrepeated_iff distinct).2 fun c hc p hp => ?_
    exact grouped_keysAt p (plain p hp) (orderly p hp) c
      (distinct.sublist ((Cursor.preorder_sublist hc).map _))

/-- Two statements of one block, the first of them by its name. -/
theorem run_unrepeated_iff_silentLast :
    let q : Query := ⟨[.node (.named "compound_statement")
      [(none, .node (.named "statement") [] [0]), (none, .node (.named "statement") [] [])] []],
      ["s"]⟩
    (∀ p ∈ q.patterns, p.isPlain) ∧ ∀ language source draft,
      ∀ root ∈ (Tree.ofDraft language source draft).cursors, Unrepeated q root := by
  intro q
  have plain : ∀ p ∈ q.patterns, p.isPlain := by decide
  exact ⟨plain, (run_unrepeated_iff plain).2.2 (by decide)⟩

/-- The third of four statements is behind the first and again behind the second. -/
theorem run_repeats_silentFirst :
    ∃ q, compile Vocabulary.language "(compound_statement (statement) (statement) @s)".toList =
        .ok q ∧ (∀ p ∈ q.patterns, p.isPlain) ∧ ¬ Unrepeated q (Cursor.root
          (.ofScript "request_route \x7b\ndrop;\nexit;\nbreak;\nreturn;\n\x7d\n".toList)) := by
  have repeats : (compile Vocabulary.language
      "(compound_statement (statement) (statement) @s)".toList).toOption.any fun q =>
        decide ((∀ p ∈ q.patterns, p.isPlain) ∧ ¬ Unrepeated q (Cursor.root (.ofScript
          "request_route \x7b\ndrop;\nexit;\nbreak;\nreturn;\n\x7d\n".toList))) := by
    decide +kernel
  cases compiled : compile Vocabulary.language
      "(compound_statement (statement) (statement) @s)".toList with
  | error e => exact absurd repeats (by rw [compiled]; exact Bool.false_ne_true)
  | ok q =>
    rw [compiled] at repeats
    exact ⟨q, rfl, of_decide_eq_true repeats⟩

end RouteScript.Query
