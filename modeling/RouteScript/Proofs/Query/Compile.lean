import RouteScript.Proofs.Query.Reading
/-!
# Written queries are read back

Reading a text of the pieces of some patterns gives these patterns, with the numbers that their
captures have in the table of all names.
-/
namespace RouteScript.Query

/-- A language all of whose kinds and fields can be written as words. -/
structure Readable (l : Language) : Prop where
  kinds : ∀ kind ∈ l.namedKinds, isName kind ∧ kind ≠ "_"
  fields : ∀ field ∈ l.fields, isName field ∧ field.toList.head?.any Text.isAlphabetic

section Patterns

variable {l : Language} {seen : List String} {more : List Piece} {s : Source}

/-- The reader gives what comes of the table of all names and has these pieces left. -/
def Reads {α : Type} (r : Reader α) (s : Source) (seen : List String) (more : List Piece)
    (result : List String → α) : Prop :=
  ∃ a s', r s = .ok (a, s') ∧ Stands seen more s' ∧
    ∀ behind, a = result (seen ++ behind).eraseDups

theorem Faces.matcher {m : Matcher} (readable : Readable l) (legal : m.isOver l)
    (named : m.isBare = false) (h : Faces seen (m.piece :: more) s) :
    ∃ s', Reader.matcher l s = .ok (m, s') ∧ Stands seen more s' := by
  have start : Reader.offset s = .ok (s.offset, s) := rfl
  cases m with
  | named kind =>
    have known : kind ∈ l.namedKinds := by simpa [Matcher.isOver] using legal
    obtain ⟨isName, other⟩ := readable.kinds kind known
    have nonempty : kind.isEmpty = false := by
      simp only [Query.isName, Bool.and_eq_true, Bool.not_eq_true'] at isName
      exact isName.1
    obtain ⟨s', word, stands⟩ := h.name
    refine ⟨s', ?_, stands⟩
    rw [Reader.matcher, Reader.bind_ok start, Reader.bind_ok word, nonempty,
      if_neg Bool.false_ne_true]
    simp only [beq_eq_false_iff_ne.2 other, Language.namedKind?, find?_beq known]
    rfl
  | anyNamed =>
    obtain ⟨s', word, stands⟩ := h.name
    refine ⟨s', ?_, stands⟩
    rw [Reader.matcher, Reader.bind_ok start, Reader.bind_ok word]
    rfl
  | any => contradiction
  | token kind => contradiction

theorem Faces.role {field : String} (known : field ∈ l.fields)
    (h : Faces seen (.word field :: .mark ':' :: more) s) :
    ∃ s', Reader.role l s = .ok (field, s') ∧ Stands seen more s' := by
  have start : Reader.offset s = .ok (s.offset, s) := rfl
  obtain ⟨s₁, word, stands⟩ := h.name
  obtain ⟨s₂, skipped, faces⟩ := stands.skipBlanks
  obtain ⟨s₃, colon, stands⟩ := faces.skip
  refine ⟨s₃, ?_, stands⟩
  rw [Reader.role, Reader.bind_ok start, Reader.bind_ok word, Reader.bind_ok skipped,
    Reader.bind_ok faces.peek, if_neg (by simp [Piece.text])]
  simp only [Language.field?, find?_beq known]
  rw [Reader.bind_ok colon]
  rfl

/-- A pattern starts with a parenthesis, a bracket, a quote or an underscore. -/
theorem Sketch.pieces_head (p : Sketch) :
    ∃ q rest c, p.pieces = q :: rest ∧ q.isCapture = false ∧ q.text.head? = some c ∧
      c ∈ ['(', '[', '"', '_'] := by
  cases p with
  | node m children captures =>
    cases m with
    | named kind => exact ⟨_, _, '(', rfl, rfl, rfl, by simp⟩
    | anyNamed => exact ⟨_, _, '(', rfl, rfl, rfl, by simp⟩
    | any => exact ⟨_, _, '_', rfl, rfl, rfl, by simp⟩
    | token kind => exact ⟨_, _, '"', rfl, rfl, rfl, by simp⟩
  | oneOf alternatives captures => exact ⟨_, _, '[', rfl, rfl, rfl, by simp⟩

/-- The captures of a pattern are numbered with those in it. -/
theorem Stands.reads_captures {captures : List String} {q : Pattern} {rounds : Nat}
    (result : List String → Pattern) (enough : captures.length < rounds)
    (h : Stands seen (captures.map .capture ++ more) s)
    (last : ∀ q ∈ more.head?, q.isCapture = false)
    (numbered : ∀ behind, q = result (seen ++ behind).eraseDups) :
    Reads (Reader.captures rounds q) s (seen ++ captures) more
      (fun table => (result table).withCaptures (captures.map (table.idxOf ·))) := by
  obtain ⟨p, s', read, stands, numbers⟩ := h.captures captures q enough last
  refine ⟨p, s', read, stands, fun behind => ?_⟩
  have whole := numbered (captures ++ behind)
  rw [← List.append_assoc] at whole
  rw [numbers behind]
  exact congrArg _ whole

/-- Each capture of a pattern takes characters. -/
theorem Faces.captures_le {captures : List String} (front : List Piece)
    (h : Faces seen (front ++ captures.map .capture ++ more) s) :
    captures.length < s.rest.length + 1 := by
  have length := h.begins.layout.length_le h.valid
  simp only [List.length_append, List.length_map] at length
  omega

section Kinds

variable {captures : List String} {rounds : Nat}
  (last : ∀ q ∈ more.head?, q.isCapture = false)
include last

theorem Stands.reads_token {kind : String} (known : kind ∈ l.anonymousKinds)
    (h : Stands seen (.quoted kind :: (captures.map .capture ++ more)) s) :
    Reads (Reader.pattern l (rounds + 1)) s (seen ++ captures) more
      (Sketch.number · (.node (.token kind) [] captures)) := by
  obtain ⟨s₀, skipped, faces⟩ := h.skipBlanks
  obtain ⟨s₁, token, stands⟩ := faces.token known
  obtain ⟨q, s', read, stands, numbers⟩ := stands.reads_captures
    (fun _ => .node (.token kind) [] []) (faces.captures_le [.quoted kind]) last fun _ => rfl
  refine ⟨q, s', ?_, stands, numbers⟩
  have head : s₀.rest.head? = some '"' := faces.head?
  have start : Reader.offset s₀ = .ok (s₀.offset, s₀) := rfl
  have rest : (get : Reader Source) s₀ = .ok (s₀, s₀) := rfl
  rw [Reader.pattern, Reader.bind_ok skipped, Reader.bind_ok start, Reader.bind_ok rest]
  simp only [head]
  rw [Reader.bind_ok token, read]

theorem Stands.reads_any (h : Stands seen (.word "_" :: (captures.map .capture ++ more)) s) :
    Reads (Reader.pattern l (rounds + 1)) s (seen ++ captures) more
      (Sketch.number · (.node .any [] captures)) := by
  obtain ⟨s₀, skipped, faces⟩ := h.skipBlanks
  obtain ⟨text, rest_eq, layout, valid⟩ := faces.split
  have rest_eq : s₀.rest = '_' :: text := rest_eq
  have stands : Stands seen (captures.map .capture ++ more) { s₀ with
      rest := s₀.rest.tail, offset := s₀.offset + Text.size (s₀.rest.take 1) } :=
    ⟨faces.names, by rw [rest_eq]; exact layout.weaken, valid⟩
  obtain ⟨q, s', read, stands, numbers⟩ := stands.reads_captures
    (fun _ => .node .any [] []) (faces.captures_le [.word "_"]) last fun _ => rfl
  refine ⟨q, s', ?_, stands, numbers⟩
  have lone : Reader.isLoneUnderscore s₀.rest := by
    rw [rest_eq]
    cases text with
    | nil => rfl
    | cons c text =>
      have stop := layout.not_isNameChar valid
      simp only [Reader.isNameChar, Bool.or_eq_false_iff] at stop
      simp only [Reader.isLoneUnderscore, stop.1.1.1, stop.1.1.2, Bool.or_false, Bool.not_false]
  have start : Reader.offset s₀ = .ok (s₀.offset, s₀) := rfl
  have rest : (get : Reader Source) s₀ = .ok (s₀, s₀) := rfl
  have skip : Reader.skip s₀ = .ok ((), _) := rfl
  have head : s₀.rest.head? = some '_' := faces.head?
  rw [Reader.pattern, Reader.bind_ok skipped, Reader.bind_ok start, Reader.bind_ok rest]
  rw [head]
  show (if Reader.isLoneUnderscore s₀.rest then
    Reader.skip >>= fun _ => Reader.captures (s₀.rest.length + 1) (.node .any [] [])
    else _) s₀ = _
  rw [if_pos lone, Reader.bind_ok skip, read]

/-- The reader stands behind the matcher and children of a pattern in parentheses. -/
theorem Stands.reads_node {m : Matcher} {children : List (Option String × Sketch)}
    (readable : Readable l) (legal : m.isOver l) (named : m.isBare = false)
    (read : ∀ {s}, Stands seen
        (Sketch.childPieces children ++ .mark ')' :: (captures.map .capture ++ more)) s →
      Reads (Reader.children l rounds) s (seen ++ Sketch.childNames children)
        (captures.map .capture ++ more) (Sketch.numberChildren · children))
    (h : Stands seen ((Sketch.node m children captures).pieces ++ more) s) :
    Reads (Reader.pattern l (rounds + 1)) s (seen ++ (Sketch.node m children captures).names) more
      (Sketch.number · (.node m children captures)) := by
  have pieces : (Sketch.node m children captures).pieces ++ more = .mark '(' :: m.piece ::
      (Sketch.childPieces children ++ .mark ')' :: (captures.map .capture ++ more)) := by
    rw [Sketch.pieces, named, if_neg Bool.false_ne_true]
    simp
  rw [pieces] at h
  obtain ⟨s₀, skipped, faces⟩ := h.skipBlanks
  obtain ⟨s₁, opened, stands⟩ := faces.skip
  obtain ⟨s₂, skipped', faces'⟩ := stands.skipBlanks
  obtain ⟨s₃, matcher, stands⟩ := faces'.matcher readable legal named
  obtain ⟨cs, s₄, below, stands, numbered⟩ := read stands
  have enough : captures.length < s₀.rest.length + 1 := by
    have whole : Faces seen (.mark '(' :: m.piece :: (Sketch.childPieces children ++ [.mark ')'])
        ++ captures.map .capture ++ more) s₀ := by simpa using faces
    exact whole.captures_le _
  obtain ⟨q, s', read, stands, numbers⟩ := stands.reads_captures
    (fun table => .node m (Sketch.numberChildren table children) []) enough last
    fun behind => congrArg (Pattern.node m · []) (numbered behind)
  rw [List.append_assoc] at stands numbers
  refine ⟨q, s', ?_, stands, numbers⟩
  have start : Reader.offset s₀ = .ok (s₀.offset, s₀) := rfl
  have rest : (get : Reader Source) s₀ = .ok (s₀, s₀) := rfl
  have head : s₀.rest.head? = some '(' := faces.head?
  rw [Reader.pattern, Reader.bind_ok skipped, Reader.bind_ok start, Reader.bind_ok rest]
  simp only [head]
  rw [Reader.bind_ok opened, Reader.bind_ok skipped', Reader.bind_ok matcher, Reader.bind_ok below,
    pure_bind, read]

/-- The reader stands behind the alternatives of a pattern in brackets. -/
theorem Stands.reads_oneOf {alternatives : List Sketch} (nonempty : alternatives ≠ [])
    (read : ∀ {s} start, Stands seen
        (Sketch.allPieces alternatives ++ .mark ']' :: (captures.map .capture ++ more)) s →
      Reads (Reader.alternatives l start rounds) s (seen ++ Sketch.allNames alternatives)
        (captures.map .capture ++ more) (Sketch.numberAll · alternatives))
    (h : Stands seen ((Sketch.oneOf alternatives captures).pieces ++ more) s) :
    Reads (Reader.pattern l (rounds + 1)) s (seen ++ (Sketch.oneOf alternatives captures).names)
      more (Sketch.number · (.oneOf alternatives captures)) := by
  have pieces : (Sketch.oneOf alternatives captures).pieces ++ more = .mark '[' ::
      (Sketch.allPieces alternatives ++ .mark ']' :: (captures.map .capture ++ more)) := by
    simp [Sketch.pieces]
  rw [pieces] at h
  obtain ⟨s₀, skipped, faces⟩ := h.skipBlanks
  obtain ⟨s₁, opened, stands⟩ := faces.skip
  obtain ⟨ps, s₂, below, stands, numbered⟩ := read s₀.offset stands
  have enough : captures.length < s₀.rest.length + 1 := by
    have whole : Faces seen (.mark '[' :: (Sketch.allPieces alternatives ++ [.mark ']'])
        ++ captures.map .capture ++ more) s₀ := by simpa using faces
    exact whole.captures_le _
  obtain ⟨q, s', read, stands, numbers⟩ := stands.reads_captures
    (fun table => .oneOf (Sketch.numberAll table alternatives) []) enough last
    fun behind => congrArg (Pattern.oneOf · []) (numbered behind)
  rw [List.append_assoc] at stands numbers
  refine ⟨q, s', ?_, stands, numbers⟩
  have filled : ps.isEmpty = false := by
    rw [numbered []]
    cases alternatives with
    | nil => contradiction
    | cons p rest => rfl
  have start : Reader.offset s₀ = .ok (s₀.offset, s₀) := rfl
  have rest : (get : Reader Source) s₀ = .ok (s₀, s₀) := rfl
  have head : s₀.rest.head? = some '[' := faces.head?
  rw [Reader.pattern, Reader.bind_ok skipped, Reader.bind_ok start, Reader.bind_ok rest]
  simp only [head]
  rw [Reader.bind_ok opened, Reader.bind_ok below, filled, if_neg Bool.false_ne_true, pure_bind,
    read]

end Kinds

/-- The closing parenthesis ends the children. -/
theorem Stands.reads_noChildren {rounds : Nat} (h : Stands seen (.mark ')' :: more) s) :
    Reads (Reader.children l (rounds + 1)) s seen more (Sketch.numberChildren · []) := by
  obtain ⟨s₀, skipped, faces⟩ := h.skipBlanks
  obtain ⟨s', closed, stands⟩ := faces.skip
  refine ⟨[], s', ?_, stands, fun _ => rfl⟩
  rw [Reader.children, Reader.bind_ok skipped, Reader.bind_ok faces.peek]
  show (Reader.skip >>= fun _ => pure []) s₀ = _
  rw [Reader.bind_ok closed]
  rfl

theorem Stands.reads_noAlternatives {start rounds : Nat} (h : Stands seen (.mark ']' :: more) s) :
    Reads (Reader.alternatives l start (rounds + 1)) s seen more (Sketch.numberAll · []) := by
  obtain ⟨s₀, skipped, faces⟩ := h.skipBlanks
  obtain ⟨s', closed, stands⟩ := faces.skip
  refine ⟨[], s', ?_, stands, fun _ => rfl⟩
  rw [Reader.alternatives, Reader.bind_ok skipped, Reader.bind_ok faces.peek]
  show (Reader.skip >>= fun _ => pure []) s₀ = _
  rw [Reader.bind_ok closed]
  rfl

/-- The field of a child, if it has one, and no closing parenthesis. -/
theorem Faces.field {field : Option String} {p : Sketch} (readable : Readable l)
    (known : field.all l.fields.contains)
    (h : Faces seen (field.elim [] (fun name => [.word name, .mark ':']) ++ p.pieces ++ more) s) :
    ∃ c s', Reader.peek s = .ok (some c, s) ∧ c ≠ ')' ∧
      (if Text.isAlphabetic c then some <$> Reader.role l else pure none) s = .ok (field, s') ∧
      Stands seen (p.pieces ++ more) s' := by
  cases field with
  | none =>
    obtain ⟨q, rest, c, pieces, _, head, start⟩ := p.pieces_head
    have faces : Faces seen (q :: (rest ++ more)) s := by simpa [pieces] using h
    simp only [List.mem_cons, List.not_mem_nil, or_false] at start
    have notField : Text.isAlphabetic c = false := by
      rcases start with rfl | rfl | rfl | rfl <;> rfl
    refine ⟨c, s, by rw [faces.peek, head], ?_, ?_, h.stands⟩
    · rintro rfl
      simp at start
    · rw [notField, if_neg Bool.false_ne_true]
      rfl
  | some name =>
    have known : name ∈ l.fields := by simpa using known
    have faces : Faces seen (.word name :: .mark ':' :: (p.pieces ++ more)) s := by simpa using h
    obtain ⟨s', role, stands⟩ := faces.role known
    have letter := (readable.fields name known).2
    cases first : name.toList.head? with
    | none => simp [first] at letter
    | some c =>
      have letter : Text.isAlphabetic c := by simpa [first] using letter
      refine ⟨c, s', by rw [faces.peek, Piece.text, first], ?_, ?_, stands⟩
      · rintro rfl
        exact absurd letter Bool.false_ne_true
      · rw [if_pos letter, map_eq_pure_bind, Reader.bind_ok role]
        rfl

/-- The first child and those behind it. -/
theorem Stands.reads_child {field : Option String} {p : Sketch}
    {rest : List (Option String × Sketch)} {names : List String} {behind : List Piece}
    {rounds : Nat}     (readable : Readable l) (known : field.all l.fields.contains)
    (first : ∀ {s}, Stands seen (p.pieces ++ behind) s →
      Reads (Reader.pattern l rounds) s (seen ++ p.names) behind p.number)
    (others : ∀ {s}, Stands (seen ++ p.names) behind s →
      Reads (Reader.children l rounds) s (seen ++ p.names ++ names) more
        (Sketch.numberChildren · rest))
    (h : Stands seen
      (field.elim [] (fun name => [.word name, .mark ':']) ++ p.pieces ++ behind) s) :
    Reads (Reader.children l (rounds + 1)) s (seen ++ p.names ++ names) more
      (Sketch.numberChildren · ((field, p) :: rest)) := by
  obtain ⟨s₀, skipped, faces⟩ := h.skipBlanks
  obtain ⟨c, s₁, peek, notClose, role, stands⟩ := faces.field readable known
  obtain ⟨q, s₂, pattern, stands, numbered⟩ := first stands
  obtain ⟨qs, s₃, children, stands, numbers⟩ := others stands
  refine ⟨(field, q) :: qs, s₃, ?_, stands, fun later => ?_⟩
  · have child : ((if Text.isAlphabetic c then some <$> Reader.role l else pure none) >>=
        fun field => Reader.pattern l rounds >>= fun p => Reader.children l rounds >>= fun rest =>
          pure ((field, p) :: rest)) s₀ = .ok ((field, q) :: qs, s₃) := by
      rw [Reader.bind_ok role, Reader.bind_ok pattern, Reader.bind_ok children]
      rfl
    rw [Reader.children, Reader.bind_ok skipped, Reader.bind_ok peek]
    simp only [if_neg notClose]
    rw [← child]
    split
    · rfl
    · rfl
  · have one := numbered (names ++ later)
    rw [← List.append_assoc] at one
    exact congrArg₂ (fun q qs => (field, q) :: qs) one (numbers later)

/-- The first alternative and those behind it. -/
theorem Stands.reads_alternative {p : Sketch} {rest : List Sketch} {names : List String}
    {behind : List Piece} {start rounds : Nat}
    (first : ∀ {s}, Stands seen (p.pieces ++ behind) s →
      Reads (Reader.pattern l rounds) s (seen ++ p.names) behind p.number)
    (others : ∀ {s}, Stands (seen ++ p.names) behind s →
      Reads (Reader.alternatives l start rounds) s (seen ++ p.names ++ names) more
        (Sketch.numberAll · rest))
    (h : Stands seen (p.pieces ++ behind) s) :
    Reads (Reader.alternatives l start (rounds + 1)) s (seen ++ p.names ++ names) more
      (Sketch.numberAll · (p :: rest)) := by
  obtain ⟨s₀, skipped, faces⟩ := h.skipBlanks
  obtain ⟨q, s₂, pattern, stands, numbered⟩ := first faces.stands
  obtain ⟨qs, s₃, alternatives, stands, numbers⟩ := others stands
  obtain ⟨piece, more', c, pieces, _, head, opens⟩ := p.pieces_head
  have notClose : c ≠ ']' := by
    rintro rfl
    simp at opens
  have peek : Reader.peek s₀ = .ok (some c, s₀) := by
    rw [← head]
    rw [pieces] at faces
    exact faces.peek
  refine ⟨q :: qs, s₃, ?_, stands, fun later => ?_⟩
  · rw [Reader.alternatives, Reader.bind_ok skipped, Reader.bind_ok peek]
    simp only [if_neg notClose]
    rw [Reader.bind_ok pattern, Reader.bind_ok alternatives]
    rfl
  · have one := numbered (names ++ later)
    rw [← List.append_assoc] at one
    exact congrArg₂ List.cons one (numbers later)

/-- No pattern starts with a capture. -/
theorem Sketch.not_capture (p : Sketch) (more : List Piece) :
    ∀ q ∈ (p.pieces ++ more).head?, q.isCapture = false := by
  obtain ⟨q, rest, c, pieces, other, _, _⟩ := p.pieces_head
  intro q' hq
  obtain rfl : q = q' := by simpa [pieces] using hq
  exact other

theorem Sketch.not_capture_children (children : List (Option String × Sketch)) (c : Char)
    (more : List Piece) :
    ∀ q ∈ (childPieces children ++ .mark c :: more).head?, q.isCapture = false := by
  cases children with
  | nil =>
    intro q hq
    obtain rfl : Piece.mark c = q := by simpa [childPieces] using hq
    rfl
  | cons first rest =>
    obtain ⟨field, p⟩ := first
    rw [childPieces]
    cases field with
    | none =>
      simpa using p.not_capture (childPieces rest ++ .mark c :: more)
    | some name =>
      intro q hq
      obtain rfl : Piece.word name = q := by simpa using hq
      rfl

theorem Sketch.not_capture_all (alternatives : List Sketch) (c : Char) (more : List Piece) :
    ∀ q ∈ (allPieces alternatives ++ .mark c :: more).head?, q.isCapture = false := by
  cases alternatives with
  | nil =>
    intro q hq
    obtain rfl : Piece.mark c = q := by simpa [allPieces] using hq
    rfl
  | cons p rest =>
    rw [allPieces, List.append_assoc]
    exact p.not_capture _

theorem Sketch.pieces_length_pos (p : Sketch) : 0 < p.pieces.length := by
  obtain ⟨q, rest, _, pieces, _⟩ := p.pieces_head
  rw [pieces]
  exact Nat.succ_pos _

mutual

/-- A pattern is read back, and its captures are numbered by the table of all names. -/
theorem pattern_reads (readable : Readable l) (p : Sketch) (legal : p.isOver l) {rounds : Nat}
    (enough : p.pieces.length ≤ rounds) {seen : List String} {more : List Piece} {s : Source}
    (last : ∀ q ∈ more.head?, q.isCapture = false) (h : Stands seen (p.pieces ++ more) s) :
    Reads (Reader.pattern l rounds) s (seen ++ p.names) more p.number := by
  obtain ⟨rounds, rfl⟩ : ∃ n, rounds = n + 1 :=
    ⟨rounds - 1, by have := p.pieces_length_pos; omega⟩
  match p with
  | .node m children captures =>
    simp only [Sketch.isOver, Bool.and_eq_true] at legal
    obtain ⟨⟨⟨legal, bare⟩, below⟩, _⟩ := legal
    by_cases named : m.isBare = false
    · refine Stands.reads_node last readable legal named ?_ h
      have room : (Sketch.childPieces children).length + 1 ≤ rounds := by
        simp [Sketch.pieces, named] at enough
        omega
      intro s stands
      exact children_reads readable children below room stands
    · have bare : m.isBare := by simpa using named
      obtain rfl : children = [] := by simp_all
      cases m with
      | named kind => contradiction
      | anyNamed => contradiction
      | any => exact Stands.reads_any last h
      | token kind => exact Stands.reads_token last (by simpa [Matcher.isOver] using legal) h
  | .oneOf alternatives captures =>
    simp only [Sketch.isOver, Bool.and_eq_true] at legal
    obtain ⟨⟨nonempty, below⟩, _⟩ := legal
    refine Stands.reads_oneOf last (by simpa using nonempty) ?_ h
    have room : (Sketch.allPieces alternatives).length + 1 ≤ rounds := by
      simp [Sketch.pieces] at enough
      omega
    intro s start stands
    exact alternatives_reads readable alternatives below room start stands

theorem children_reads (readable : Readable l) (children : List (Option String × Sketch))
    (legal : Sketch.childrenAreOver l children) {rounds : Nat}
    (enough : (Sketch.childPieces children).length + 1 ≤ rounds) {seen : List String}
    {more : List Piece} {s : Source}
    (h : Stands seen (Sketch.childPieces children ++ .mark ')' :: more) s) :
    Reads (Reader.children l rounds) s (seen ++ Sketch.childNames children) more
      (Sketch.numberChildren · children) := by
  obtain ⟨rounds, rfl⟩ : ∃ n, rounds = n + 1 := ⟨rounds - 1, by omega⟩
  match children with
  | [] =>
    rw [Sketch.childNames, List.append_nil]
    exact Stands.reads_noChildren h
  | (field, p) :: rest =>
    simp only [Sketch.childrenAreOver, Bool.and_eq_true] at legal
    obtain ⟨⟨known, first⟩, others⟩ := legal
    rw [Sketch.childPieces, List.append_assoc] at h
    rw [Sketch.childNames, ← List.append_assoc]
    have positive := p.pieces_length_pos
    simp only [Sketch.childPieces, List.length_append] at enough
    exact h.reads_child readable known
      (fun stands => pattern_reads readable p first (by omega)
        (Sketch.not_capture_children rest ')' more) stands)
      (fun stands => children_reads readable rest others (by omega) stands)

theorem alternatives_reads (readable : Readable l) (alternatives : List Sketch)
    (legal : Sketch.allAreOver l alternatives) {rounds : Nat}
    (enough : (Sketch.allPieces alternatives).length + 1 ≤ rounds) (start : Nat)
    {seen : List String} {more : List Piece} {s : Source}
    (h : Stands seen (Sketch.allPieces alternatives ++ .mark ']' :: more) s) :
    Reads (Reader.alternatives l start rounds) s (seen ++ Sketch.allNames alternatives) more
      (Sketch.numberAll · alternatives) := by
  obtain ⟨rounds, rfl⟩ : ∃ n, rounds = n + 1 := ⟨rounds - 1, by omega⟩
  match alternatives with
  | [] =>
    rw [Sketch.allNames, List.append_nil]
    exact Stands.reads_noAlternatives h
  | p :: rest =>
    simp only [Sketch.allAreOver, Bool.and_eq_true] at legal
    rw [Sketch.allPieces, List.append_assoc] at h
    rw [Sketch.allNames, ← List.append_assoc]
    have positive := p.pieces_length_pos
    simp only [Sketch.allPieces, List.length_append] at enough
    exact h.reads_alternative
      (fun stands => pattern_reads readable p legal.1 (by omega)
        (Sketch.not_capture_all rest ']' more) stands)
      (fun stands => alternatives_reads readable rest legal.2 (by omega) start stands)

end

end Patterns

mutual

/-- The pieces of a pattern can be written. -/
theorem Sketch.valid_pieces {l : Language} (readable : Readable l) (p : Sketch)
    (legal : p.isOver l) : ∀ q ∈ p.pieces, q.isValid := by
  match p with
  | .node m children captures =>
    simp only [isOver, Bool.and_eq_true, List.all_eq_true] at legal
    obtain ⟨⟨⟨legal, _⟩, below⟩, named⟩ := legal
    have piece : m.piece.isValid := by
      cases m with
      | named kind => exact (readable.kinds kind (by simpa [Matcher.isOver] using legal)).1
      | anyNamed | any => simp [Matcher.piece, Piece.isValid, isName, Reader.isNameChar]
      | token kind => rfl
    intro q hq
    rw [pieces, List.mem_append, List.mem_map] at hq
    rcases hq with body | ⟨name, hname, rfl⟩
    · split at body
      · obtain rfl := List.mem_singleton.1 body
        exact piece
      · simp only [List.mem_cons, List.mem_append, List.not_mem_nil, or_false] at body
        rcases body with rfl | rfl | inside | rfl
        · rfl
        · exact piece
        · exact valid_childPieces readable children below q inside
        · rfl
    · exact named name hname
  | .oneOf alternatives captures =>
    simp only [isOver, Bool.and_eq_true, List.all_eq_true] at legal
    obtain ⟨⟨_, below⟩, named⟩ := legal
    intro q hq
    simp only [pieces, List.mem_cons, List.mem_append, List.mem_map, List.not_mem_nil,
      or_false, List.cons_append] at hq
    rcases hq with rfl | (inside | rfl) | ⟨name, hname, rfl⟩
    · rfl
    · exact valid_allPieces readable alternatives below q inside
    · rfl
    · exact named name hname

theorem Sketch.valid_childPieces {l : Language} (readable : Readable l)
    (children : List (Option String × Sketch)) (legal : childrenAreOver l children) :
    ∀ q ∈ childPieces children, q.isValid := by
  match children with
  | [] => simp [childPieces]
  | (field, p) :: rest =>
    simp only [childrenAreOver, Bool.and_eq_true] at legal
    obtain ⟨⟨known, first⟩, others⟩ := legal
    intro q hq
    simp only [childPieces, List.mem_append] at hq
    rcases hq with (role | inside) | behind
    · cases field with
      | none => simp at role
      | some name =>
        have isName := (readable.fields name (by simpa using known)).1
        simp only [Option.elim_some, List.mem_cons, List.not_mem_nil, or_false] at role
        rcases role with rfl | rfl
        · exact isName
        · rfl
    · exact valid_pieces readable p first q inside
    · exact valid_childPieces readable rest others q behind

theorem Sketch.valid_allPieces {l : Language} (readable : Readable l) (alternatives : List Sketch)
    (legal : allAreOver l alternatives) : ∀ q ∈ allPieces alternatives, q.isValid := by
  match alternatives with
  | [] => simp [allPieces]
  | p :: rest =>
    simp only [allAreOver, Bool.and_eq_true] at legal
    intro q hq
    rw [allPieces, List.mem_append] at hq
    rcases hq with inside | behind
    · exact valid_pieces readable p legal.1 q inside
    · exact valid_allPieces readable rest legal.2 q behind

end

/-- Patterns are read up to the end of the text. -/
theorem patterns_reads {l : Language} (readable : Readable l) (sketches : List Sketch)
    (legal : Sketch.allAreOver l sketches) {depth rounds : Nat}
    (deep : (Sketch.allPieces sketches).length ≤ depth) (enough : sketches.length ≤ rounds)
    {seen : List String} {s : Source} (h : Stands seen (Sketch.allPieces sketches) s) :
    Reads (Reader.patterns l depth rounds) s (seen ++ Sketch.allNames sketches) []
      (Sketch.numberAll · sketches) := by
  induction sketches generalizing seen s rounds with
  | nil =>
    rw [Sketch.allNames, List.append_nil]
    cases rounds with
    | zero => exact ⟨[], s, rfl, h, fun _ => rfl⟩
    | succ rounds =>
      obtain ⟨s', skipped, faces⟩ := h.skipBlanks
      refine ⟨[], s', ?_, faces.stands, fun _ => rfl⟩
      rw [Reader.patterns, Reader.bind_ok skipped, Reader.bind_ok faces.peek_nil]
      rfl
  | cons p rest ih =>
    obtain ⟨rounds, rfl⟩ : ∃ n, rounds = n + 1 := ⟨rounds - 1, by simp at enough; omega⟩
    simp only [Sketch.allAreOver, Bool.and_eq_true] at legal
    simp only [Sketch.allPieces, List.length_append] at deep h
    have last : ∀ q ∈ (Sketch.allPieces rest).head?, q.isCapture = false := by
      cases rest with
      | nil => exact fun q hq => by simp [Sketch.allPieces] at hq
      | cons next rest => exact next.not_capture (Sketch.allPieces rest)
    have room : p.pieces.length ≤ depth := by omega
    have deep : (Sketch.allPieces rest).length ≤ depth := by omega
    obtain ⟨s₀, skipped, faces⟩ := h.skipBlanks
    obtain ⟨q, s₁, pattern, stands, numbered⟩ :=
      pattern_reads readable p legal.1 room last faces.stands
    obtain ⟨qs, s', patterns, stands, numbers⟩ := ih legal.2 deep (by simpa using enough) stands
    have head : ∃ c, Reader.peek s₀ = .ok (some c, s₀) := by
      obtain ⟨piece, more, c, pieces, _, head, _⟩ := p.pieces_head
      rw [pieces] at faces
      exact ⟨c, by rw [← head, faces.peek]⟩
    obtain ⟨c, peek⟩ := head
    rw [Sketch.allNames, ← List.append_assoc]
    refine ⟨q :: qs, s', ?_, stands, fun later => ?_⟩
    · rw [Reader.patterns, Reader.bind_ok skipped, Reader.bind_ok peek]
      show (Reader.pattern l depth >>= fun p => Reader.patterns l depth rounds >>= fun ps =>
        pure (p :: ps)) s₀ = _
      rw [Reader.bind_ok pattern, Reader.bind_ok patterns]
      rfl
    · have one := numbered (Sketch.allNames rest ++ later)
      rw [← List.append_assoc] at one
      exact congrArg₂ List.cons one (numbers later)

/-- All kinds and fields of routing scripts are words. -/
theorem readable_language : Readable Vocabulary.language := by
  constructor
  · decide +kernel
  · decide

theorem Sketch.allAreOver_iff {l : Language} {sketches : List Sketch} :
    allAreOver l sketches ↔ ∀ p ∈ sketches, p.isOver l := by
  induction sketches with
  | nil => simp [allAreOver]
  | cons p rest ih => simp [allAreOver, ih]

theorem Sketch.allPieces_eq (sketches : List Sketch) :
    allPieces sketches = sketches.flatMap pieces := by
  induction sketches with
  | nil => rfl
  | cons p rest ih => rw [allPieces, ih, List.flatMap_cons]

theorem Sketch.length_le_allPieces (sketches : List Sketch) :
    sketches.length ≤ (allPieces sketches).length := by
  induction sketches with
  | nil => exact Nat.zero_le _
  | cons p rest ih =>
    have positive := p.pieces_length_pos
    rw [allPieces, List.length_cons, List.length_append]
    omega

theorem Sketch.allNames_eq (sketches : List Sketch) :
    allNames sketches = sketches.flatMap names := by
  induction sketches with
  | nil => rfl
  | cons p rest ih => rw [allNames, ih, List.flatMap_cons]

theorem Sketch.numberAll_eq (table : List String) (sketches : List Sketch) :
    numberAll table sketches = sketches.map (number table) := by
  induction sketches with
  | nil => rfl
  | cons p rest ih => rw [numberAll, ih, List.map_cons]

/-- Whatever white space and comments stand between its pieces, a query is read back from what it
was written as. Its capture names are numbered in the order in which they are met. -/
theorem compile_written (sketches : List Sketch) (nonempty : sketches ≠ [])
    (legal : ∀ p ∈ sketches, p.isOver Vocabulary.language) (text : List Char)
    (written : Layout false (sketches.flatMap Sketch.pieces) text) :
    compile Vocabulary.language text = .ok
      ⟨sketches.map (Sketch.number (sketches.flatMap Sketch.names).eraseDups),
        (sketches.flatMap Sketch.names).eraseDups⟩ := by
  have legal := Sketch.allAreOver_iff.2 legal
  rw [← Sketch.allPieces_eq] at written
  rw [← Sketch.allNames_eq, ← Sketch.numberAll_eq]
  have valid := Sketch.valid_allPieces readable_language sketches legal
  have length := written.length_le valid
  have fewer := Sketch.length_le_allPieces sketches
  have deep : (Sketch.allPieces sketches).length ≤ 2 * text.length + 2 := by omega
  have enough : sketches.length ≤ 2 * text.length + 2 := by omega
  have start : Stands [] (Sketch.allPieces sketches) ⟨text, 0, []⟩ := ⟨rfl, written, valid⟩
  obtain ⟨ps, s, read, stands, numbered⟩ :=
    patterns_reads readable_language sketches legal deep enough start
  have table : s.names = (Sketch.allNames sketches).eraseDups := stands.names
  have patterns := numbered []
  rw [List.append_nil, List.nil_append] at patterns
  have filled : ps.isEmpty = false := by
    rw [patterns]
    cases sketches with
    | nil => contradiction
    | cons p rest => rfl
  rw [compile]
  simp only [read, bind, Except.bind, filled, if_neg Bool.false_ne_true]
  rw [patterns, table]

/-- Two names for one node, one of them behind a comment. -/
theorem compile_written_commented :
    compile Vocabulary.language "(statement left: _@a)@b ;c\n@a".toList =
      .ok ⟨[.node (.named "statement") [(some "left", .node .any [] [0])] [1, 0]], ["a", "b"]⟩ := by
  have space : Gap [' '] := .blank rfl .nil
  have comment : Gap [' ', ';', 'c', '\n'] :=
    .blank rfl (@Gap.comment ['c'] [] (by decide) .nil)
  have written : Layout false [.mark '(', .word "statement", .word "left", .mark ':', .word "_",
      .capture "a", .mark ')', .capture "b", .capture "a"] _ :=
    .cons .nil (by decide) <| .cons .nil (by decide) <| .cons space (by decide) <|
      .cons .nil (by decide) <| .cons space (by decide) <| .cons .nil (by decide) <|
      .cons .nil (by decide) <| .cons .nil (by decide) <| .cons comment (by decide) <| .nil .nil
  exact compile_written [.node (.named "statement") [(some "left", .node .any [] ["a"])] ["b", "a"]]
    (List.cons_ne_nil _ _) (by decide) _ written

end RouteScript.Query
