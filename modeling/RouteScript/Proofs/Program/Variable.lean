import RouteScript.Proofs.Program.Rules
import RouteScript.Proofs.Program.Printed
/-!
# Printed variables

User variables and builtins are read as they were printed.
-/
namespace RouteScript.Script

open Draft Outline Program

variable {β : Type} {a : List Char} {p : Option Nat} {s : Stream} {ls rest : List Token.Look}

/-- A node of this outline. -/
def Gets (a : List Char) (o : Outline) (out : Outcome) : Prop := ∃ d, out = .ok d ∧ Shows a [d] [o]

/-- An expression node around a node of this outline. -/
def Yields (a : List Char) (o : Outline) (out : Outcome) : Prop :=
  ∃ d, out = .ok (wrap d) ∧ Shows a [d] [o]

/-- The looks do not begin with a token of this kind. -/
def Without (kind : Token.Kind) (ls : List Token.Look) : Prop :=
  ∀ l, ls.head? = some l → l.kind ≠ kind

theorem without_cons {l : Token.Look} {kind : Token.Kind} (h : l.kind ≠ kind) :
    Without kind (l :: ls) := by
  simpa [Without] using h

theorem not_keyword {text : List Char} (free : String.ofList text ∉ Vocabulary.keywords)
    (w : String) (keyword : w ∈ Vocabulary.keywords) : String.ofList text ≠ w := by
  rintro rfl
  exact free keyword

theorem group_placeless (opening closing : Token.Kind) : Placeless (Group.step opening closing) := by
  intro a g l t seen
  unfold Group.step
  rw [seen.kind, seen.newlineBefore]
  rfl

/-- One token in parentheses. -/
theorem Parses.balanced {text : List Char} {first adjacent adjacent' adjacent'' : Bool}
    {k : Option (List Draft) → Reader β} {post : β → Prop}
    (h : ∀ {p s} t u v, Shows a [tokenLeaf t] [sign .lParen] →
      Shows a [tokenLeaf u] [leaf Kind.identifier text] → Shows a [tokenLeaf v] [sign .rParen] →
      Parses a p ls s (k (some [tokenLeaf t, tokenLeaf u, tokenLeaf v])) rest post) :
    Parses a p (⟨.lParen, ['('], first, adjacent⟩ :: ⟨.identifier, text, false, adjacent'⟩
      :: ⟨.rParen, [')'], false, adjacent''⟩ :: ls) s
      (balanced .lParen .rParen >>= k) rest post := by
  intro ahead
  have takes : Takes (Group.step .lParen .rParen) ⟨0, true, true⟩ ls ⟨0, false, false⟩
      [⟨.lParen, ['('], first, adjacent⟩, ⟨.identifier, text, false, adjacent'⟩,
        ⟨.rParen, [')'], false, adjacent''⟩] :=
    ⟨⟨1, true, false⟩, rfl, ⟨1, true, false⟩, rfl, ⟨0, true, true⟩, rfl, rfl, fun _ _ => rfl⟩
  obtain ⟨us, seen, result, p', later⟩ :=
    Ahead.collect (group_placeless .lParen .rParen) takes ahead
  obtain _ | @⟨_, t, _, _, opens, seen⟩ := seen
  obtain _ | @⟨_, u, _, _, inner, seen⟩ := seen
  obtain _ | @⟨_, v, _, _, closes, seen⟩ := seen
  cases seen
  have taken : Script.balanced .lParen .rParen s
      = (some [tokenLeaf t, tokenLeaf u, tokenLeaf v],
        (collect (Group.step .lParen .rParen) ⟨0, false, false⟩ s).2) := by
    unfold Script.balanced
    cases whole : collect (Group.step .lParen .rParen) ⟨0, false, false⟩ s with
    | mk out s' =>
      rw [whole] at result
      obtain rfl : out = _ := result
      rfl
  have both : (Script.balanced .lParen .rParen >>= k) s
      = k (some [tokenLeaf t, tokenLeaf u, tokenLeaf v])
        (collect (Group.step .lParen .rParen) ⟨0, false, false⟩ s).2 := by
    change k (Script.balanced .lParen .rParen s).1 (Script.balanced .lParen .rParen s).2 = _
    rw [taken]
  unfold Parses at h
  rw [both]
  exact h t u v (opens.tokenLeaf (by simp)) (inner.tokenLeaf (by simp))
    (closes.tokenLeaf (by simp)) later

section Parts

variable {className : Token} {opening inner closing : Draft} {argument : List Char}
  (opens : Shows a [opening] [sign .lParen]) (named : Shows a [inner] [leaf Kind.identifier argument])
  (closes : Shows a [closing] [sign .rParen])
include opens named closes

/-- The parts of a user variable. -/
theorem scopeParts_parses (scope : Scope) {l : Token.Look} (seen : Seen a l className)
    (text : l.text = scope.word.toList) :
    Parses a p ls s (variableParts className opening [inner] closing) ls
      (Shows a [·] [nodeOf scope.kind [keyword scope.word, sign .lParen,
        labelled Field.name (nodeOf Kind.variableName [leaf Kind.identifier argument]),
        sign .rParen]]) := by
  have word : className.word = scope.word := by rw [seen.word, text, String.ofList_toList]
  have known : userVariableKind? scope.word = some scope.kind := by cases scope <;> rfl
  have shown : Shows a [keywordLeaf className] [keyword scope.word] := by
    refine seen.keywordLeaf ?_ text
    cases scope <;> rfl
  have noError : scope.kind ≠ errorKind := by cases scope <;> decide
  unfold variableParts
  rw [word, known]
  refine .bind (named.node (by simp) (by decide)) fun name shows => ?_
  exact (shown.cons (opens.cons ((shows.withField _).cons closes))).node (by simp) noError

/-- The parts of another variable with an argument. -/
theorem callParts_parses {text : List Char} {first adjacent : Bool}
    (seen : Seen a ⟨.identifier, text, first, adjacent⟩ className)
    (free : String.ofList text ∉ Vocabulary.keywords) :
    Parses a p ls s (variableParts className opening [inner] closing) ls
      (Shows a [·] [nodeOf Kind.pvarCall [labelled Field.pvarClass (leaf Kind.identifier text),
        sign .lParen,
        labelled Field.argument (nodeOf Kind.pvarArgument [leaf Kind.identifier argument]),
        sign .rParen]]) := by
  have unknown : userVariableKind? className.word = none := by
    have other := not_keyword free
    rw [seen.word]
    unfold userVariableKind?
    simp [other "avp" (by decide), other "var" (by decide), other "dlg_var" (by decide)]
  have shown : Shows a [tokenLeaf className] [leaf Kind.identifier text] :=
    seen.tokenLeaf (by simp)
  unfold variableParts
  rw [unknown]
  refine .bind (named.node (by simp) (by decide)) fun name shows => ?_
  exact ((shown.withField _).cons (opens.cons ((shows.withField _).cons closes))).node (by simp)
    (by decide)

end Parts

section Contents

variable {text : List Char} {first adjacent : Bool}

/-- A class without an argument. -/
theorem plainContent_parses (noArgument : Without .lParen ls) :
    Parses a p (⟨.identifier, text, first, adjacent⟩ :: ls) s pseudoContent ls
      (Gets a (nodeOf Kind.pseudoContent [leaf Kind.identifier text])) := by
  refine .next fun className seen => .isAdjacent_no noArgument ?_
  have shown : Shows a [tokenLeaf className] [leaf Kind.identifier text] :=
    seen.tokenLeaf (by simp)
  exact .bind (shown.node (by simp) (by decide)) fun d shows => .pure ⟨d, rfl, shows⟩

/-- A class with one word as its argument. -/
theorem callContent_parses {argument : List Char} {adjacent' adjacent'' : Bool} {o : Outline}
    (parts : ∀ {p s} className opening inner closing,
      Seen a ⟨.identifier, text, first, adjacent⟩ className → Shows a [opening] [sign .lParen] →
      Shows a [inner] [leaf Kind.identifier argument] → Shows a [closing] [sign .rParen] →
      Parses a p ls s (variableParts className opening [inner] closing) ls (Shows a [·] [o]))
    (noIndex : Without .lBracket ls) :
    Parses a p (⟨.identifier, text, first, adjacent⟩ :: ⟨.lParen, ['('], false, true⟩
      :: ⟨.identifier, argument, false, adjacent'⟩ :: ⟨.rParen, [')'], false, adjacent''⟩ :: ls) s
      pseudoContent ls (Gets a (nodeOf Kind.pseudoContent [o])) := by
  refine .next fun className seen => .isAdjacent_yes rfl ?_
  refine .balanced fun t u v opens named closes => ?_
  refine .bind (parts className _ _ _ seen opens named closes) fun d shows => ?_
  refine .isAdjacent_no noIndex ?_
  exact .bind (shows.node (by simp) (by decide)) fun d shows => .pure ⟨d, rfl, shows⟩

/-- A variable whose sign and content stand together. -/
theorem pseudoVariable_parses {l : Token.Look} {newline adjacent' : Bool} {o : Outline}
    (class' : l.kind = .identifier) (close : l.adjacent)
    (content : ∀ {p s}, Parses a p (l :: ls) s pseudoContent rest
      (Gets a (nodeOf Kind.pseudoContent [o]))) :
    Parses a p (⟨.dollar, ['$'], newline, adjacent'⟩ :: l :: ls) s pseudoVariable rest
      (Yields a (Program.pseudoVariable o)) := by
  refine .next fun dollar seen => .isAdjacent_no (without_cons (by simp [class'])) ?_
  have sign : Shows a [.leaf "$" false dollar.start dollar.stop] [sign .dollar] :=
    seen.sign (by decide)
  rw [← class']
  refine .isAdjacent_yes close ?_
  refine .bind content fun out gets => ?_
  obtain ⟨d, rfl, shows⟩ := gets
  exact .bind ((sign.cons shows).node (by simp) (by decide)) fun d shows => .pure ⟨d, rfl, shows⟩

end Contents

theorem Scope.parses (scope : Scope) (name : Name) {bits : List Bit} {newline adjacent : Bool}
    (noIndex : Without .lBracket (Bit.looks false true bits)) :
    Parses a p (Bit.looks newline adjacent (scope.bits name bits)) s Script.pseudoVariable
      (Bit.looks false true bits) (Yields a (scope.outline name)) :=
  pseudoVariable_parses rfl rfl (callContent_parses
    (fun _ _ _ _ seen opens named closes => scopeParts_parses opens named closes scope seen rfl)
    noIndex)

theorem builtin_parses (name : Name) (argument : Option Name) {bits : List Bit}
    {newline adjacent : Bool} (noArgument : Without .lParen (Bit.looks false true bits))
    (noIndex : Without .lBracket (Bit.looks false true bits)) :
    Parses a p (Bit.looks newline adjacent ((Expr.builtin name argument).bits bits)) s
      Script.pseudoVariable (Bit.looks false true bits)
      (Yields a (Expr.builtin name argument).outline) := by
  cases argument with
  | none => exact pseudoVariable_parses rfl rfl (plainContent_parses noArgument)
  | some argument =>
    exact pseudoVariable_parses rfl rfl (callContent_parses
      (fun _ _ _ _ seen opens named closes => callParts_parses opens named closes seen name.free)
      noIndex)

end RouteScript.Script
