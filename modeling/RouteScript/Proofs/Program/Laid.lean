import RouteScript.Proofs.Program.Assignments
import RouteScript.Proofs.Program.Places
/-!
# Outlines laid over printed bits

The outlines of an expression use up the bits it is printed with, and its node reaches from the first
of them to the last.
-/
namespace RouteScript

namespace Outline

/-- Outlines in which no node has one of these kinds. -/
def Clear (kinds : List String) (os : List Outline) : Prop :=
  ∀ o ∈ os, ∀ form ∈ o.labels, form.kind ∉ kinds

variable {kinds : List String} {os os' : List Outline}

theorem clear_append : Clear kinds (os ++ os') ↔ Clear kinds os ∧ Clear kinds os' :=
  List.forall_mem_append

theorem clear_node {form : Form} :
    Clear kinds [.node form os] ↔ form.kind ∉ kinds ∧ Clear kinds os := by
  simp only [Clear, List.forall_mem_singleton, Rose.labels_node, List.forall_mem_cons,
    List.mem_flatMap, forall_exists_index, and_imp]
  exact and_congr_right fun _ => ⟨fun h o ho f hf => h f o ho hf, fun h f o ho hf => h o ho f hf⟩

theorem clear_labelled {o : Outline} (h : Clear kinds [o]) (field : String) :
    Clear kinds [labelled field o] := by
  obtain ⟨form, below⟩ := o
  obtain ⟨known, inner⟩ := clear_node.1 h
  exact clear_node.2 ⟨known, inner⟩

theorem Clear.mono {some_kinds : List String} (h : Clear kinds os)
    (sub : ∀ kind ∈ some_kinds, kind ∈ kinds) : Clear some_kinds os :=
  fun o ho form hform found => h o ho form hform (sub _ found)

end Outline

namespace Draft

theorem Reach.append {low mid mid' high : Nat} {ds ds' : List Draft} (h : Reach low ds mid)
    (h' : Reach mid' ds' high) : Reach low (ds ++ ds') high := by
  refine ⟨List.forall_mem_append.2 ⟨h.tight, h'.tight⟩, ?_, ?_⟩
  · obtain ⟨d, head, here⟩ := h.first
    exact ⟨d, by rw [List.head?_append, head]; rfl, here⟩
  · obtain ⟨d, last, here⟩ := h'.last
    exact ⟨d, by rw [List.getLast?_append, last]; rfl, here⟩

end Draft

namespace Program

open Bit Outline Draft

variable {source : List Char} {os os' : List Outline} {bits mid rest : List Bit} {o : Outline}

/-- The first of the bits that end a text are the leaves of some outlines. -/
def Laid (source : List Char) (os : List Outline) (bits : List Bit) (ds : List Draft)
    (rest : List Bit) : Prop :=
  layAll (spans (Text.size source) bits) os = (ds, spans (Text.size source) rest)

namespace Laid

variable {ds ds' : List Draft} {d : Draft}

theorem append (h : Laid source os bits ds mid) (h' : Laid source os' mid ds' rest) :
    Laid source (os ++ os') bits (ds ++ ds') rest := by
  rw [Laid, layAll_append, h, h']

theorem node (h : Laid source os bits ds rest) (form : Form) (nonempty : os ≠ []) :
    Laid source [.node form os] bits [form.branch ds] rest := by
  rw [Laid, layAll, layAll, lay_node form nonempty, h]

theorem labelled (h : Laid source [o] bits [d] rest) (field : String) :
    Laid source [labelled field o] bits [d.withField field] rest := by
  obtain ⟨form, below⟩ := o
  rw [Laid, layAll, layAll] at *
  simp only [Prod.mk.injEq, List.cons.injEq, and_true] at h ⊢
  obtain ⟨rfl, same⟩ := h
  cases below with
  | nil => exact ⟨rfl, same⟩
  | cons b below =>
    rw [lay_node form (List.cons_ne_nil b below)] at same ⊢
    rw [Outline.labelled, reform, lay_node _ (List.cons_ne_nil b below)]
    exact ⟨rfl, same⟩

end Laid

/-- The kinds that no part of a printed program has. -/
def foreignKinds : List String := Kind.xml :: extraKinds

/-- The kinds that no part of an expression has. -/
def otherKinds : List String := Kind.assignment :: foreignKinds

/-- Bits are the leaves of some outlines, from the first to the last of them. -/
def Fills (source : List Char) (os : List Outline) (bits rest : List Bit) : Prop :=
  Clear otherKinds os ∧ ∃ ds, Laid source os bits ds rest ∧
    Reach (offset (Text.size source) bits) ds (offset (Text.size source) rest)

namespace Fills

theorem append (h : Fills source os bits mid) (h' : Fills source os' mid rest) :
    Fills source (os ++ os') bits rest := by
  obtain ⟨clear, ds, laid, reach⟩ := h
  obtain ⟨clear', ds', laid', reach'⟩ := h'
  exact ⟨clear_append.2 ⟨clear, clear'⟩, ds ++ ds', laid.append laid', reach.append reach'⟩

/-- Blanks may stand between two bits. -/
theorem spaced {text : List Char} (h : Fills source os bits (.gap text :: mid))
    (h' : Fills source os' mid rest) : Fills source (os ++ os') bits rest := by
  obtain ⟨clear, ds, laid, reach⟩ := h
  obtain ⟨clear', ds', laid', reach'⟩ := h'
  exact ⟨clear_append.2 ⟨clear, clear'⟩, ds ++ ds', Laid.append laid laid', reach.append reach'⟩

theorem node (h : Fills source os bits rest) (kind : String) (known : kind ∉ otherKinds)
    (nonempty : os ≠ []) : Fills source [nodeOf kind os] bits rest := by
  obtain ⟨clear, ds, laid, reach⟩ := h
  exact ⟨clear_node.2 ⟨known, clear⟩, _, laid.node _ nonempty, reach.branch kind⟩

theorem wrap (h : Fills source [o] bits rest) : Fills source [wrapped o] bits rest :=
  h.node Kind.expression (by decide) (List.cons_ne_nil _ _)

theorem labelled (h : Fills source [o] bits rest) (field : String) :
    Fills source [labelled field o] bits rest := by
  obtain ⟨clear, ds, laid, reach⟩ := h
  obtain ⟨d, rfl⟩ : ∃ d, ds = [d] := ⟨_, (congrArg Prod.fst laid).symm⟩
  obtain ⟨tight, notExtra, low, high⟩ := reach_singleton.1 reach
  exact ⟨clear_labelled clear field, _, laid.labelled field,
    low ▸ high ▸ ((ReplaceableBy.refl d).withField field).reach tight notExtra⟩

theorem leaf {form : Form} (known : form.kind ∉ otherKinds) {kind : Token.Kind}
    (significant : kind.isTrivia = false) (text : List Char) (rest : List Bit) :
    Fills source [.node form []] (.token kind text :: rest) rest := by
  refine ⟨clear_node.2 ⟨known, by simp [Clear]⟩, [.node (form.tag (offset (Text.size source)
    (.token kind text :: rest), offset (Text.size source) rest)) []], ?_,
    reach_singleton.2 ⟨tight_leaf rfl rfl, rfl, rfl, rfl⟩⟩
  rw [Laid, spans, if_neg (by simp [significant])]
  rfl

theorem sign {kind : Token.Kind} (significant : kind.isTrivia = false) (rest : List Bit) :
    Fills source [Outline.sign kind] (Bit.sign kind :: rest) rest :=
  leaf (by cases kind <;> decide) significant _ rest

theorem keyword {text : String} (known : text ∉ otherKinds) (rest : List Bit) :
    Fills source [Outline.keyword text] (Bit.word text.toList :: rest) rest :=
  leaf known rfl _ rest

theorem named {kind : String} (known : kind ∉ otherKinds) {token : Token.Kind}
    (significant : token.isTrivia = false) (text : List Char) (rest : List Bit) :
    Fills source [Outline.leaf kind text] (.token token text :: rest) rest :=
  leaf known significant text rest

theorem identifier (name : Name) (rest : List Bit) :
    Fills source [Program.identifier name] (Bit.word name.text :: rest) rest :=
  named (by decide) rfl _ rest

theorem number (value : Nat) (rest : List Bit) :
    Fills source [Program.number value] (Bit.number value :: rest) rest :=
  named (by decide) rfl _ rest

theorem quotation (value : Quotable) (rest : List Bit) :
    Fills source [Program.quotation value] (Bit.quotation value :: rest) rest :=
  named (by decide) rfl _ rest

theorem pseudoVariable (h : Fills source [o] bits rest) :
    Fills source [pseudoVariable o] (Bit.sign .dollar :: bits) rest :=
  ((sign rfl bits).append (h.node Kind.pseudoContent (by decide) (by simp))).node _ (by decide)
    (by simp)

/-- Outlines in parentheses. -/
theorem parenthesized (h : Fills source (os ++ [Outline.sign .rParen]) bits rest)
    (kind : String) (known : kind ∉ otherKinds) :
    Fills source [nodeOf kind (Outline.sign .lParen :: os ++ [Outline.sign .rParen])]
      (Bit.sign .lParen :: bits) rest :=
  ((sign rfl bits).append h).node kind known (by simp)

theorem call (function : List Char) (h : Fills source (os ++ [Outline.sign .rParen]) bits rest) :
    Fills source [nodeOf Kind.call
      [Outline.labelled Field.function (wrapped (Outline.leaf Kind.identifier function)),
        Outline.labelled Field.arguments (nodeOf Kind.argumentList
          (Outline.sign .lParen :: os ++ [Outline.sign .rParen]))]]
      (Bit.word function :: Bit.sign .lParen :: bits) rest := by
  have arguments := (h.parenthesized Kind.argumentList (by decide)).labelled Field.arguments
  exact (((named (by decide) rfl function _).wrap.labelled Field.function).append arguments).node
    Kind.call (by decide) (by simp)

end Fills

theorem Scope.fills (scope : Scope) (name : Name) (rest : List Bit) :
    Fills source [scope.outline name] (scope.bits name rest) rest := by
  have word : scope.word ∉ otherKinds := by cases scope <;> decide
  have kind : scope.kind ∉ otherKinds := by cases scope <;> decide
  refine .pseudoVariable (.node ((Fills.keyword word _).append ?_) scope.kind kind (by simp))
  refine (Fills.sign rfl _).append (Fills.append (.labelled ?_ Field.name) (Fills.sign rfl rest))
  exact (Fills.identifier name _).node Kind.variableName (by decide) (by simp)

mutual

theorem Expr.fills : ∀ (e : Expr) (rest : List Bit),
    Fills source [wrapped e.outline] (e.bits rest) rest
  | .number value, rest => (Fills.number value rest).wrap
  | .string value, rest => (Fills.quotation value rest).wrap
  | .userVariable scope name, rest => (scope.fills name rest).wrap
  | .builtin name none, rest => (Fills.identifier name rest).pseudoVariable.wrap
  | .builtin name (some argument), rest => by
    refine .wrap (.pseudoVariable (.node ?_ Kind.pvarCall (by decide) (by simp)))
    refine ((Fills.identifier name _).labelled Field.pvarClass).append ((Fills.sign rfl _).append
      (Fills.append (.labelled ?_ Field.argument) (Fills.sign rfl rest)))
    exact (Fills.identifier argument _).node Kind.pvarArgument (by decide) (by simp)
  | .binary left operator right, rest => by
    have plain : operator.kind.isTrivia = false := by
      have binary := operator.binary
      cases kind : operator.kind <;> first | rfl | simp [kind, Script.precedence?] at binary
    have operands : Fills source [wrapped (nodeOf Kind.binary
        [labelled Field.left (wrapped left.outline),
          labelled Field.operator (Outline.sign operator.kind),
          labelled Field.right (wrapped right.outline)])]
        (left.bits (space :: Bit.sign operator.kind :: space
          :: right.bits (Bit.sign .rParen :: rest))) (Bit.sign .rParen :: rest) := by
      refine .wrap (.node (((left.fills _).labelled Field.left).spaced ?_) _ (by decide) (by simp))
      exact ((Fills.sign plain _).labelled Field.operator).spaced
        ((right.fills _).labelled Field.right)
    exact ((operands.append (Fills.sign rfl rest)).parenthesized _ (by decide)).wrap
  | .call function arguments, rest =>
    (Fills.call function.text (Expr.fills_all arguments (Fills.sign rfl rest))).wrap

theorem Expr.fills_all : ∀ (es : List Expr) {os : List Outline} {mid rest : List Bit},
    Fills source os mid rest → Fills source (Expr.outlines es ++ os) (Expr.bitsAll es mid) rest
  | [], _, _, _, h => h
  | [e], _, mid, _, h => (e.fills mid).append h
  | e :: e' :: es, _, _, _, h =>
    (e.fills _).append ((Fills.sign rfl _).spaced (Expr.fills_all (e' :: es) h))

end

end Program

end RouteScript
