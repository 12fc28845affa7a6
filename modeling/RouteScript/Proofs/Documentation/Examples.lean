import RouteScript.Proofs.Documentation.Blocks
/-!
# Examples in module descriptions

The pass gathers all lines behind the announcement of an example that are no delimiters. So a
caption that goes on over several lines ends up in the example, in front of the lines between the
delimiters; the description is what stands before the announcement and behind the example.
-/
namespace RouteScript

namespace Text

theorem unlines_append (first second : List (List Char)) :
    unlines (first ++ second) = unlines first ++ unlines second := List.flatMap_append

theorem unlines_eq_nil_iff {lines : List (List Char)} : unlines lines = [] ↔ lines = [] := by
  cases lines <;> simp [unlines]

end Text

namespace Readme

namespace Pass

variable (module : String) {p : Pass} {e : Entry} {line : Line} {lines : List Line}

/-- Where a pass stands in the description of a function. -/
structure Reads (p : Pass) (e : Entry) (part : Part) (quoted : List Line) : Prop where
  current : p.current = some e
  part : p.part = part
  quoted : p.quoted = quoted

variable {quoted : List Line} {opened : Bool}

theorem Reads.announce (h : p.Reads e .description quoted) (plain : isHeader line = false)
    (announces : announcesExample line) :
    (p.step module line).Reads e (.announced false) quoted := by
  rw [step_describe plain h.current, describe, h.part]
  simp only [announces, if_true]
  exact ⟨h.current, rfl, h.quoted⟩

theorem Reads.delimit (h : p.Reads e (.announced opened) quoted) (plain : isHeader line = false)
    (delimits : isDelimiter line) : (p.step module line).Reads { e with exampleText := quoted }
      (if opened then .description else .announced true) quoted := by
  rw [step_describe plain h.current, describe, h.part]
  simp only [delimits, if_true, h.quoted]
  exact ⟨rfl, rfl, rfl⟩

/-- Lines that announce no example go to the description. -/
theorem Reads.describes (h : p.Reads e .description quoted) (plain : ∀ l ∈ lines, isHeader l = false)
    (silent : ∀ l ∈ lines, announcesExample l = false) :
    (lines.foldl (step module) p).Reads { e with description := e.description ++ lines }
      .description quoted := by
  induction lines generalizing p e with
  | nil => simpa using h
  | cons line lines ih =>
    obtain ⟨here, later⟩ := List.forall_mem_cons.1 plain
    obtain ⟨quiet, silent⟩ := List.forall_mem_cons.1 silent
    have onward : (p.step module line).Reads
        { e with description := e.description ++ [line] } .description quoted := by
      rw [step_describe here h.current, describe, h.part]
      simp only [quiet, Bool.false_eq_true, if_false]
      exact ⟨rfl, rfl, h.quoted⟩
    have final := ih onward later silent
    rw [List.foldl_cons]
    simpa using final

/-- Behind an announcement lines that are no delimiters are gathered, on either side of the first. -/
theorem Reads.quotes (h : p.Reads e (.announced opened) quoted)
    (plain : ∀ l ∈ lines, isHeader l = false) (inner : ∀ l ∈ lines, isDelimiter l = false) :
    (lines.foldl (step module) p).Reads e (.announced opened) (quoted ++ lines) := by
  induction lines generalizing p quoted with
  | nil => simpa using h
  | cons line lines ih =>
    obtain ⟨here, later⟩ := List.forall_mem_cons.1 plain
    obtain ⟨noDelimiter, inner⟩ := List.forall_mem_cons.1 inner
    have onward : (p.step module line).Reads e (.announced opened) (quoted ++ [line]) := by
      rw [step_describe here h.current, describe, h.part]
      simp only [noDelimiter, Bool.false_eq_true, if_false]
      exact ⟨h.current, rfl, by rw [h.quoted]⟩
    have final := ih onward later inner
    rw [List.foldl_cons]
    simpa using final

end Pass

/--
The lines behind a header, of which one announces an example and two behind that are delimiters:
what stands before the caption, what the caption is followed by up to the first delimiter, what
stands between the delimiters and what follows them.
-/
structure Illustrated (lines before wrapped inner behind : List Line) : Prop where
  parts : ∃ caption first second, announcesExample caption ∧ isDelimiter first ∧
    isDelimiter second ∧
    lines = before ++ caption :: (wrapped ++ first :: (inner ++ second :: behind)) ∧
    (wrapped ++ first :: (inner ++ second :: behind)).countP isDelimiter = 2
  once : lines.countP announcesExample = 1

theorem eq_false_of_countP {p : Line → Bool} {lines : List Line} (none : lines.countP p = 0) :
    ∀ l ∈ lines, p l = false := by
  simpa using List.countP_eq_zero.1 none

/-- What is read of a description with one example. -/
theorem Illustrated.reads (module : String) {lines before wrapped inner behind : List Line}
    (h : Illustrated lines before wrapped inner behind) {p : Pass} {e : Entry}
    (plain : ∀ l ∈ lines, isHeader l = false) (start : p.Reads e .description []) :
    (lines.foldl (Pass.step module) p).Reads
      ⟨e.header, e.description ++ before ++ behind, wrapped ++ inner⟩ .description
      (wrapped ++ inner) := by
  obtain ⟨⟨caption, first, second, announces, delimits, delimits', rfl, twice⟩, once⟩ := h
  simp only [List.countP_append, List.countP_cons, announces, delimits, delimits', if_true]
    at once twice
  simp only [List.forall_mem_append, List.forall_mem_cons] at plain
  obtain ⟨plainBefore, plainCaption, plainWrapped, plainFirst, plainInner, plainSecond,
    plainBehind⟩ := plain
  have described := start.describes module plainBefore
    (eq_false_of_countP (by omega))
  have announced := described.announce module plainCaption announces
  have gathered := announced.quotes module plainWrapped
    (eq_false_of_countP (by omega))
  have opened := gathered.delimit module plainFirst delimits
  have quoted := opened.quotes module plainInner (eq_false_of_countP (by omega))
  have closed := quoted.delimit module plainSecond delimits'
  have final := closed.describes module plainBehind (eq_false_of_countP (by omega))
  simpa using final

/--
The block of a header with one example, where no block behind it describes the same function: the
description is what stands before the caption and behind the second delimiter. The example is what
stands between the delimiters, with all lines between the caption and the first delimiter before
it; so it is the lines between the delimiters exactly if there are no such lines.
-/
theorem parse_example (module : String) {text block : List Char} {earlier later : List (List Char)}
    {line : Line} {header : String × String} {lines before wrapped inner behind : List Line}
    (cuts : (cut text).2 = earlier ++ block :: later) (starts : Text.lines block = line :: lines)
    (named : functionHeader? line = some header)
    (last : ∀ other ∈ later, (parse module other).functions.get? header.1 = none)
    (illustrated : Illustrated lines before wrapped inner behind) :
    ∃ doc, (parse module text).functions.get? header.1 = some doc ∧
      doc.module = module ∧ doc.name = header.1 ∧ doc.parameters = header.2 ∧
      doc.description = String.ofList (Text.unlines (before ++ behind)) ∧
      doc.exampleText = String.ofList (Text.unlines (wrapped ++ inner)) ∧
      (doc.exampleText = String.ofList (Text.unlines inner) ↔ wrapped = []) := by
  obtain ⟨-, -, blocks, functions, -⟩ := parse_cut module text
  obtain ⟨line', lines', starts', -, plain⟩ := blocks block (by simp [cuts])
  obtain ⟨rfl, rfl⟩ : line' = line ∧ lines' = lines := by
    rw [starts] at starts'
    cases starts'
    exact ⟨rfl, rfl⟩
  have read := illustrated.reads module (e := ⟨header, [], []⟩) plain
    (p := Pass.start.begin module header) ⟨rfl, rfl, rfl⟩
  let e : Entry := ⟨header, before ++ behind, wrapped ++ inner⟩
  have alone : (parse module block).functions.get? header.1 = some (e.doc module) := by
    change ((passOver module (Text.lines block)).finish module).get? header.1 = _
    rw [starts, passOver, List.foldl_cons, Pass.step_header named, Pass.finish, read.current]
    exact (Dictionary.get?_insert ..).trans (if_pos rfl)
  refine ⟨e.doc module, ?_, rfl, rfl, rfl, rfl, rfl, ?_⟩
  · have none_later : (later.reverse.findSome? fun other =>
        (parse module other).functions.get? header.1) = none :=
      List.findSome?_eq_none_iff.2 fun other member => last other (List.mem_reverse.1 member)
    rw [functions, cuts, List.reverse_append, List.reverse_cons, List.append_assoc,
      List.findSome?_append, none_later, Option.none_or, List.singleton_append,
      List.findSome?_cons, alone]
  · change String.ofList (Text.unlines (wrapped ++ inner)) = _ ↔ _
    rw [String.ofList_inj, Text.unlines_append, List.append_left_eq_self, Text.unlines_eq_nil_iff]

/-- A function that the table of contents lists before, with lines on all sides of its example. -/
theorem parse_example_listed : ∃ doc,
    (parse "m" ("1.1. f()\n1.1. f(a)\n Does it.\n Example 1. f\n of one\n...\nf(1);\n...\n" ++
      " See g.\n").toList).functions.get? "f" = some doc ∧
      doc.description = " Does it.\n See g.\n" ∧ doc.exampleText = " of one\nf(1);\n" := by
  have illustrated : Illustrated
      [" Does it.".toList, " Example 1. f".toList, " of one".toList, "...".toList, "f(1);".toList,
        "...".toList, " See g.".toList]
      [" Does it.".toList] [" of one".toList] ["f(1);".toList] [" See g.".toList] :=
    ⟨⟨" Example 1. f".toList, "...".toList, "...".toList, by decide, by decide,
      by decide, rfl, by decide⟩, by decide⟩
  have cuts : (cut ("1.1. f()\n1.1. f(a)\n Does it.\n Example 1. f\n of one\n...\nf(1);\n...\n" ++
        " See g.\n").toList).2
      = ["1.1. f()\n".toList] ++
        "1.1. f(a)\n Does it.\n Example 1. f\n of one\n...\nf(1);\n...\n See g.\n".toList :: [] := by
    decide
  have named : functionHeader? "1.1. f(a)".toList = some ("f", "a") := by decide
  obtain ⟨doc, found, -, -, -, description, exampleText, -⟩ :=
    parse_example "m" cuts (by decide) named (by simp) illustrated
  exact ⟨doc, found, description.trans (by decide), exampleText.trans (by decide)⟩

/-- The second line of a caption stands in the example, not only what the delimiters enclose. -/
theorem parse_example_wrapped :
    let text := "1.1. f()\n Example 1. caption\n that wraps\n...\nf();\n...\n".toList
    (cut text).2 = [text] ∧
    Illustrated (Text.lines text).tail [] [" that wraps".toList] ["f();".toList] [] ∧
    ((parse "m" text).functions.get? "f").map FunctionDoc.exampleText
      = some " that wraps\nf();\n" ∧
    String.ofList (Text.unlines ["f();".toList]) ≠ " that wraps\nf();\n" := by
  refine ⟨by decide, ⟨⟨" Example 1. caption".toList, "...".toList, "...".toList,
    ?_, ?_, ?_, ?_, ?_⟩, ?_⟩, ?_, ?_⟩
  all_goals decide

end Readme

end RouteScript
