import RouteScript.Documentation.Readme
import RouteScript.Proofs.Format.Line
import RouteScript.Proofs.Query.Reading
/-!
# Blocks of a module description

A README falls into the text before the first header and a block for every header. Whatever state
the pass over its lines is in at a header, the block is read as it is by itself; the titles of
sections come from the text before the blocks.
-/
namespace RouteScript

namespace Text

/-- A line as it stands in the text, with its end. -/
def whole : List Char × Bool → List Char
  | (text, ended) => if ended then text ++ ['\n'] else text

theorem lines_newline {text : List Char} (noBreak : '\n' ∉ text) (rest : List Char) :
    lines (text ++ '\n' :: rest) = line (text, true) :: lines rest := by
  rw [lines, pieces_newline noBreak, List.map_cons, lines]

theorem lines_last {text : List Char} (noBreak : '\n' ∉ text) (nonempty : text ≠ []) :
    lines text = [line (text, false)] := by
  rw [lines, pieces_line noBreak nonempty, List.map_singleton]

end Text

namespace Readme

def isHeader (line : Line) : Bool := (functionHeader? line).isSome

/-- Puts a line before what is cut behind it; a header starts a block of its own. -/
def cutBefore (piece : List Char × Bool) (behind : List Char × List (List Char)) :
    List Char × List (List Char) :=
  if isHeader (Text.line piece) then ([], (Text.whole piece ++ behind.1) :: behind.2)
  else (Text.whole piece ++ behind.1, behind.2)

/-- The text before the first header, and for every header the text up to the next one. -/
def cut (text : List Char) : List Char × List (List Char) :=
  (Text.pieces text).foldr cutBefore ([], [])

/-- The lines of a block: a header, and no other one. -/
def IsBlock (lines : List Line) : Prop :=
  ∃ line rest, lines = line :: rest ∧ isHeader line ∧ ∀ l ∈ rest, isHeader l = false

theorem cut_newline {text : List Char} (noBreak : '\n' ∉ text) (rest : List Char) :
    cut (text ++ '\n' :: rest) = cutBefore (text, true) (cut rest) := by
  rw [cut, Text.pieces_newline noBreak, List.foldr_cons, cut]

theorem cut_last {text : List Char} (noBreak : '\n' ∉ text) (nonempty : text ≠ []) :
    cut text = cutBefore (text, false) ([], []) := by
  rw [cut, Text.pieces_line noBreak nonempty, List.foldr_cons, List.foldr_nil]

theorem cutBefore_flatten (piece : List Char × Bool) (behind : List Char × List (List Char)) :
    (cutBefore piece behind).1 ++ (cutBefore piece behind).2.flatten
      = Text.whole piece ++ (behind.1 ++ behind.2.flatten) := by
  unfold cutBefore
  split <;> simp

/-- Cutting loses nothing. -/
theorem cut_flatten (text : List Char) : (cut text).1 ++ (cut text).2.flatten = text := by
  induction text using Text.line_induction with
  | nil => rfl
  | last text noBreak nonempty =>
    rw [cut_last noBreak nonempty, cutBefore_flatten]
    simp [Text.whole]
  | line text rest noBreak ih =>
    rw [cut_newline noBreak, cutBefore_flatten, ih]
    simp [Text.whole]

/-- What is cut before the first header has none, and every block has one at its head. -/
structure Parted (lines : List Line) (parts : List Char × List (List Char)) : Prop where
  lines : lines = Text.lines parts.1 ++ (parts.2.map Text.lines).flatten
  before : ∀ l ∈ Text.lines parts.1, isHeader l = false
  blocks : ∀ block ∈ parts.2, IsBlock (Text.lines block)

theorem Parted.cutBefore {lines : List Line} {piece : List Char × Bool}
    {parts : List Char × List (List Char)} (h : Parted lines parts)
    (first : Text.lines (Text.whole piece ++ parts.1) = Text.line piece :: Text.lines parts.1) :
    Parted (Text.line piece :: lines) (cutBefore piece parts) := by
  unfold Readme.cutBefore
  split
  · rename_i header
    refine ⟨?_, by simp [Text.lines, Text.pieces], List.forall_mem_cons.2 ⟨?_, h.blocks⟩⟩
    · rw [h.lines, List.map_cons, List.flatten_cons, first]
      simp [Text.lines, Text.pieces]
    · exact ⟨_, _, first, header, h.before⟩
  · rename_i plain
    refine ⟨?_, ?_, h.blocks⟩
    · rw [first, List.cons_append, ← h.lines]
    · rw [first]
      exact List.forall_mem_cons.2 ⟨by simpa using plain, h.before⟩

theorem parted_cut (text : List Char) : Parted (Text.lines text) (cut text) := by
  have nothing : Parted [] ([], []) := ⟨rfl, by simp [Text.lines, Text.pieces], by simp⟩
  induction text using Text.line_induction with
  | nil => exact nothing
  | last text noBreak nonempty =>
    rw [cut_last noBreak nonempty, Text.lines_last noBreak nonempty]
    refine nothing.cutBefore ?_
    rw [List.append_nil]
    exact Text.lines_last noBreak nonempty
  | line text rest noBreak ih =>
    rw [cut_newline noBreak, Text.lines_newline noBreak]
    refine ih.cutBefore ?_
    rw [Text.whole, if_pos rfl, List.append_assoc]
    exact Text.lines_newline noBreak _

namespace Pass

variable {module : String} {p : Pass} {e : Entry} {line : Line}

theorem step_header {header : String × String} (h : functionHeader? line = some header) :
    p.step module line = p.begin module header := by
  simp [step, h]

theorem step_title (plain : isHeader line = false) (none : p.current = none) :
    p.step module line = p.title line := by
  have noHeader : functionHeader? line = .none := by simpa [isHeader] using plain
  simp [step, noHeader, none]

theorem step_describe (plain : isHeader line = false) (reading : p.current = some e) :
    p.step module line = p.describe line e := by
  have noHeader : functionHeader? line = none := by simpa [isHeader] using plain
  simp [step, noHeader, reading]

/-- The same place in a file of which other parts were read before. -/
def after (sections : List String) (functions : Dictionary FunctionDoc) (p : Pass) : Pass :=
  { p with sections, functions }

/-- A line of a description neither looks at the parts before nor changes them. -/
theorem describe_after (sections : List String) (functions : Dictionary FunctionDoc) :
    (p.after sections functions).describe line e
      = (p.describe line e).after sections functions := by
  unfold describe after
  cases p.part <;> dsimp only <;> split <;> rfl

theorem current_describe (line : Line) (reading : p.current = some e) :
    ∃ e', (p.describe line e).current = some e' ∧ e'.header = e.header := by
  unfold describe
  cases p.part with
  | description =>
    dsimp only
    split
    · exact ⟨e, reading, rfl⟩
    · exact ⟨_, rfl, rfl⟩
  | announced opened =>
    dsimp only
    split
    · exact ⟨_, rfl, rfl⟩
    · exact ⟨e, reading, rfl⟩

/-- A description is read alike whatever was read before. -/
theorem foldl_after {lines : List Line} (plain : ∀ l ∈ lines, isHeader l = false)
    (reading : p.current = some e) (sections : List String) (functions : Dictionary FunctionDoc) :
    lines.foldl (step module) (p.after sections functions)
      = (lines.foldl (step module) p).after sections functions := by
  induction lines generalizing p e with
  | nil => rfl
  | cons line lines ih =>
    obtain ⟨here, later⟩ := List.forall_mem_cons.1 plain
    obtain ⟨e', reading', -⟩ := current_describe line reading
    have reading₂ : (p.after sections functions).current = some e := reading
    rw [List.foldl_cons, List.foldl_cons, step_describe here reading, step_describe here reading₂,
      describe_after, ih later reading']

theorem current_foldl (module : String) {lines : List Line} (plain : ∀ l ∈ lines, isHeader l = false)
    (reading : p.current = some e) :
    ∃ e', (lines.foldl (step module) p).current = some e' ∧ e'.header = e.header := by
  induction lines generalizing p e with
  | nil => exact ⟨e, reading, rfl⟩
  | cons line lines ih =>
    obtain ⟨here, later⟩ := List.forall_mem_cons.1 plain
    obtain ⟨e', reading', same⟩ := current_describe line reading
    rw [List.foldl_cons, step_describe here reading]
    obtain ⟨e'', final, same'⟩ := ih later reading'
    exact ⟨e'', final, same'.trans same⟩

end Pass

section Blocks

variable {module : String} {lines : List Line}

/-- The block of a header is read as by itself, and its function replaces an earlier one. -/
theorem foldl_block (module : String) (block : IsBlock lines) (p : Pass) :
    ∃ e : Entry,
      (passOver module lines).finish module = Dictionary.empty.insert e.header.1 (e.doc module) ∧
      (lines.foldl (Pass.step module) p).finish module
        = (p.finish module).insert e.header.1 (e.doc module) ∧
      (lines.foldl (Pass.step module) p).sections = p.sections := by
  obtain ⟨line, rest, rfl, isHeader, plain⟩ := block
  obtain ⟨header, found⟩ := Option.isSome_iff_exists.1 isHeader
  let opened : Pass := ⟨[], .empty, some ⟨header, [], []⟩, .description, []⟩
  obtain ⟨e, reading, -⟩ := Pass.current_foldl module plain
    (show opened.current = some _ from rfl)
  -- whatever the pass carries, the header leaves nothing of it but the parts read before
  have reset (p : Pass) : (line :: rest).foldl (Pass.step module) p
      = (rest.foldl (Pass.step module) opened).after p.sections (p.finish module) := by
    rw [List.foldl_cons, Pass.step_header found, ← Pass.foldl_after plain rfl]
    rfl
  refine ⟨e, ?_, ?_, ?_⟩
  · rw [passOver, reset]
    simp only [Pass.finish, Pass.after, reading, Pass.start]
  · rw [reset]
    simp only [Pass.finish, Pass.after, reading]
  · rw [reset]
    rfl

theorem get?_foldl_block (block : IsBlock lines) (p : Pass) (name : String) :
    ((lines.foldl (Pass.step module) p).finish module).get? name
      = (((passOver module lines).finish module).get? name).or ((p.finish module).get? name) := by
  obtain ⟨e, alone, here, -⟩ := foldl_block module block p
  rw [alone, here, Dictionary.get?_insert, Dictionary.get?_insert]
  split <;> simp [Dictionary.get?_empty]

/-- Of several blocks the last one that describes a function counts. -/
theorem get?_foldl_blocks {blocks : List (List Line)} (h : ∀ block ∈ blocks, IsBlock block)
    (p : Pass) (name : String) :
    ((blocks.flatten.foldl (Pass.step module) p).finish module).get? name
      = (blocks.reverse.findSome? fun block => ((passOver module block).finish module).get? name).or
        ((p.finish module).get? name) := by
  induction blocks generalizing p with
  | nil => simp
  | cons block blocks ih =>
    obtain ⟨here, later⟩ := List.forall_mem_cons.1 h
    rw [List.flatten_cons, List.foldl_append, ih later, get?_foldl_block here, List.reverse_cons,
      List.findSome?_append, Option.or_assoc]
    simp

theorem sections_foldl_blocks {blocks : List (List Line)} (h : ∀ block ∈ blocks, IsBlock block)
    (p : Pass) : (blocks.flatten.foldl (Pass.step module) p).sections = p.sections := by
  induction blocks generalizing p with
  | nil => rfl
  | cons block blocks ih =>
    obtain ⟨here, later⟩ := List.forall_mem_cons.1 h
    obtain ⟨-, -, -, same⟩ := foldl_block module here p
    rw [List.flatten_cons, List.foldl_append, ih later, same]

theorem sections_title (p : Pass) (line : Line) (titles : List String)
    (so_far : p.sections = titles.eraseDups) :
    (p.title line).sections = (titles ++ (sectionTitle? line).toList).eraseDups := by
  unfold Pass.title
  cases sectionTitle? line with
  | none => simpa using so_far
  | some title =>
    rw [Option.toList_some, Query.eraseDups_concat, ← so_far]
    by_cases known : title ∈ p.sections <;> simp [known]

theorem current_title (p : Pass) (line : Line) : (p.title line).current = p.current := by
  unfold Pass.title
  split
  · rfl
  · split <;> rfl

theorem finish_title (p : Pass) (line : Line) : (p.title line).finish module = p.finish module := by
  unfold Pass.title
  split
  · rfl
  · split <;> rfl

/-- Without a header there are titles, each once, and no functions. -/
theorem passOver_plain (module : String) (plain : ∀ l ∈ lines, isHeader l = false) :
    (passOver module lines).current = none ∧
      (passOver module lines).finish module = .empty ∧
      (passOver module lines).sections = (lines.filterMap sectionTitle?).eraseDups := by
  induction lines using List.reverseRecOn with
  | nil => exact ⟨rfl, rfl, by simp [passOver, Pass.start]⟩
  | append_singleton lines line ih =>
    obtain ⟨none, empty, titles⟩ := ih fun l hl => plain l (List.mem_append_left _ hl)
    have onward : passOver module (lines ++ [line]) = (passOver module lines).title line := by
      rw [passOver, List.foldl_concat]
      exact Pass.step_title (plain line (by simp)) none
    rw [onward, List.filterMap_append]
    refine ⟨(current_title _ line).trans none, (finish_title _ line).trans empty, ?_⟩
    rw [sections_title _ line _ titles]
    cases found : sectionTitle? line <;> simp [found]

end Blocks

/--
A README is what stands before its first header and the blocks of its headers. Every function is
the one of the last block that describes it when read by itself, and the titles of sections are
those before the first header, each once in the order in which they first appear.
-/
theorem parse_cut (module : String) (text : List Char) :
    (cut text).1 ++ (cut text).2.flatten = text ∧
    (∀ l ∈ Text.lines (cut text).1, isHeader l = false) ∧
    (∀ block ∈ (cut text).2, IsBlock (Text.lines block)) ∧
    (∀ name, (parse module text).functions.get? name =
      (cut text).2.reverse.findSome? fun block => (parse module block).functions.get? name) ∧
    (parse module text).sections = (parse module (cut text).1).sections ∧
    (parse module text).sections =
      ((Text.lines (cut text).1).filterMap sectionTitle?).eraseDups := by
  obtain ⟨lines, before, blocks⟩ := parted_cut text
  obtain ⟨-, empty, titles⟩ := passOver_plain module before
  have all : ∀ block ∈ (cut text).2.map Text.lines, IsBlock block := by simpa using blocks
  have whole : passOver module (Text.lines text) =
      ((cut text).2.map Text.lines).flatten.foldl (Pass.step module)
        (passOver module (Text.lines (cut text).1)) := by
    rw [lines, passOver, List.foldl_append, passOver]
  have sections : (parse module text).sections = (parse module (cut text).1).sections := by
    change (passOver module (Text.lines text)).sections = _
    rw [whole, sections_foldl_blocks all]
    rfl
  refine ⟨cut_flatten text, before, blocks, fun name => ?_, sections, sections.trans titles⟩
  change ((passOver module (Text.lines text)).finish module).get? name = _
  rw [whole, get?_foldl_blocks all, empty, Dictionary.get?_empty, Option.or_none,
    ← List.map_reverse, List.findSome?_map]
  rfl

end Readme

end RouteScript
