import RouteScript.Dictionary
import RouteScript.Text.Basic
import RouteScript.Text.Letter
/-!
# Module descriptions

The README of a module lists its functions under headers such as `4.1. t_relay([host, flags])`. What
follows a header up to the next one describes the function; the lines between the two delimiters
after the word `Example` are its example. Before the first header stand the titles of sections.
-/
namespace RouteScript

structure FunctionDoc where
  module : String
  name : String
  parameters : String
  description : String
  exampleText : String
  deriving DecidableEq, Repr, Inhabited

namespace FunctionDoc

/-- The name with its parameters. -/
def signature (f : FunctionDoc) : String := f.name ++ "(" ++ f.parameters ++ ")"

/-- The documentation in Markdown. -/
def render (f : FunctionDoc) : String :=
  "## Function:\n\t" ++ f.name ++ "\n\n## Parameters:\n\t" ++ f.parameters
    ++ "\n\n## Description:\n" ++ f.description ++ "\n\n## Example:\n```\n" ++ f.exampleText
    ++ "\n```"

/-- The documentation under a heading with the module. -/
def renderWithModule (f : FunctionDoc) : String :=
  "# Module: " ++ f.module ++ "\n\n" ++ f.render

end FunctionDoc

structure ModuleDoc where
  name : String
  /-- Titles of the sections, each once. -/
  sections : List String
  functions : Dictionary FunctionDoc
  deriving Inhabited

/-- The module with its sections in a few words. -/
def ModuleDoc.summary (m : ModuleDoc) : String :=
  if m.sections.isEmpty then "Module " ++ m.name
  else "Module " ++ m.name ++ "\n\nSections: " ++ ", ".intercalate m.sections

namespace Readme

abbrev Line := List Char

/-- What stands behind a number with its point. -/
def afterNumber? (text : Line) : Option Line :=
  if (text.takeWhile Text.isDigit).isEmpty then none
  else
    match text.dropWhile Text.isDigit with
    | '.' :: rest => some rest
    | _ => none

/-- The word at the head of a text, and what stands behind it. -/
def word? (text : Line) : Option (Line × Line) :=
  let found := text.takeWhile Text.isWordChar
  if found.isEmpty then none else some (found, text.dropWhile Text.isWordChar)

/-- The title of a section, numbered at one level. -/
def sectionTitle? (line : Line) : Option String := do
  let rest ← afterNumber? (Text.trimStart line)
  let (title, behind) ← word? (Text.trimStart rest)
  if (Text.trimStart behind).isEmpty then some (String.ofList title) else none

/-- The name and parameters of a function, numbered at two levels. -/
def functionHeader? (line : Line) : Option (String × String) := do
  let rest ← afterNumber? (Text.trimStart line)
  let rest ← afterNumber? rest
  let (name, behind) ← word? (Text.trimStart rest)
  match behind with
  | '(' :: inside =>
    let trimmed := Text.trimEnd inside
    if trimmed.getLast? = some ')' then
      some (String.ofList name, String.ofList trimmed.dropLast)
    else none
  | _ => none

/-- Which part of a description the next line belongs to. -/
inductive Part where
  | description
  /-- Behind the word that announces an example; `opened` once a delimiter was met. -/
  | announced (opened : Bool)
  deriving DecidableEq, Repr

/-- What has been read of a function. -/
structure Entry where
  header : String × String
  description : List Line
  /-- What was quoted when the last delimiter was met. -/
  exampleText : List Line

def announcesExample (line : Line) : Bool := Text.contains "Example".toList line

def isDelimiter (line : Line) : Bool := Text.contains "...".toList line

/-- The documentation of a function that has been read. -/
def Entry.doc (module : String) (e : Entry) : FunctionDoc :=
  ⟨module, e.header.1, e.header.2, String.ofList (Text.unlines e.description),
    String.ofList (Text.unlines e.exampleText)⟩

/-- What a pass over the lines of a file carries from one line to the next. -/
structure Pass where
  /-- Titles of the sections so far. -/
  sections : List String
  /-- The functions that have been read to their end. -/
  functions : Dictionary FunctionDoc
  /-- The function whose description is being read. -/
  current : Option Entry
  part : Part
  /-- Lines behind the announcement of an example, delimiters left out. -/
  quoted : List Line

namespace Pass

def start : Pass := ⟨[], .empty, none, .description, []⟩

/-- All functions, the one that is being read among them. -/
def finish (module : String) (p : Pass) : Dictionary FunctionDoc :=
  match p.current with
  | none => p.functions
  | some e => p.functions.insert e.header.1 (e.doc module)

/-- A header ends the function before it and starts another one. -/
def begin (module : String) (header : String × String) (p : Pass) : Pass :=
  { p with
    functions := p.finish module
    current := some ⟨header, [], []⟩
    part := .description
    quoted := [] }

/-- A line before the first header. -/
def title (line : Line) (p : Pass) : Pass :=
  match sectionTitle? line with
  | none => p
  | some title =>
    if p.sections.contains title then p else { p with sections := p.sections ++ [title] }

/-- A line of a description. -/
def describe (line : Line) (e : Entry) (p : Pass) : Pass :=
  match p.part with
  | .description =>
    if announcesExample line then { p with part := .announced false }
    else { p with current := some { e with description := e.description ++ [line] } }
  | .announced opened =>
    if isDelimiter line then
      { p with
        part := if opened then .description else .announced true
        current := some { e with exampleText := p.quoted } }
    else { p with quoted := p.quoted ++ [line] }

def step (module : String) (p : Pass) (line : Line) : Pass :=
  match functionHeader? line with
  | some header => p.begin module header
  | none =>
    match p.current with
    | none => p.title line
    | some e => p.describe line e

end Pass

/-- What a pass over the lines of a text ends with. -/
def passOver (module : String) (lines : List Line) : Pass := lines.foldl (Pass.step module) .start

/-- The description of a module. Of two descriptions of a function the later one counts. -/
def parse (module : String) (text : List Char) : ModuleDoc :=
  let p := passOver module (Text.lines text)
  ⟨module, p.sections, p.finish module⟩

end Readme

end RouteScript
