import RouteScript.Diagnostic.Basic
import RouteScript.Files.Basic
import RouteScript.Json.Basic
/-!
# Settings

Settings come from the command line and from the client, whose objects may nest them under the name
of the section. What the client leaves open is filled from the command line.
-/
namespace RouteScript

structure Settings where
  /-- Whether diagnostics are published at all. -/
  diagnosticsEnabled : Bool
  deprecatedCommentHints : Bool
  syntaxErrors : Bool
  /-- The source tree with the module descriptions. -/
  sourcePath : Option String
  cookbookPath : Option String
  logLevel : Option String
  deriving DecidableEq, Repr

namespace Settings

/-- Errors of the text are off: scripts may be right in ways that the grammar does not know. -/
def default : Settings := ⟨true, false, false, none, none, none⟩

instance : Inhabited Settings := ⟨default⟩

/-- The flags of the analysis. -/
def flags (s : Settings) : Diagnostic.Flags := ⟨s.deprecatedCommentHints, s.syntaxErrors⟩

/-- Fills what is open from other settings. -/
def withFallback (s fallback : Settings) : Settings :=
  { s with
    sourcePath := s.sourcePath.or fallback.sourcePath
    cookbookPath := s.cookbookPath.or fallback.cookbookPath
    logLevel := s.logLevel.or fallback.logLevel }

/-- Whether two settings name the same sources of documentation. -/
def sameSources (a b : Settings) : Bool :=
  a.sourcePath.map Files.names == b.sourcePath.map Files.names
    && a.cookbookPath.map Files.names == b.cookbookPath.map Files.names

inductive Error where
  /-- Settings that are no object; `shape` says what they are. -/
  | notAnObject (shape : String)
  /-- A member of the wrong type, or two for the same setting. -/
  | invalid
  deriving DecidableEq, Repr

/-- The message, where it is not left to the reader of the members. -/
def Error.message? : Error → Option String
  | notAnObject shape => some ("settings must be a JSON object, got " ++ shape)
  | invalid => none

/-- The name under which clients nest the settings of this server. -/
def sectionName : String := "kamailio"

/-- The member under any of the names of a setting; it may be there under one of them only. -/
def single? (members : List (String × Json)) (names : List String) :
    Except Error (Option Json) :=
  match names.filterMap fun name => (Json.object members).member? name with
  | [] => .ok none
  | [v] => .ok (some v)
  | _ => .error .invalid

/-- A flag, with its value where none is given. -/
def flag (members : List (String × Json)) (names : List String) (missing : Bool) :
    Except Error Bool := do
  match ← single? members names with
  | none => return missing
  | some (.bool b) => return b
  | some _ => throw .invalid

/-- A text that may be missing or null. -/
def text? (members : List (String × Json)) (name : String) : Except Error (Option String) := do
  match ← single? members [name] with
  | none | some .null => return none
  | some (.string s) => return some s
  | some _ => throw .invalid

def ofMembers (members : List (String × Json)) : Except Error Settings := do
  return {
    diagnosticsEnabled := ← flag members ["diagnosticsEnabled"] default.diagnosticsEnabled
    deprecatedCommentHints := ←
      flag members ["deprecatedCommentHintsEnabled", "enableDeprecatedCommentHint"]
        default.deprecatedCommentHints
    syntaxErrors := ← flag members ["syntaxErrorsEnabled"] default.syntaxErrors
    sourcePath := ← text? members "kamailioSourcePath"
    cookbookPath := ← text? members "cookbookPath"
    logLevel := ← text? members "logLevel" }

/-- The settings that a client sends, of which some reader reads the members. Nothing at all stands
for the default. -/
def ofValue (ofMembers? : List (String × Json) → Option Settings) (j : Json) :
    Except Error Settings :=
  match j with
  | .null => .ok default
  | .bool _ => .error (.notAnObject "a boolean")
  | .number _ => .error (.notAnObject "a number")
  | .string _ => .error (.notAnObject "a string")
  | .array _ => .error (.notAnObject "an array")
  | .object members =>
    let section? := match j.member? sectionName with
      | some (.object nested) => ofMembers? nested
      | _ => ofMembers? members
    match section? with
    | some settings => .ok settings
    | none => .error .invalid
  | .unreadable => .error .invalid

def ofJson : Json → Except Error Settings := ofValue fun members => (ofMembers members).toOption

end Settings

end RouteScript
