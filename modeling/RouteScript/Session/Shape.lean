import RouteScript.Json.Basic
import RouteScript.Text.Position
import RouteScript.Uri.Basic
/-!
# Records and shapes in messages

A record is an object, of which members without a use are passed over, or a list with exactly its
members in order. What is optional may be missing or null. Most of what a client sends is only
checked: a shape says which values pass, and that of a record is the list of its members in order.
-/
namespace RouteScript.Params

/-- The members of a record with these names. -/
def record? (names : List String) : Json → Option (List (String × Json))
  | .object members => some members
  | .array items => if items.length = names.length then some (names.zip items) else none
  | _ => none

variable {α : Type}

/-- A member that has to be there. -/
def needed? (members : List (String × Json)) (name : String) (read : Json → Option α) :
    Option α :=
  ((Json.object members).member? name).bind read

/-- A member that may be missing or null; none if it is there and cannot be read. -/
def optional? (members : List (String × Json)) (name : String) (read : Json → Option α) :
    Option (Option α) :=
  match (Json.object members).given? name with
  | none => some none
  | some v => (read v).map some

/-- A number of 32 bits without a sign. -/
def unsigned? (j : Json) : Option Nat := j.nat?.filter (· < 0x100000000)

/-- A number of 32 bits with a sign. -/
def signed? (j : Json) : Option Int :=
  j.int?.filter fun n => -0x80000000 ≤ n && n < 0x80000000

/-- The address of a document in its normal spelling. -/
def uri? (j : Json) : Option String := j.string?.bind Uri.normalize?

def position? (j : Json) : Option Position := do
  let ms ← record? ["line", "character"] j
  return ⟨← needed? ms "line" unsigned?, ← needed? ms "character" unsigned?⟩

def span? (j : Json) : Option Position.Span := do
  let ms ← record? ["start", "end"] j
  return ⟨← needed? ms "start" position?, ← needed? ms "end" position?⟩

/-- The document of a message. -/
def document? (j : Json) : Option String := do
  needed? (← record? ["uri"] j) "uri" uri?

end RouteScript.Params

namespace RouteScript

abbrev Shape := Json → Bool

namespace Shape

/-- The values that can be read. -/
def of {α : Type} (read : Json → Option α) : Shape := fun j => (read j).isSome

def anything : Shape := fun _ => true

def flag : Shape := of Json.bool?

def text : Shape := of Json.string?

def unsigned : Shape := of Params.unsigned?

def signed : Shape := of Params.signed?

/-- A number of any kind. -/
def number : Shape
  | .number _ => true
  | _ => false

def uri : Shape := of Params.uri?

def position : Shape := of Params.position?

def span : Shape := of Params.span?

def document : Shape := of Params.document?

/-- One of some words; it may stand as the name of an object's only member, which is null. -/
def word (words : List String) : Shape
  | .string s => words.contains s
  | .object [(name, .null)] => words.contains name
  | _ => false

def list (item : Shape) : Shape
  | .array items => items.all item
  | _ => false

/-- An object under any names of some form. -/
def table (name : String → Bool) (value : Shape) : Shape
  | .object members => members.all fun m => name m.1 && value m.2
  | _ => false

def either (a b : Shape) : Shape := fun j => a j || b j

def orNull (shape : Shape) : Shape
  | .null => true
  | v => shape v

/-- A number or a text that names something. -/
def token : Shape := either signed text

end Shape

/-- A member of a record. -/
structure Shape.Member where
  name : String
  /-- Whether it may be missing. -/
  isOptional : Bool
  shape : Shape

namespace Shape

def need (name : String) (shape : Shape) : Member := ⟨name, false, shape⟩

/-- A member that may be missing but not null. -/
def omissible (name : String) (shape : Shape) : Member := ⟨name, true, shape⟩

/-- A member that may be missing or null. -/
def may (name : String) (shape : Shape) : Member := omissible name (orNull shape)

/-- Whether a member of a record is as it should be. -/
def Member.fits (m : Member) (members : List (String × Json)) : Bool :=
  match (Json.object members).member? m.name with
  | none => m.isOptional
  | some v => m.shape v

/-- An object with members. -/
def object (members : List Member) : Shape
  | .object given => members.all (·.fits given)
  | _ => false

/-- A record, which is an object or a list. -/
def record (members : List Member) : Shape := fun j =>
  match Params.record? (members.map Member.name) j with
  | some given => members.all (·.fits given)
  | none => false

/-- A record of one of several kinds, which a member or the first item of the list tells. -/
def tagged (tag : String) (kinds : List (String × List Member)) : Shape := fun j =>
  match j with
  | .object given =>
    match j.member? tag with
    | some (.string kind) => (kinds.find? (·.1 == kind)).any fun k => object k.2 (.object given)
    | _ => false
  | .array (.string kind :: items) =>
    (kinds.find? (·.1 == kind)).any fun k => record k.2 (.array items)
  | _ => false

/-- A record of flags that may all be missing. -/
def flags (names : List String) : Shape := record (names.map (may · flag))

def textEdit : Shape := record [need "range" span, need "newText" text]

def location : Shape := record [need "uri" uri, need "range" span]

def command : Shape :=
  record [need "title" text, need "command" text, may "arguments" (list anything)]

/-- A text that is plain or Markdown. -/
def markup : Shape :=
  record [need "kind" (word ["plaintext", "markdown"]), need "value" text]

/-- A text of no kind, or of one that is named. -/
def documentation : Shape := either text markup

def diagnostic : Shape :=
  record [need "range" span, may "severity" signed, may "code" token,
    may "codeDescription" (record [need "href" uri]), may "source" text, need "message" text,
    may "relatedInformation" (list (record [need "location" location, need "message" text])),
    may "tags" (list signed), may "data" anything]

end Shape

end RouteScript
