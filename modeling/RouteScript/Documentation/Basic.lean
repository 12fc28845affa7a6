import RouteScript.Json.Read
import RouteScript.Documentation.Readme
/-!
# Documentation

What is known about functions, modules and words, and about the headers of SIP messages that scripts
read and write. A function that several modules describe belongs to the first of them by name.

A cookbook is a JSON text that documents words of the script language. Each of its records is an
object, of which unknown members are passed over, or an array with exactly the members in order.
-/
namespace RouteScript.SipHeader

def all : List (String × String) :=
  [("Accept", "Media types acceptable in the response."),
    ("Allow", "Methods supported by the user agent."),
    ("Authorization", "Credentials of a user agent for the UAS."),
    ("Call-ID", "Uniquely identifies an invitation or all registrations of a client."),
    ("Contact", "URI at which the user agent can be reached directly."),
    ("Content-Length", "Size of the message body in bytes."),
    ("Content-Type", "Media type of the message body."),
    ("CSeq", "Sequence number and method of the request."),
    ("Event", "Event package of a SUBSCRIBE or NOTIFY."),
    ("Expires", "Relative time after which the message or content expires."),
    ("From", "Initiator of the request."),
    ("Max-Forwards", "Remaining number of hops a request may take."),
    ("Proxy-Authenticate", "Authentication challenge from a proxy."),
    ("Proxy-Authorization", "Credentials of a user agent for a proxy."),
    ("Record-Route", "Proxies that want to stay in the path of subsequent requests."),
    ("Require", "Extensions the UAS must support."),
    ("Route", "Route set the request is forced through."),
    ("Supported", "Extensions supported by the user agent."),
    ("To", "Logical recipient of the request."),
    ("User-Agent", "Software of the user agent originating the request."),
    ("Via", "Path taken by the request so far and where responses go."),
    ("WWW-Authenticate", "Authentication challenge from a UAS or registrar.")]

/-- Two texts that differ at most in the case of ASCII letters. -/
def sameIgnoringCase (a b : String) : Bool :=
  a.toList.map Char.toLower == b.toList.map Char.toLower

/-- The documentation of a header, whose name may be written in any case. -/
def documentation? (name : String) : Option String :=
  (all.find? fun header => sameIgnoringCase header.1 name).map fun header =>
    "## " ++ header.1 ++ "\n" ++ header.2

end RouteScript.SipHeader

namespace RouteScript

/-- Documentation by name. -/
abbrev Cookbook := Dictionary String

namespace Cookbook

/-- The member of an object under a name that it has exactly once. -/
def uniqueMember? (members : List (String × Json)) (name : String) : Option Json :=
  match members.filter (·.1 == name) with
  | [(_, v)] => some v
  | _ => none

/-- The members of a record, in the order of their names. -/
def record? (names : List String) : Json → Option (List Json)
  | .object members => names.mapM (uniqueMember? members)
  | .array items => if items.length = names.length then some items else none
  | _ => none

def entry? (j : Json) : Option (String × String) := do
  match ← record? ["name", "documentation"] j with
  | [name, documentation] => return (← name.string?, ← documentation.string?)
  | _ => none

def ofJson? (j : Json) : Option Cookbook := do
  match ← record? ["docs"] j with
  | [docs] => return .ofList (← (← docs.array?).mapM entry?)
  | _ => none

/-- The cookbook of a JSON text. Of two entries with one name the later one counts. -/
def parse? (text : List Char) : Option Cookbook := (Json.read text).bind ofJson?

end Cookbook

/-- Module descriptions by name, and for every function the module that it is looked up in. -/
structure ModuleDocs where
  modules : Dictionary ModuleDoc
  /-- The first module, by name, that describes a function. -/
  owners : Dictionary String

namespace ModuleDocs

def empty : ModuleDocs := ⟨.empty, .empty⟩

instance : Inhabited ModuleDocs := ⟨empty⟩

/-- Gives a function to a module unless it has one. -/
def claim (module : String) (owners : Dictionary String) (function : String) : Dictionary String :=
  if owners.contains function then owners else owners.insert function module

/-- The modules in the order of their names, each with the functions that none before it has. -/
def ownersOf (modules : Dictionary ModuleDoc) : Dictionary String :=
  modules.entries.foldl (fun owners (name, m) => m.functions.keys.foldl (claim name) owners) .empty

/-- Adds a module, in the place of an earlier description of it. -/
def add (ms : ModuleDocs) (m : ModuleDoc) : ModuleDocs :=
  let modules := ms.modules.insert m.name m
  ⟨modules, ownersOf modules⟩

def get? (ms : ModuleDocs) (name : String) : Option ModuleDoc := ms.modules.get? name

def values (ms : ModuleDocs) : List ModuleDoc := ms.modules.values

def size (ms : ModuleDocs) : Nat := ms.modules.size

/-- The description of a function in the first module that has one. -/
def function? (ms : ModuleDocs) (name : String) : Option FunctionDoc := do
  let module ← ms.owners.get? name
  (← ms.get? module).functions.get? name

/-- All functions, module by module, by name in each. -/
def functions (ms : ModuleDocs) : List FunctionDoc := ms.values.flatMap fun m => m.functions.values

end ModuleDocs

structure Documentation where
  modules : ModuleDocs
  cookbook : Cookbook
  deriving Inhabited

namespace Documentation

def empty : Documentation := ⟨.empty, .empty⟩

/-- The documentation of a function, in Markdown. -/
def function? (d : Documentation) (name : String) : Option String :=
  (d.modules.function? name).map FunctionDoc.renderWithModule

/-- The documentation of a word: the entry of the cookbook, else that of a SIP header. -/
def word? (d : Documentation) (word : String) : Option String :=
  if word.isEmpty then none else (d.cookbook.get? word).or (SipHeader.documentation? word)

end Documentation

end RouteScript
