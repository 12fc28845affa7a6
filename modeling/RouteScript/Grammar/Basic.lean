import RouteScript.Tree.Basic
/-!
# Languages and grammars

A language names the node kinds and fields that a grammar can produce, so that a query which names
any other is refused before it runs. A grammar reads every text of its language into a draft. An
earlier tree may save a reading and never changes its result.
-/
namespace RouteScript

structure Language where
  name : String
  version : Nat
  namedKinds : List String
  anonymousKinds : List String
  fields : List String
  deriving DecidableEq, Repr, Inhabited

namespace Language

/-- The newest and the oldest version of a description that can be used. -/
def newestVersion : Nat := 2

def oldestVersion : Nat := 1

def namedKind? (l : Language) (kind : String) : Option String := l.namedKinds.find? (· == kind)

def anonymousKind? (l : Language) (kind : String) : Option String :=
  l.anonymousKinds.find? (· == kind)

def field? (l : Language) (field : String) : Option String := l.fields.find? (· == field)

def kindCount (l : Language) : Nat := l.namedKinds.length + l.anonymousKinds.length

/-- Why a language cannot be used. -/
inductive LoadError where
  | incompatible (name : String) (version : Nat)
  | empty (name : String)
  deriving DecidableEq, Repr

def LoadError.message : LoadError → String
  | incompatible name version =>
    "grammar '" ++ name ++ "' has version " ++ toString version ++ ", supported versions are "
      ++ toString oldestVersion ++ "..=" ++ toString newestVersion
  | empty name => "grammar '" ++ name ++ "' declares no node kinds"

/-- A language can be used if its version is known and it has any node kinds. The version counts
first. -/
def check (l : Language) : Except LoadError Unit :=
  if l.version < oldestVersion || newestVersion < l.version then
    .error (.incompatible l.name l.version)
  else if l.kindCount = 0 then .error (.empty l.name)
  else .ok ()

end Language

structure Grammar where
  language : Language
  draft : List Char → Draft

namespace Grammar

def parse (g : Grammar) (source : List Char) : Tree :=
  .ofDraft g.language.name source (g.draft source)

/-- A tree of the same language over the same text stands for a new reading. -/
def canReuse (g : Grammar) (source : List Char) (previous : Tree) : Bool :=
  previous.language == g.language.name && previous.source == source

/-- The tree of a text, with an earlier tree at hand. -/
def reparse (g : Grammar) (source : List Char) (previous : Tree) : Tree :=
  if g.canReuse source previous then previous else g.parse source

end Grammar

end RouteScript
