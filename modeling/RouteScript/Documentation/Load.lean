import RouteScript.Documentation.Basic
import RouteScript.Files.Basic
import RouteScript.Text.Quoted
/-!
# Documentation from files

Every directory below `src/modules` of a source tree that has a README describes a module. A source
that cannot be read leaves its part of the documentation empty.
-/
namespace RouteScript

/-- Why module descriptions or a cookbook cannot be read. -/
inductive Documentation.LoadError where
  | missingModules (path : String)
  | unreadable
  | malformed
  deriving DecidableEq, Repr

def Documentation.LoadError.message : LoadError → String
  | missingModules path => "no module directory at " ++ String.ofList (Text.quoted path.toList)
  | unreadable => "the file cannot be read"
  | malformed => "the cookbook is malformed"

/-- The module descriptions of a source tree. -/
def ModuleDocs.load (fs : Files) (source : String) : Except Documentation.LoadError ModuleDocs :=
  let directory := Files.join (Files.join source "src") "modules"
  if fs.isDirectory directory then
    .ok <| (fs.directoriesIn directory).foldl (fun ms name =>
      match fs.text? (Files.join (Files.join directory name) "README") with
      | some text => ms.add (Readme.parse name text)
      | none => ms) .empty
  else .error (.missingModules directory)

/-- The cookbook in a file, whose text some reader reads. -/
def Cookbook.loadBy (parse? : List Char → Option Cookbook) (fs : Files) (path : String) :
    Except Documentation.LoadError Cookbook :=
  match fs.text? path with
  | none => .error .unreadable
  | some text =>
    match parse? text with
    | some book => .ok book
    | none => .error .malformed

def Cookbook.load : Files → String → Except Documentation.LoadError Cookbook :=
  loadBy Cookbook.parse?

/-- The documentation of whatever sources are named; some reader reads the cookbook. -/
def Documentation.loadBy (parse? : List Char → Option Cookbook) (fs : Files)
    (source cookbook : Option String) : Documentation where
  modules := (source.bind fun path => (ModuleDocs.load fs path).toOption).getD .empty
  cookbook := (cookbook.bind fun path => (Cookbook.loadBy parse? fs path).toOption).getD .empty

def Documentation.load : Files → Option String → Option String → Documentation :=
  loadBy Cookbook.parse?

end RouteScript
