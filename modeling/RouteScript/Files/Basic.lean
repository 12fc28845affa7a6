import RouteScript.Text.Basic
/-!
# Files

The files and directories of a machine by their places, and the working directory. A path is
followed name by name, from the root if it starts with a slash and from the working directory
otherwise, so what it passes has to be a directory. The root is the directory above itself.
-/
namespace RouteScript

/-- Names from the root down. -/
abbrev Place := List String

inductive Files.Entry where
  | directory
  /-- A file with its text, if its bytes are one. -/
  | file (text : Option (List Char))
  deriving DecidableEq, Repr, Inhabited

structure Files where
  entries : List (Place × Files.Entry)
  /-- The working directory. -/
  directory : Place
  deriving Inhabited

namespace Files

/-- The names in a path, empty ones among them. -/
def split (path : List Char) : List String :=
  match path with
  | [] => [""]
  | c :: rest =>
    if c = '/' then "" :: split rest
    else
      match split rest with
      | [] => [c.toString]
      | name :: others => (c.toString ++ name) :: others

/-- The names by which paths are compared: empty ones and single dots count only at the head. -/
def names (path : String) : List String :=
  if path.isEmpty then []
  else
    match split path.toList with
    | first :: rest => first :: rest.filter fun name => name ≠ "" && name ≠ "."
    | [] => []

/-- Files from a list of paths in a working directory. -/
def below (directory : Place) (entries : List (String × Entry)) : Files :=
  ⟨entries.map fun (path, e) =>
    (directory ++ (split path.toList).filter (fun n => n ≠ "" && n ≠ "."), e), directory⟩

/-- Files from a list of paths in a working directory next to the root. -/
def ofList (entries : List (String × Entry)) : Files := below ["work"] entries

/-- What is at a place. The working directory is there, and so is every directory on the way to it
or to an entry. -/
def entryAt? (fs : Files) (place : Place) : Option Entry :=
  match fs.entries.find? (·.1 == place) with
  | some (_, e) => some e
  | none =>
    if place.isPrefixOf fs.directory || fs.entries.any fun (p, _) => place.isPrefixOf p then
      some .directory
    else none

def isDirectoryAt (fs : Files) (place : Place) : Bool := fs.entryAt? place == some .directory

/-- The place to which names lead from another place. -/
def follow (fs : Files) (place : Place) : List String → Option Place
  | [] => some place
  | name :: rest =>
    if !fs.isDirectoryAt place then none
    else if name = "" || name = "." then follow fs place rest
    else if name = ".." then follow fs place.dropLast rest
    else if (fs.entryAt? (place ++ [name])).isSome then follow fs (place ++ [name]) rest
    else none

/-- The place of a path; the empty path has none. -/
def locate? (fs : Files) (path : String) : Option Place :=
  if path.isEmpty then none
  else fs.follow (if path.startsWith "/" then [] else fs.directory) (split path.toList)

def isDirectory (fs : Files) (path : String) : Bool :=
  (fs.locate? path).any fs.isDirectoryAt

/-- The text of the file at a path. -/
def text? (fs : Files) (path : String) : Option (List Char) := do
  match ← fs.entryAt? (← fs.locate? path) with
  | .file text => text
  | .directory => none

/-- The names of the directories in a directory, each once. -/
def directoriesIn (fs : Files) (path : String) : List String :=
  match fs.locate? path with
  | none => []
  | some place =>
    let names := (fs.directory :: fs.entries.map Prod.fst).filterMap fun p =>
      if place.isPrefixOf p then (p.drop place.length).head? else none
    (names.filter fun name => fs.isDirectoryAt (place ++ [name])).foldl
      (fun found name => if found.contains name then found else found ++ [name]) []

/-- A path with one more name behind it. -/
def join (path name : String) : String :=
  if path.isEmpty || path.endsWith "/" then path ++ name else path ++ "/" ++ name

end Files

end RouteScript
