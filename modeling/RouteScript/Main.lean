import RouteScript.Documentation.Load
import RouteScript.Json.Basic
import RouteScript.Session.Basic
/-!
# The language server

Reads messages from standard input and writes replies and publications to standard output, each
under a header with its length in bytes.
-/
namespace RouteScript.Main

/-- The bytes of a body under the header with their number. -/
def frame (body : String) : String :=
  "Content-Length: " ++ toString body.utf8ByteSize ++ "\r\n\r\n" ++ body

/-- The length in a line of a header, if the line gives one. -/
def length? (line : String) : Option Nat :=
  let text := line.trimAscii.toString
  if text.toLower.startsWith "content-length:" then
    ((text.drop "content-length:".length).trimAscii.toString).toNat?
  else none

/-- The length that the lines of a header give; none at the end of the input. -/
partial def readHeader (input : IO.FS.Stream) (length : Nat) : IO (Option Nat) := do
  let line ← input.getLine
  if line.isEmpty then return none
  else if line.trimAscii.isEmpty then return some length
  else readHeader input ((length? line).getD length)

partial def readBytes (input : IO.FS.Stream) (count : Nat) (before : ByteArray) :
    IO ByteArray := do
  if count ≤ before.size then return before
  let more ← input.read (count - before.size).toUSize
  if more.isEmpty then return before else readBytes input count (before ++ more)

/-- The text of a file; an entry without one if it cannot be read as text. -/
def readEntry (path : String) : IO (Option Files.Entry) := do
  try
    let bytes ← IO.FS.readBinFile path
    return some (.file ((String.fromUTF8? bytes).map String.toList))
  catch _ => return none

/-- The names in a directory; none if it cannot be read. -/
def namesIn (directory : IO.FS.DirEntry) : IO (Option (List String)) := do
  try return some ((← directory.path.readDir).toList.map IO.FS.DirEntry.fileName)
  catch _ => return none

/-- The descriptions of modules below a source tree. -/
def readModules (source : String) : IO (List (String × Files.Entry)) := do
  match ← namesIn ⟨source, "src/modules"⟩ with
  | none => return []
  | some names =>
    let mut found := [("source/src/modules", Files.Entry.directory)]
    for name in names do
      match ← readEntry (source ++ "/src/modules/" ++ name ++ "/README") with
      | some entry => found := ("source/src/modules/" ++ name ++ "/README", entry) :: found
      | none => pure ()
    return found

/-- The documentation that some settings name. -/
def readDocumentation (settings : Settings) : IO Documentation := do
  let modules ← (settings.sourcePath.map readModules).getD (pure [])
  let cookbook ← (settings.cookbookPath.map readEntry).getD (pure none)
  let files := Files.ofList (modules ++ (cookbook.map fun e => ("cookbook", e)).toList)
  return .load files (some "source") (some "cookbook")

def replyMembers : Reply → List (String × Json)
  | .silence | .gone => []
  | .result value => [("result", value)]
  | .failure fault =>
    [("error", .object [("code", .ofInt fault.code), ("message", .string fault.message)])]

/-- The messages that the server sends for an outcome. -/
def outgoing (id : Option Json) (o : Outcome) : List Json :=
  let version := ("jsonrpc", Json.string "2.0")
  let publications := o.publications.map fun p =>
    Json.object [version, ("method", .string Publication.method), ("params", p.params)]
  match replyMembers o.reply with
  | [] => publications
  | members => publications ++ [.object (version :: members ++ [("id", id.getD .null)])]

partial def serve (input output : IO.FS.Stream) (c : Connection) : IO Unit := do
  match ← readHeader input 0 with
  | none => return
  | some length =>
    let bytes ← readBytes input length .empty
    let text := ((String.fromUTF8? bytes).getD "").toList
    match (Json.read text).bind Message.ofJson? with
    | none => serve input output c
    | some m =>
      let documentation ← match c.settingsToLoad? m with
        | some settings => readDocumentation settings
        | none => pure .empty
      let (c', outcome) := c.step (fun _ => documentation) m
      for j in outgoing m.id outcome do
        output.putStr (frame j.write)
      output.flush
      if c'.phase = .gone then return else serve input output c'

/-- The settings of a command line; none if it cannot be understood. -/
def settings? : List String → Option Settings
  | [] => some .default
  | "--kamailio-source" :: path :: rest =>
    (settings? rest).map fun s => { s with sourcePath := some path }
  | "--cookbook" :: path :: rest =>
    (settings? rest).map fun s => { s with cookbookPath := some path }
  | "--log-level" :: level :: rest =>
    (settings? rest).map fun s => { s with logLevel := some level }
  | "--no-color" :: rest | "--no-file-logging" :: rest => settings? rest
  | _ => none

end RouteScript.Main

def main (arguments : List String) : IO UInt32 := do
  match RouteScript.Main.settings? arguments with
  | some settings =>
    RouteScript.Main.serve (← IO.getStdin) (← IO.getStdout) ⟨.silent, .start settings⟩
    return 0
  | none =>
    IO.eprintln "usage: [--kamailio-source DIR] [--cookbook FILE] [--log-level LEVEL]"
    return 2
