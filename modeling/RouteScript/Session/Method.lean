import RouteScript.Session.Params
/-!
# Methods

What a message asks for, by its name. Names that begin with a dollar sign are left to clients and
servers that know them. The server knows more requests of the protocol than it serves: it checks
their parameters, and the answer is that there is no such method.
-/
namespace RouteScript.Unserved

open Params Shape

def inDocument : Member := need "textDocument" document

def inRange : Member := need "range" span

/-- A document and a position in it. -/
def atPosition : List Member := [inDocument, need "position" position]

def options : Member := need "options" (of formatOptions?)

/-- An element of a hierarchy of calls or types, which differ in their tags. -/
def hierarchyItem (tags : Shape) : Shape :=
  record [need "name" text, need "kind" signed, may "tags" tags, may "detail" text,
    need "uri" uri, inRange, need "selectionRange" span, may "data" anything]

def call : Member := need "item" (hierarchyItem (list signed))

def type : Member := need "item" (hierarchyItem signed)

/-- Files that an operation concerns, each given by these names. -/
def files (names : List String) : Shape :=
  record [need "files" (list (record (names.map (need · text))))]

def signatureInformation : Shape :=
  record [need "label" text, may "documentation" documentation,
    may "parameters" (list (record [
      need "label" (either text fun j =>
        list unsigned j && (j.array?.map List.length) == some 2),
      may "documentation" documentation])),
    may "activeParameter" unsigned]

def signatureContext : Shape :=
  record [need "triggerKind" signed, may "triggerCharacter" text, need "isRetrigger" flag,
    may "activeSignatureHelp" (record [need "signatures" (list signatureInformation),
      may "activeSignature" unsigned, may "activeParameter" unsigned])]

def actionContext : Shape :=
  record [need "diagnostics" (list diagnostic), may "only" (list text),
    may "triggerKind" signed]

def color : Shape :=
  record [need "red" number, need "green" number, need "blue" number, need "alpha" number]

def inlineContext : Shape := record [need "frameId" signed, need "stoppedLocation" span]

/-- Edits of one document, which may be of a certain version. -/
def documentEdit : Shape :=
  record [need "textDocument" (record [need "uri" uri, may "version" signed]),
    need "edits" (list textEdit)]

/-- The creation, renaming or deletion of a file. -/
def fileOperation : Shape :=
  let replacing : Shape := flags ["overwrite", "ignoreIfExists"]
  tagged "kind" [
    ("create", [need "uri" uri, may "options" replacing, may "annotationId" text]),
    ("rename", [need "oldUri" uri, need "newUri" uri, may "options" replacing,
      may "annotationId" text]),
    ("delete", [need "uri" uri, may "options" (record [may "recursive" flag,
      may "ignoreIfNotExists" flag, may "annotationId" text])])]

def workspaceEdit : Shape :=
  record [may "changes" (table (fun name => (Uri.normalize? name).isSome) (list textEdit)),
    may "documentChanges"
      (either (list documentEdit) (list (either fileOperation documentEdit))),
    may "changeAnnotations" (table (fun _ => true) (record [need "label" text,
      may "needsConfirmation" flag, may "description" text]))]

def link : Shape := record [inRange, may "target" uri, may "tooltip" text, may "data" anything]

def lens : Shape := record [inRange, may "command" command, may "data" anything]

def inlayHint : Shape :=
  record [need "position" position,
    need "label" (either text (list (record [need "value" text, may "tooltip" documentation,
      may "location" location, may "command" command]))),
    may "kind" signed, may "textEdits" (list textEdit), may "tooltip" documentation,
    may "paddingLeft" flag, may "paddingRight" flag, may "data" anything]

def completionItem : Shape :=
  record [need "label" text,
    may "labelDetails" (record [may "detail" text, may "description" text]),
    may "kind" signed, may "detail" text, may "documentation" documentation,
    may "deprecated" flag, may "preselect" flag, may "sortText" text, may "filterText" text,
    may "insertText" text, may "insertTextFormat" signed, may "insertTextMode" signed,
    may "textEdit" (either textEdit
      (record [need "newText" text, need "insert" span, need "replace" span])),
    may "additionalTextEdits" (list textEdit), may "command" command,
    may "commitCharacters" (list text), may "data" anything, may "tags" (list signed)]

def codeAction : Shape :=
  record [need "title" text, may "kind" text, may "diagnostics" (list diagnostic),
    may "edit" workspaceEdit, may "command" command, may "isPreferred" flag,
    may "disabled" (record [need "reason" text]), may "data" anything]

def workspaceSymbol : Shape :=
  record [need "name" text, need "kind" signed, may "tags" (list signed),
    may "containerName" text, need "location" (either location (record [need "uri" uri])),
    may "data" anything]

/-- A request that can be followed. -/
def followed (members : List Member) : Shape := object (members ++ progress)

/-- A request whose results may come in parts. -/
def inParts (members : List Member) : Shape := object (members ++ progressInParts)

/-- The requests that are known but not served, with the shapes of their parameters. -/
def requests : List (String × Shape) :=
  [("textDocument/declaration", inParts atPosition),
    ("textDocument/typeDefinition", inParts atPosition),
    ("textDocument/implementation", inParts atPosition),
    ("textDocument/references",
      inParts (atPosition ++ [need "context" (record [need "includeDeclaration" flag])])),
    ("textDocument/prepareCallHierarchy", followed atPosition),
    ("callHierarchy/incomingCalls", inParts [call]),
    ("callHierarchy/outgoingCalls", inParts [call]),
    ("textDocument/prepareTypeHierarchy", followed atPosition),
    ("typeHierarchy/supertypes", inParts [type]),
    ("typeHierarchy/subtypes", inParts [type]),
    ("textDocument/documentHighlight", inParts atPosition),
    ("textDocument/documentLink", inParts [inDocument]),
    ("documentLink/resolve", link),
    ("textDocument/codeLens", inParts [inDocument]),
    ("codeLens/resolve", lens),
    ("textDocument/foldingRange", inParts [inDocument]),
    ("textDocument/selectionRange", inParts [inDocument, need "positions" (list position)]),
    ("textDocument/semanticTokens/full", inParts [inDocument]),
    ("textDocument/semanticTokens/full/delta", inParts [inDocument, need "previousResultId" text]),
    ("textDocument/semanticTokens/range", inParts [inDocument, inRange]),
    ("textDocument/inlineValue", followed [inDocument, inRange, need "context" inlineContext]),
    ("textDocument/inlayHint", followed [inDocument, inRange]),
    ("inlayHint/resolve", inlayHint),
    ("textDocument/moniker", inParts atPosition),
    ("completionItem/resolve", completionItem),
    ("textDocument/diagnostic",
      inParts [inDocument, may "identifier" text, may "previousResultId" text]),
    ("workspace/diagnostic", inParts [may "identifier" text,
      need "previousResultIds" (list (record [need "uri" uri, need "value" text]))]),
    ("textDocument/signatureHelp", followed (atPosition ++ [may "context" signatureContext])),
    ("textDocument/codeAction", inParts [inDocument, inRange, need "context" actionContext]),
    ("codeAction/resolve", codeAction),
    ("textDocument/documentColor", inParts [inDocument]),
    ("textDocument/colorPresentation", inParts [inDocument, inRange, need "color" color]),
    ("textDocument/rangeFormatting", followed [inDocument, inRange, options]),
    ("textDocument/onTypeFormatting", object (atPosition ++ [need "ch" text, options])),
    ("textDocument/rename", followed (atPosition ++ [need "newName" text])),
    ("textDocument/prepareRename", record atPosition),
    ("textDocument/linkedEditingRange", followed atPosition),
    ("textDocument/willSaveWaitUntil", record [inDocument, need "reason" signed]),
    ("workspace/symbol", inParts [need "query" text]),
    ("workspaceSymbol/resolve", workspaceSymbol),
    ("workspace/willCreateFiles", files ["uri"]),
    ("workspace/willRenameFiles", files ["oldUri", "newUri"]),
    ("workspace/willDeleteFiles", files ["uri"]),
    ("workspace/executeCommand",
      followed [need "command" text, omissible "arguments" (list anything)])]

end RouteScript.Unserved

namespace RouteScript

inductive Method where
  /-- Begins a session. -/
  | greet
  /-- Ends a session; only leaving is possible afterwards. -/
  | shutDown
  | leave
  | hover
  | completion
  | definition
  | documentSymbol
  | formatting
  | opened
  | changed
  | closed
  | configured
  /-- A request that is known but not served, with the shape of its parameters. -/
  | unserved (params : Shape)
  /-- A notification without an effect in a session. -/
  | ignored
  /-- A notification without an effect at any time. -/
  | withdrawal
  | unknown

namespace Method

/-- What a notification tells a session, if it can be read. -/
def notice? (params : Json) : Method → Option Notice
  | opened => Params.opened? params
  | changed => Params.changed? params
  | closed => Params.closed? params
  | configured => Params.configured? params
  | _ => none

def ignoredNotifications : List String :=
  ["initialized", "textDocument/willSave", "textDocument/didSave",
    "workspace/didChangeWorkspaceFolders", "workspace/didChangeWatchedFiles",
    "workspace/didCreateFiles", "workspace/didRenameFiles", "workspace/didDeleteFiles"]

def ofName (name : String) : Method :=
  match name with
  | "initialize" => .greet
  | "shutdown" => .shutDown
  | "exit" => .leave
  | "textDocument/hover" => .hover
  | "textDocument/completion" => .completion
  | "textDocument/definition" => .definition
  | "textDocument/documentSymbol" => .documentSymbol
  | "textDocument/formatting" => .formatting
  | "textDocument/didOpen" => .opened
  | "textDocument/didChange" => .changed
  | "textDocument/didClose" => .closed
  | "workspace/didChangeConfiguration" => .configured
  | "$/cancelRequest" => .withdrawal
  | _ =>
    match Unserved.requests.find? (·.1 == name) with
    | some (_, shape) => .unserved shape
    | none =>
      if ignoredNotifications.contains name then .ignored
      else if name.startsWith "$/" then .withdrawal
      else .unknown

end Method

end RouteScript
