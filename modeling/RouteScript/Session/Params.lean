import RouteScript.Document.Format
import RouteScript.Session.Notice
import RouteScript.Session.Shape
/-!
# Parameters of messages

Readers of what the messages carry that the server handles. What a client tells about itself when a
session begins does not change what the server does, but a session does not begin with capabilities
of another shape.
-/
namespace RouteScript.Capabilities

open Shape

/-- A feature that may be registered while the session runs. -/
def registered : Shape := flags ["dynamicRegistration"]

/-- A feature whose results the client can be asked to fetch anew. -/
def refreshed : Shape := flags ["refreshSupport"]

/-- The kinds that a client knows. -/
def kinds (kind : Shape) : Shape := record [may "valueSet" (list kind)]

/-- The members that a client can have resolved later. -/
def resolved : Shape := record [need "properties" (list text)]

def formats : Shape := list (word ["plaintext", "markdown"])

/-- The tags that a client knows; a flag stands for all of them or none. -/
def tags : Shape := either flag (record [need "valueSet" (list signed)])

/-- What is known of the symbols that a client understands. -/
def symbols : List Member :=
  [may "dynamicRegistration" flag, may "symbolKind" (kinds signed)]

def workspaceEdit : Shape :=
  record [may "documentChanges" flag,
    may "resourceOperations" (list (word ["create", "rename", "delete"])),
    may "failureHandling" (word ["abort", "transactional", "textOnlyTransactional", "undo"]),
    may "normalizesLineEndings" flag, may "changeAnnotationSupport" (flags ["groupsOnLabel"])]

def workspace : Shape :=
  record [may "applyEdit" flag, may "workspaceEdit" workspaceEdit,
    may "didChangeConfiguration" registered,
    may "didChangeWatchedFiles" (flags ["dynamicRegistration", "relativePatternSupport"]),
    may "symbol" (record (symbols ++ [may "tagSupport" tags, may "resolveSupport" resolved])),
    may "executeCommand" registered,
    may "workspaceFolders" flag, may "configuration" flag, may "semanticTokens" refreshed,
    may "codeLens" refreshed,
    may "fileOperations" (flags ["dynamicRegistration", "didCreate", "willCreate", "didRename",
      "willRename", "didDelete", "willDelete"]),
    may "inlineValue" refreshed, may "inlayHint" refreshed, may "diagnostic" refreshed]

def completionItem : Shape :=
  record [may "snippetSupport" flag, may "commitCharactersSupport" flag,
    may "documentationFormat" formats, may "deprecatedSupport" flag,
    may "preselectSupport" flag, may "tagSupport" tags, may "insertReplaceSupport" flag,
    may "resolveSupport" resolved,
    may "insertTextModeSupport" (record [need "valueSet" (list signed)]),
    may "labelDetailsSupport" flag]

def completion : Shape :=
  record [may "dynamicRegistration" flag, may "completionItem" completionItem,
    may "completionItemKind" (kinds signed), may "contextSupport" flag,
    may "insertTextMode" signed,
    may "completionList" (record [may "itemDefaults" (list text)])]

def signatureHelp : Shape :=
  record [may "dynamicRegistration" flag,
    may "signatureInformation" (record [may "documentationFormat" formats,
      may "parameterInformation" (flags ["labelOffsetSupport"]),
      may "activeParameterSupport" flag]),
    may "contextSupport" flag]

def codeAction : Shape :=
  record [may "dynamicRegistration" flag,
    may "codeActionLiteralSupport" (record [need "codeActionKind"
      (record [need "valueSet" (list text)])]),
    may "isPreferredSupport" flag, may "disabledSupport" flag, may "dataSupport" flag,
    may "resolveSupport" resolved, may "honorsChangeAnnotations" flag]

def foldingRange : Shape :=
  record [may "dynamicRegistration" flag, may "rangeLimit" unsigned, may "lineFoldingOnly" flag,
    may "foldingRangeKind" (kinds (word ["comment", "imports", "region"])),
    may "foldingRange" (flags ["collapsedText"])]

/-- The requests for tokens that a client sends; those for changes of tokens are one of them. -/
def tokenRequests : Shape :=
  record [may "range" flag, may "full" (either flag (object [may "delta" flag]))]

def semanticTokens : Shape :=
  record [may "dynamicRegistration" flag, need "requests" tokenRequests,
    need "tokenTypes" (list text), need "tokenModifiers" (list text), need "formats" (list text),
    may "overlappingTokenSupport" flag, may "multilineTokenSupport" flag,
    may "serverCancelSupport" flag, may "augmentsSyntaxTokens" flag]

def diagnostics : Shape :=
  record [may "relatedInformation" flag, may "tagSupport" tags, may "versionSupport" flag,
    may "codeDescriptionSupport" flag, may "dataSupport" flag]

/-- A feature that jumps to other places. -/
def jump : Shape := flags ["dynamicRegistration", "linkSupport"]

def textDocument : Shape :=
  record [
    may "synchronization"
      (flags ["dynamicRegistration", "willSave", "willSaveWaitUntil", "didSave"]),
    may "completion" completion,
    may "hover" (record [may "dynamicRegistration" flag, may "contentFormat" formats]),
    may "signatureHelp" signatureHelp, may "references" registered,
    may "documentHighlight" registered,
    may "documentSymbol"
      (record (symbols ++ [may "hierarchicalDocumentSymbolSupport" flag, may "tagSupport" tags])),
    may "formatting" registered, may "rangeFormatting" registered,
    may "onTypeFormatting" registered, may "declaration" jump, may "definition" jump,
    may "typeDefinition" jump, may "implementation" jump, may "codeAction" codeAction,
    may "codeLens" registered,
    may "documentLink" (flags ["dynamicRegistration", "tooltipSupport"]),
    may "colorProvider" registered,
    may "rename" (record [may "dynamicRegistration" flag, may "prepareSupport" flag,
      may "prepareSupportDefaultBehavior" signed, may "honorsChangeAnnotations" flag]),
    may "publishDiagnostics" diagnostics,
    may "foldingRange" foldingRange, may "selectionRange" registered,
    may "linkedEditingRange" registered, may "callHierarchy" registered,
    may "semanticTokens" semanticTokens, may "moniker" registered,
    may "typeHierarchy" registered, may "inlineValue" registered,
    may "inlayHint" (record [may "dynamicRegistration" flag, may "resolveSupport" resolved]),
    may "diagnostic" (flags ["dynamicRegistration", "relatedDocumentSupport"])]

def notebookDocument : Shape :=
  record [need "synchronization" (flags ["dynamicRegistration", "executionSummaryReport"])]

def window : Shape :=
  record [may "workDoneProgress" flag,
    may "showMessage"
      (record [may "messageActionItem" (flags ["additionalPropertiesSupport"])]),
    may "showDocument" (record [need "support" flag])]

def general : Shape :=
  record [may "regularExpressions" (record [need "engine" text, may "version" text]),
    may "markdown" (record [need "parser" text, may "version" text,
      may "allowedTags" (list text)]),
    may "staleRequestSupport" (record [need "cancel" flag,
      need "retryOnContentModified" (list text)]),
    may "positionEncodings" (list text)]

/-- The capabilities of a client. -/
def all : Shape :=
  record [may "workspace" workspace, may "textDocument" textDocument,
    may "notebookDocument" notebookDocument, may "window" window, may "general" general,
    may "experimental" anything]

end RouteScript.Capabilities

namespace RouteScript.Params

open Shape (Member need may)

def opened? (j : Json) : Option Notice := do
  let ms ← record? ["textDocument"] j
  let item ← needed? ms "textDocument" (record? ["uri", "languageId", "version", "text"])
  let _ ← needed? item "languageId" Json.string?
  return .opened (← needed? item "uri" uri?) (← needed? item "version" signed?)
    (← needed? item "text" Json.string?).toList

def edit? (j : Json) : Option Edit := do
  let ms ← record? ["range", "rangeLength", "text"] j
  let _ ← optional? ms "rangeLength" unsigned?
  return ⟨← optional? ms "range" span?, (← needed? ms "text" Json.string?).toList⟩

def changed? (j : Json) : Option Notice := do
  let ms ← record? ["textDocument", "contentChanges"] j
  let document ← needed? ms "textDocument" (record? ["uri", "version"])
  let edits ← needed? ms "contentChanges" Json.array?
  return .changed (← needed? document "uri" uri?) (← needed? document "version" signed?)
    (← edits.mapM edit?)

def closed? (j : Json) : Option Notice := do
  return .closed (← needed? (← record? ["textDocument"] j) "textDocument" document?)

/-- The settings of a configuration have to be there but may be null. -/
def configured? (j : Json) : Option Notice := do
  return .configured (← needed? (← record? ["settings"] j) "settings" some)

/-- The token under which a client follows the work on a request. Requests carry tokens beside their
own members, so they are objects in any case. -/
def progress : List Member := [may "workDoneToken" Shape.token]

/-- The tokens of a request whose results may come in parts. -/
def progressInParts : List Member :=
  progress ++ [may "partialResultToken" Shape.token]

/-- The members of a request with readable tokens. -/
def request? (tokens : List Member) (j : Json) : Option (List (String × Json)) :=
  if Shape.object tokens j then j.object? else none

/-- The document of a request. -/
def inDocument? (tokens : List Member) (j : Json) : Option String := do
  needed? (← request? tokens j) "textDocument" document?

/-- The document of a request, and the position in it. -/
def atPosition? (tokens : List Member) (j : Json) : Option (String × Position) := do
  return (← inDocument? tokens j, ← needed? (← request? tokens j) "position" position?)

/-- What made a client ask for completions. -/
def completionContext : Shape :=
  .record [need "triggerKind" .signed, may "triggerCharacter" .text]

/-- The document for which completions are asked. -/
def completion? (j : Json) : Option String := do
  let (uri, _) ← atPosition? (may "context" completionContext :: progressInParts) j
  return uri

/-- Options that formatters know by name; they may be missing. -/
def formatFlags : List String :=
  ["trimTrailingWhitespace", "insertFinalNewline", "trimFinalNewlines"]

/-- Whether a value fits an option of a formatter. -/
def isFormatOption (member : String × Json) : Bool :=
  match member with
  | ("tabSize", v) => Shape.unsigned v
  | ("insertSpaces", v) => Shape.flag v
  | (name, .null) => formatFlags.contains name
  | (_, .bool _) => true
  | (name, v) => !formatFlags.contains name && Shape.token v

def formatOptions? (j : Json) : Option Format.Options := do
  let ms ← j.object?
  if !ms.all isFormatOption then none
  return ⟨← needed? ms "insertSpaces" Json.bool?, ← needed? ms "tabSize" unsigned?⟩

def formatting? (j : Json) : Option (String × Format.Options) := do
  return (← inDocument? progress j,
    ← needed? (← request? progress j) "options" formatOptions?)

/-- What a client sends when a session begins. -/
def greeting : List Member :=
  [may "processId" .unsigned, may "rootPath" .text, may "rootUri" .uri,
    may "initializationOptions" .anything, need "capabilities" Capabilities.all,
    may "trace" (.word ["off", "messages", "verbose"]),
    may "workspaceFolders" (.list (.record [need "uri" .uri, need "name" .text])),
    may "clientInfo" (.record [need "name" .text, may "version" .text]), may "locale" .text]

/-- The settings with which a client begins a session; it may leave them out. -/
def greeting? (j : Json) : Option (Option Json) := do
  if !Shape.record greeting j then none
  optional? (← record? (greeting.map Member.name) j) "initializationOptions" some

end RouteScript.Params
