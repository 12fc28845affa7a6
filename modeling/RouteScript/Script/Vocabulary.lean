import RouteScript.Grammar.Basic
/-!
# The vocabulary of routing scripts

Node kinds, fields and keywords of the script language, and its description as a `Language`.
-/
namespace RouteScript

namespace Kind

def sourceFile := "source_file"
def statement := "statement"
def compoundStatement := "compound_statement"
def blockStart := "block_start"
def blockEnd := "block_end"
def error := "ERROR"

def routeDefinition := "route_definition"
def routeType := "route_type"
def routeName := "route_name"
def globalAssignment := "top_level_assignment_expression"
def coreValue := "core_value"
def loadModule := "loadmodule_statement"
def loadPath := "loadpath_statement"
def includeFile := "include_statement"
def modParam := "modparam_statement"
def xml := "xml"
def xmlTag := "xml_tag"
def xmlText := "xml_text"

def ifStatement := "if_statement"
def switchStatement := "switch_statement"
def whileStatement := "while_statement"
def caseStatement := "case_statement"
def returnStatement := "return_statement"
def coreFunction := "core_function"

def expression := "expression"
def assignment := "assignment_expression"
def binary := "binary_expression"
def unary := "unary_expression"
def parenthesized := "parenthesized_expression"
def call := "call_expression"
def argumentList := "argument_list"
def identifier := "identifier"
def string := "string"
def number := "number"

def pseudoVariable := "pseudo_variable"
def pseudoContent := "pseudo_content"
def pvarExpression := "pvar_expression"
def avpVar := "avp_var"
def scriptVar := "script_var"
def dlgVar := "dlg_var"
def pvarCall := "pvar_call"
def pvarArgument := "pvar_argument"
def pvarIndex := "pvar_index"
def variableName := "variable_name"
def transformation := "transformation"

def comment := "comment"
def deprecatedComment := "deprecated_comment"
def directive := "preproc_directive"

end Kind

namespace Field

def alternative := "alternative"
def argument := "argument"
def arguments := "arguments"
def body := "body"
def pvarClass := "class"
def condition := "condition"
def consequence := "consequence"
def file := "file"
def function := "function"
def key := "key"
def left := "left"
def moduleFile := "module"
def name := "name"
def operator := "operator"
def path := "path"
def right := "right"
def routeType := "type"
def value := "value"

end Field

namespace Vocabulary

def namedKinds : List String :=
  [Kind.sourceFile, Kind.statement, Kind.compoundStatement, Kind.blockStart, Kind.blockEnd,
    Kind.error, Kind.routeDefinition, Kind.routeType, Kind.routeName, Kind.globalAssignment,
    Kind.coreValue, Kind.loadModule, Kind.loadPath, Kind.includeFile, Kind.modParam, Kind.xml,
    Kind.xmlTag, Kind.xmlText, Kind.ifStatement, Kind.switchStatement, Kind.whileStatement,
    Kind.caseStatement, Kind.returnStatement, Kind.coreFunction, Kind.expression,
    Kind.assignment, Kind.binary, Kind.unary, Kind.parenthesized, Kind.call, Kind.argumentList,
    Kind.identifier, Kind.string, Kind.number, Kind.pseudoVariable, Kind.pseudoContent,
    Kind.pvarExpression, Kind.avpVar, Kind.scriptVar, Kind.dlgVar, Kind.pvarCall,
    Kind.pvarArgument, Kind.pvarIndex, Kind.variableName, Kind.transformation, Kind.comment,
    Kind.deprecatedComment, Kind.directive]

def fields : List String :=
  [Field.alternative, Field.argument, Field.arguments, Field.body, Field.pvarClass,
    Field.condition, Field.consequence, Field.file, Field.function, Field.key, Field.left,
    Field.moduleFile, Field.name, Field.operator, Field.path, Field.right, Field.routeType,
    Field.value]

/-- Words that are nodes of their own kind. -/
def keywords : List String :=
  ["if", "else", "switch", "case", "default", "while", "return", "drop", "exit", "break",
    "loadmodule", "loadpath", "include_file", "import_file", "modparam", "defined", "avp", "var",
    "dlg_var"]

def punctuation : List String :=
  ["$", "$(", "(", ")", "\x7b", "\x7d", "[", "]", ";", ",", ":", ".", "=", "==", "!=", "=~", "!~",
    "<", ">", "<=", ">=", "+", "-", "*", "/", "%", "!", "&", "&&", "|", "||", "^", "~", "=>"]

/-- Words that open a route block. -/
def routeTypes : List String :=
  ["route", "request_route", "failure_route", "branch_route", "branch_failure_route",
    "onreply_route", "reply_route", "onsend_route", "event_route"]

/-- Actions after which control does not go on. -/
def coreActions : List String := ["drop", "exit", "break"]

/-- The kind of a keyword or punctuation token with this text. -/
def anonymousKind? (text : String) : Option String := (keywords ++ punctuation).find? (· == text)

def routeType? (text : String) : Option String := routeTypes.find? (· == text)

/-- The language of routing scripts. -/
def language : Language :=
  ⟨"kamailio_cfg", Language.newestVersion, namedKinds, keywords ++ punctuation, fields⟩

end Vocabulary

end RouteScript
