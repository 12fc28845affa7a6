import RouteScript.Documentation.Basic
import RouteScript.Variable.Basic
/-!
# Completions

Everything that could be written in a document: functions, headers, its variables, modules and the
words of the cookbook, in this order.
-/
namespace RouteScript

inductive Completion.Kind where
  | function
  | keyword
  | variable
  | module
  | text
  deriving DecidableEq, Repr

structure Completion where
  kind : Completion.Kind
  label : String
  detail : String
  documentation : String
  deriving DecidableEq, Repr

namespace Completion

def ofFunction (f : FunctionDoc) : Completion :=
  ⟨.function, f.name ++ "()", f.signature,
    if f.exampleText.isEmpty then f.description else f.description ++ "\n" ++ f.exampleText⟩

def ofVariable (v : Variable) : Completion :=
  ⟨.variable, v.name, v.scope.detail, v.documentation⟩

/-- All completions of a document with these variables. -/
def all (vs : Variables) (d : Documentation) : List Completion :=
  d.modules.functions.map ofFunction
    ++ SipHeader.all.map (fun header => ⟨.keyword, header.1, "SIP Header", header.2⟩)
    ++ vs.toList.map ofVariable
    ++ d.modules.values.map (fun m => ⟨.module, m.name, "Module", m.summary⟩)
    ++ d.cookbook.entries.map fun entry => ⟨.text, entry.1, "Cookbook", entry.2⟩

end Completion

end RouteScript
