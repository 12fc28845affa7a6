import RouteScript.Tree.Basic
/-!
# Trees as S-expressions

Only named nodes that are not extra are shown, each behind the name of its field.
-/
namespace RouteScript.Node

mutual

/-- The named structure below a node. -/
def sexp : Node → String
  | .node e children => "(" ++ e.tag.kind ++ sexpAll children ++ ")"

def sexpAll : List Node → String
  | [] => ""
  | .node e cs :: rest =>
    (if e.tag.named && !e.tag.extra then
      " " ++ (match e.tag.field with
        | some field => field ++ ": "
        | none => "") ++ sexp (.node e cs)
    else "") ++ sexpAll rest

end

end RouteScript.Node
