/-!
# JSON values

Numbers keep their spelling and objects the order of their members, repeated names among them.

`Json.write` gives the shortest text of a value: no blanks, and escapes only where the grammar asks
for them.
-/
namespace RouteScript

inductive Json where
  | null
  | bool (b : Bool)
  | number (literal : String)
  | string (s : String)
  | array (items : List Json)
  | object (members : List (String × Json))
  /-- A text or an object that half a surrogate pair leaves without a meaning. -/
  | unreadable
  deriving Repr, Inhabited

namespace Json

def ofNat (n : Nat) : Json := .number (toString n)

def ofInt (n : Int) : Json := .number (toString n)

def string? : Json → Option String
  | string s => some s
  | _ => none

def bool? : Json → Option Bool
  | bool b => some b
  | _ => none

/-- A number without a point or an exponent; zero has no sign. -/
def int? : Json → Option Int
  | number literal => if literal = "-0" then none else literal.toInt?
  | _ => none

def nat? (j : Json) : Option Nat := j.int?.bind fun n => if n < 0 then none else some n.toNat

def array? : Json → Option (List Json)
  | array items => some items
  | _ => none

def object? : Json → Option (List (String × Json))
  | object members => some members
  | _ => none

/-- The last member of an object under a name. -/
def member? (j : Json) (name : String) : Option Json :=
  j.object?.bind fun members => (members.reverse.find? (·.1 == name)).map (·.2)

/-- A member that is there and not null. -/
def given? (j : Json) (name : String) : Option Json :=
  (j.member? name).bind fun
    | null => none
    | v => some v

end Json

end RouteScript

namespace RouteScript.Json

/-- The hexadecimal digit of a number below 16. -/
def hexDigit (n : Nat) : Char := if n < 10 then Char.ofNat (48 + n) else Char.ofNat (87 + n)

def escape (c : Char) : List Char :=
  if c = '"' || c = '\\' then ['\\', c]
  else if c = '\n' then ['\\', 'n']
  else if c = '\r' then ['\\', 'r']
  else if c = '\t' then ['\\', 't']
  else if c.toNat < 32 then
    ['\\', 'u', '0', '0', hexDigit (c.toNat / 16), hexDigit (c.toNat % 16)]
  else [c]

def quote (s : String) : String := "\"" ++ String.ofList (s.toList.flatMap escape) ++ "\""

mutual

/-- The text of a value. -/
def write : Json → String
  | null => "null"
  | bool b => if b then "true" else "false"
  | number literal => literal
  | string s => quote s
  | array items => "[" ++ ",".intercalate (writeItems items) ++ "]"
  | object members => "\x7b" ++ ",".intercalate (writeMembers members) ++ "\x7d"
  | unreadable => "null"

def writeItems : List Json → List String
  | [] => []
  | j :: rest => write j :: writeItems rest

def writeMembers : List (String × Json) → List String
  | [] => []
  | (name, j) :: rest => (quote name ++ ":" ++ write j) :: writeMembers rest

end

end RouteScript.Json
