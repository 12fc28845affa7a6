import RouteScript.Json.Basic
import RouteScript.Text.Basic
/-!
# Reading JSON

`Json.read` accepts the grammar of JSON texts and nothing besides. Half a surrogate pair in a string
is no fault of the text, but leaves the string without a value.
-/
namespace RouteScript.Json

/-- White space between tokens. -/
def isGap (c : Char) : Bool := c = ' ' || c = '\n' || c = '\t' || c = '\r'

def skipGaps (text : List Char) : List Char := text.dropWhile isGap

/-- The value of four hexadecimal digits. -/
def unit? (a b c d : Char) : Option Nat := Text.digits? 16 [a, b, c, d]

/-- What a backslash makes of a letter. -/
def escaped? (c : Char) : Option Nat :=
  if c = '"' || c = '\\' || c = '/' then some c.toNat
  else if c = 'b' then some 8
  else if c = 'f' then some 12
  else if c = 'n' then some 10
  else if c = 'r' then some 13
  else if c = 't' then some 9
  else none

/-- The code points and surrogates of a string up to its closing quote, and what is behind it. -/
def stringUnits : List Char → Option (List Nat × List Char)
  | [] => none
  | '"' :: rest => some ([], rest)
  | '\\' :: 'u' :: a :: b :: c :: d :: rest => do
    let u ← unit? a b c d
    let (units, behind) ← stringUnits rest
    return (u :: units, behind)
  | '\\' :: c :: rest => do
    let u ← escaped? c
    let (units, behind) ← stringUnits rest
    return (u :: units, behind)
  | c :: rest =>
    if c.toNat < 32 || c = '\\' then none
    else do
      let (units, behind) ← stringUnits rest
      return (c.toNat :: units, behind)

def isLead (u : Nat) : Bool := 0xD800 ≤ u && u < 0xDC00

def isTrail (u : Nat) : Bool := 0xDC00 ≤ u && u < 0xE000

/-- The characters of code points and surrogate pairs; none if half a pair stands alone. -/
def joinUnits : List Nat → Option (List Char)
  | [] => some []
  | [u] => if isLead u || isTrail u then none else some [Char.ofNat u]
  | u :: v :: rest =>
    if isLead u && isTrail v then
      (joinUnits rest).map (Char.ofNat (0x10000 + (u - 0xD800) * 0x400 + (v - 0xDC00)) :: ·)
    else if isLead u || isTrail u then none
    else (joinUnits (v :: rest)).map (Char.ofNat u :: ·)

/-- A string behind its opening quote: its text if it has one, and what is behind it. -/
def stringText (text : List Char) : Option (Option String × List Char) := do
  let (units, rest) ← stringUnits text
  return ((joinUnits units).map String.ofList, rest)

/-- One or more digits. -/
def digits? (text : List Char) : Option (List Char × List Char) :=
  let found := text.takeWhile Char.isDigit
  if found.isEmpty then none else some (found, text.dropWhile Char.isDigit)

def integer? (text : List Char) : Option (List Char × List Char) :=
  match text with
  | '0' :: rest => if (rest.head?.map Char.isDigit).getD false then none else some (['0'], rest)
  | _ => digits? text

def fraction? (text : List Char) : Option (List Char × List Char) :=
  match text with
  | '.' :: rest => (digits? rest).map fun (ds, behind) => ('.' :: ds, behind)
  | _ => some ([], text)

def exponent? (text : List Char) : Option (List Char × List Char) :=
  match text with
  | c :: rest =>
    if c = 'e' || c = 'E' then
      match rest with
      | s :: more =>
        if s = '+' || s = '-' then
          (digits? more).map fun (ds, behind) => (c :: s :: ds, behind)
        else (digits? rest).map fun (ds, behind) => (c :: ds, behind)
      | [] => none
    else some ([], text)
  | [] => some ([], [])

/-- The spelling of a number and what is behind it. -/
def numberLiteral? (text : List Char) : Option (List Char × List Char) := do
  let (sign, rest) := match text with
    | '-' :: rest => (['-'], rest)
    | _ => ([], text)
  let (whole, rest) ← integer? rest
  let (part, rest) ← fraction? rest
  let (power, rest) ← exponent? rest
  return (sign ++ whole ++ part ++ power, rest)

/-- A fixed word, if the text starts with it. -/
def word? (word : List Char) (value : Json) (text : List Char) : Option (Json × List Char) :=
  if word.isPrefixOf text then some (value, text.drop word.length) else none

mutual

/-- A value at the head of a text; `rounds` bounds the nesting. -/
def value? : Nat → List Char → Option (Json × List Char)
  | 0, _ => none
  | rounds + 1, text =>
    match skipGaps text with
    | '{' :: rest =>
      match skipGaps rest with
      | '}' :: behind => some (.object [], behind)
      | _ => do
        let (members, behind) ← members? rounds rest
        return (match members.mapM fun (k, v) => k.map (·, v) with
          | some named => .object named
          | none => .unreadable, behind)
    | '[' :: rest =>
      match skipGaps rest with
      | ']' :: behind => some (.array [], behind)
      | _ => do
        let (items, behind) ← items? rounds rest
        return (.array items, behind)
    | '"' :: rest => do
      let (s, behind) ← stringText rest
      return ((s.map .string).getD .unreadable, behind)
    | 't' :: rest => word? "rue".toList (.bool true) rest
    | 'f' :: rest => word? "alse".toList (.bool false) rest
    | 'n' :: rest => word? "ull".toList .null rest
    | rest => do
      let (literal, behind) ← numberLiteral? rest
      return (.number (String.ofList literal), behind)

/-- The items of an array that is not empty, to its closing bracket. -/
def items? : Nat → List Char → Option (List Json × List Char)
  | 0, _ => none
  | rounds + 1, text => do
    let (item, rest) ← value? rounds text
    match skipGaps rest with
    | ',' :: more =>
      let (items, behind) ← items? rounds more
      return (item :: items, behind)
    | ']' :: behind => return ([item], behind)
    | _ => none

/-- The members of an object that is not empty, to its closing brace. -/
def members? : Nat → List Char → Option (List (Option String × Json) × List Char)
  | 0, _ => none
  | rounds + 1, text =>
    match skipGaps text with
    | '"' :: rest => do
      let (name, rest) ← stringText rest
      match skipGaps rest with
      | ':' :: rest =>
        let (v, rest) ← value? rounds rest
        match skipGaps rest with
        | ',' :: more =>
          let (members, behind) ← members? rounds more
          return ((name, v) :: members, behind)
        | '}' :: behind => return ([(name, v)], behind)
        | _ => none
      | _ => none
    | _ => none

end

/-- The value of a text that holds one and nothing else. -/
def read (text : List Char) : Option Json := do
  let (v, rest) ← value? (2 * text.length + 1) text
  if (skipGaps rest).isEmpty then some v else none

end RouteScript.Json
