import RouteScript.Text.Basic
import RouteScript.Uri.Domain.Basic
import RouteScript.Uri.Percent
/-!
# Hosts

A host is a name, four numbers with dots between them, or eight groups of hexadecimal digits in
brackets. All of them may be written in many ways, of which one is normal.
-/
namespace RouteScript.Uri

/-- A number in the base that its first characters give: sixteen, eight or ten. -/
def hostNumber? : List Char → Option Nat
  | [] => none
  | '0' :: 'x' :: digits => Text.digits? 16 digits
  | '0' :: c :: digits => Text.digits? 8 (c :: digits)
  | digits => Text.digits? 10 digits

/-- The parts of a name between its dots, without an empty one behind a dot at the end. -/
def nameParts (name : List Char) : List (List Char) :=
  let parts := pieces (· = '.') name
  if parts.getLast? == some [] then parts.dropLast else parts

/-- Whether the last part of a name is a number, so that all of them have to be. -/
def endsInNumber (name : List Char) : Bool :=
  match (nameParts name).getLast? with
  | some last => !last.isEmpty && last.all Char.isDigit || (hostNumber? last).isSome
  | none => false

/-- The four bytes of a name made of numbers; the last number takes the bytes that are left. -/
def hostBytes? (name : List Char) : Option (List Nat) := do
  let numbers ← (nameParts name).mapM hostNumber?
  let last ← numbers.getLast?
  let left := 5 - numbers.length
  if 4 < numbers.length || numbers.dropLast.any (255 < ·) || 1 <<< (8 * left) ≤ last then none
  return numbers.dropLast ++
    (List.range left).reverse.map fun place => last >>> (8 * place) % 256

def bytesText (bytes : List Nat) : List Char :=
  ['.'].intercalate (bytes.map (Nat.toDigits 10))

/-- One to four hexadecimal digits. -/
def hostGroup? (text : List Char) : Option Nat :=
  if text.isEmpty || 4 < text.length then none else Text.digits? 16 text

/-- Four decimal bytes with dots between them as two groups. -/
def bytesAsGroups? (text : List Char) : Option (List Nat) := do
  let byte? (digits : List Char) : Option Nat :=
    if digits.isEmpty || digits.head? == some '0' && digits.length != 1 then none
    else (Text.digits? 10 digits).filter (· < 256)
  match ← (pieces (· = '.') text).mapM byte? with
  | [a, b, c, d] => some [256 * a + b, 256 * c + d]
  | _ => none

/-- The groups of several texts; the last one may be four bytes. -/
def hostGroups? : List (List Char) → Option (List Nat)
  | [] => some []
  | [text] => ((hostGroup? text).map fun group => [group]) <|> bytesAsGroups? text
  | text :: rest => do
    return (← hostGroup? text) :: (← hostGroups? rest)

/-- The texts before and behind the first two colons in a row. -/
def splitGap? : List Char → Option (List Char × List Char)
  | [] => none
  | ':' :: ':' :: rest => some ([], rest)
  | c :: rest => (splitGap? rest).map fun (before, behind) => (c :: before, behind)

/-- The eight groups of a text; one or more that are zero may be left out once. -/
def eightGroups? (text : List Char) : Option (List Nat) :=
  let parts (text : List Char) : List (List Char) :=
    if text.isEmpty then [] else pieces (· = ':') text
  match splitGap? text with
  | none => (hostGroups? (parts text)).filter (·.length = 8)
  | some (before, behind) => do
    let front ← (parts before).mapM hostGroup?
    let back ← hostGroups? (parts behind)
    let known := front.length + back.length
    if 7 < known then none
    return front ++ List.replicate (8 - known) 0 ++ back

/-- Start and length of the first of the longest runs of zeros. -/
def zeroRun (groups : List Nat) : Nat × Nat :=
  (List.range groups.length).foldl (fun best start =>
    let length := ((groups.drop start).takeWhile (· = 0)).length
    if best.2 < length then (start, length) else best) (0, 0)

/-- The text of groups, in which the longest run of two zeros or more is left out. -/
def groupsText (groups : List Nat) : List Char :=
  let joined (groups : List Nat) : List Char := [':'].intercalate (groups.map (Nat.toDigits 16))
  let (start, length) := zeroRun groups
  if length < 2 then joined groups
  else joined (groups.take start) ++ [':', ':'] ++ joined (groups.drop (start + length))

/-- A host where a name is that of a domain, in normal spelling. -/
def hostName? (text : List Char) : Option (List Char) := do
  let name ← Domain.ascii? (← decode? text)
  if name.isEmpty && !text.isEmpty then none
  else if name.any fun c => notInHost c || isControl c || c = '%' then none
  else if endsInNumber name then (hostBytes? name).map bytesText
  else some name

/-- A host in normal spelling; names that are not of domains are only encoded. -/
def host? (isDomain : Bool) (text : List Char) : Option (List Char) :=
  match text with
  | '[' :: rest =>
    if rest.getLast? == some ']' then
      (eightGroups? rest.dropLast).map fun groups => '[' :: groupsText groups ++ [']']
    else none
  | _ =>
    if isDomain then hostName? text
    else if text.any notInHost then none
    else some (encode isControl text)

end RouteScript.Uri
