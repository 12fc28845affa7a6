/-!
# Characters and lines of texts

White space, digits and their values, and the lines of a text.

A line ends at a line feed, and a carriage return before it belongs to the end. The last line may
lack its end; an empty piece behind the last end is no line.
-/
namespace RouteScript.Text

/-- The 25 characters of the White_Space property of Unicode. -/
def isBlank (c : Char) : Bool :=
  ('\t' ≤ c && c ≤ '\r') || c = ' ' || c = '\u0085' || c = '\u00a0' || c = '\u1680'
    || ('\u2000' ≤ c && c ≤ '\u200a') || c = '\u2028' || c = '\u2029' || c = '\u202f'
    || c = '\u205f' || c = '\u3000'

def trimStart (text : List Char) : List Char := text.dropWhile isBlank

def trimEnd (text : List Char) : List Char := (text.reverse.dropWhile isBlank).reverse

def trim (text : List Char) : List Char := trimEnd (trimStart text)

/-- The value of a hexadecimal digit. -/
def hexValue? (c : Char) : Option Nat :=
  if c.isDigit then some (c.toNat - '0'.toNat)
  else if 'a' ≤ c && c ≤ 'f' then some (c.toNat - 'a'.toNat + 10)
  else if 'A' ≤ c && c ≤ 'F' then some (c.toNat - 'A'.toNat + 10)
  else none

/-- The value of a digit in some base. -/
def digitValue? (base : Nat) (c : Char) : Option Nat := (hexValue? c).filter (· < base)

/-- The number that a text of digits stands for; no digits at all stand for zero. -/
def digits? (base : Nat) (text : List Char) : Option Nat :=
  text.foldlM (fun n c => (digitValue? base c).map (base * n + ·)) 0

/-- The pieces of a text between its line feeds, each with whether a line feed ends it. -/
def pieces : List Char → List (List Char × Bool)
  | [] => []
  | c :: rest =>
    if c = '\n' then ([], true) :: pieces rest
    else
      match pieces rest with
      | [] => [([c], false)]
      | (line, ended) :: others => (c :: line, ended) :: others

/-- A piece without the carriage return that belongs to its end. -/
def line : List Char × Bool → List Char
  | (text, ended) =>
    if ended && text.getLast? = some '\r' then text.dropLast else text

def lines (text : List Char) : List (List Char) := (pieces text).map line

/-- Lines as a text, each with its end. -/
def unlines (lines : List (List Char)) : List Char := lines.flatMap (· ++ ['\n'])

/-- Whether a text holds another one. -/
def contains (part : List Char) : List Char → Bool
  | [] => part.isEmpty
  | c :: rest => part.isPrefixOf (c :: rest) || contains part rest

end RouteScript.Text
