import RouteScript.Text.Basic
/-!
# Percent encoding

A character that has no place in a part of an address stands there as the bytes of its UTF-8 form,
each as a percent sign with two hexadecimal digits. Which characters these are depends on the part.
-/
namespace RouteScript.Uri

def upperHexDigit (n : Nat) : Char := if n < 10 then Char.ofNat (48 + n) else Char.ofNat (55 + n)

/-- A character in its encoded form. -/
def encodeChar (c : Char) : List Char :=
  (String.utf8EncodeChar c).flatMap fun b =>
    ['%', upperHexDigit (b.toNat / 16), upperHexDigit (b.toNat % 16)]

/-- A text with the characters of a class encoded. -/
def encode (escaped : Char → Bool) (text : List Char) : List Char :=
  text.flatMap fun c => if escaped c then encodeChar c else [c]

/-- The bytes of a text in which encoded ones stand for themselves. -/
def bytes : List Char → List UInt8
  | [] => []
  | '%' :: a :: b :: rest =>
    match Text.digits? 16 [a, b] with
    | some n => n.toUInt8 :: bytes rest
    | none => String.utf8EncodeChar '%' ++ bytes (a :: b :: rest)
  | c :: rest => String.utf8EncodeChar c ++ bytes rest
termination_by text => text.length

/-- A text without encoding, if its bytes are one. -/
def decode? (text : List Char) : Option (List Char) :=
  (String.fromUTF8? ⟨(bytes text).toArray⟩).map String.toList

/-- Control characters and all that is not ASCII. -/
def isControl (c : Char) : Bool := c.toNat < 0x20 || 0x7F ≤ c.toNat

/-- What a fragment may not hold. -/
def notInFragment (c : Char) : Bool :=
  isControl c || c = ' ' || c = '"' || c = '<' || c = '>' || c.toNat = 0x60

/-- What a query may not hold. -/
def notInQuery (c : Char) : Bool :=
  isControl c || c = ' ' || c = '"' || c = '#' || c = '<' || c = '>'

/-- What a query of a special scheme may not hold. -/
def notInSpecialQuery (c : Char) : Bool := notInQuery c || c = '\''

/-- What a path may not hold. -/
def notInPath (c : Char) : Bool :=
  notInFragment c || c = '#' || c = '?' || c = '\x7b' || c = '\x7d'

/-- What a user name or a password may not hold. -/
def notInUser (c : Char) : Bool :=
  notInPath c || c = '/' || c = ':' || c = ';' || c = '=' || c = '@' || c = '[' || c = '\\'
    || c = ']' || c = '^' || c = '|'

/-- What a host may not hold in any form. -/
def notInHost (c : Char) : Bool :=
  c = '\x00' || c = '\t' || c = '\n' || c = '\r' || c = ' ' || c = '#' || c = '/' || c = ':'
    || c = '<' || c = '>' || c = '?' || c = '@' || c = '[' || c = '\\' || c = ']' || c = '^'
    || c = '|'

end RouteScript.Uri
