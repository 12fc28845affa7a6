/-!
# Punycode

A label with letters outside ASCII is written as its ASCII characters, a hyphen, and a row of
numbers that tell which other characters stand between them, in the order of their code points.
The numbers are written to the base 36 with thresholds that adapt to their sizes.
-/
namespace RouteScript.Uri.Punycode

/-- The digit of a number below 36. -/
def digitChar (d : Nat) : Char := if d < 26 then Char.ofNat (97 + d) else Char.ofNat (22 + d)

def digitValue? (c : Char) : Option Nat :=
  if c.isDigit then some (c.toNat - 22)
  else if c.isLower then some (c.toNat - 97)
  else if c.isUpper then some (c.toNat - 65)
  else none

/-- A digit below this is the last one of its number, where digits stand at 36, 72 and so on. -/
def threshold (bias place : Nat) : Nat :=
  if place ≤ bias then 1 else if bias + 26 ≤ place then 26 else place - bias

theorem threshold_pos (bias place : Nat) : 0 < threshold bias place := by
  unfold threshold
  split
  · omega
  · split <;> omega

/-- A number in digits, the lowest first. -/
def numberText (bias place n : Nat) : List Char :=
  let t := threshold bias place
  if n < t then [digitChar n]
  else digitChar (t + (n - t) % (36 - t)) :: numberText bias (place + 36) ((n - t) / (36 - t))
termination_by n
decreasing_by
  have := threshold_pos bias place
  have := Nat.div_le_self (n - threshold bias place) (36 - threshold bias place)
  omega

/-- The bias for numbers of some size. -/
def scale (n place : Nat) : Nat :=
  if 455 < n then scale (n / 35) (place + 36) else place + 36 * n / (n + 38)
termination_by n
decreasing_by omega

/-- The bias behind a number, where `count` characters are known. -/
def adapt (n count : Nat) (isFirst : Bool) : Nat :=
  let n := if isFirst then n / 700 else n / 2
  scale (n + n / count) 0

/-- How far a label has been written. -/
structure Writer where
  /-- Characters that could have come since the last number. -/
  skipped : Nat
  bias : Nat
  /-- Characters of the label that are written. -/
  count : Nat
  written : List Char

/-- Looks at one character of the label while those with a code point are written. -/
def Writer.step (code basic : Nat) (w : Writer) (c : Char) : Writer :=
  if c.toNat < code then { w with skipped := w.skipped + 1 }
  else if c.toNat = code then
    ⟨0, adapt w.skipped (w.count + 1) (w.count = basic), w.count + 1,
      w.written ++ numberText w.bias 36 w.skipped⟩
  else w

/-- Writes the characters of a label with some code points, given in order, from `code` up. -/
def Writer.run (label : List Char) (basic : Nat) (w : Writer) (code : Nat) : List Nat → Writer
  | [] => w
  | next :: rest =>
    let w := { w with skipped := w.skipped + (next - code) * (w.count + 1) }
    let w := label.foldl (Writer.step next basic) w
    Writer.run label basic { w with skipped := w.skipped + 1 } (next + 1) rest

/-- The ASCII form of a label. -/
def encode (label : List Char) : List Char :=
  let basic := label.filter (·.toNat < 128)
  let codes := (((label.map Char.toNat).filter (128 ≤ ·)).mergeSort (· ≤ ·)).eraseDups
  let w := Writer.run label basic.length ⟨0, 72, basic.length, []⟩ 128 codes
  basic ++ (if basic.isEmpty then [] else ['-']) ++ w.written

/-- How far a label has been read. -/
structure Reader where
  label : List Char
  /-- Code point and place of the next character, if the number were zero. -/
  code : Nat
  place : Nat
  bias : Nat
  /-- The number so far, what its next digit counts, and where that digit stands. -/
  number : Nat
  weight : Nat
  digitPlace : Nat

/-- Puts the character into the label for which a number stands. -/
def Reader.insert (r : Reader) (number : Nat) : Option Reader :=
  let count := r.label.length + 1
  let code := r.code + (r.place + number) / count
  let place := (r.place + number) % count
  if code.isValidChar then
    some ⟨r.label.take place ++ Char.ofNat code :: r.label.drop place, code, place + 1,
      adapt number count (r.place = 0), 0, 1, 36⟩
  else none

/-- Takes one digit. -/
def Reader.step (r : Reader) (c : Char) : Option Reader := do
  let d ← digitValue? c
  let t := threshold r.bias r.digitPlace
  let number := r.number + d * r.weight
  if d < t then r.insert number
  else some { r with number, weight := r.weight * (36 - t), digitPlace := r.digitPlace + 36 }

/-- The label of an ASCII form. -/
def decode? (text : List Char) : Option (List Char) := do
  let digits := (text.reverse.takeWhile (· != '-')).reverse
  let basic := (text.take (text.length - digits.length)).dropLast
  if basic.isEmpty && digits.length < text.length then none
  let r ← digits.foldlM Reader.step ⟨basic, 128, 0, 72, 0, 1, 36⟩
  if r.digitPlace = 36 then some r.label else none

end RouteScript.Uri.Punycode
