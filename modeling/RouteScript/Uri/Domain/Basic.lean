import RouteScript.Text.Composition
import RouteScript.Uri.Domain.Mapping
import RouteScript.Uri.Domain.Punycode
/-!
# Names of domains

A name consists of labels with dots between them. `Domain.ascii?` gives its one spelling in ASCII:
characters as what they count as, and labels outside ASCII in their encoded form. Two rules ask for
more than the characters of a label: joiners have their places, and directions do not mix.

Two characters without a width say whether their neighbours are joined. In a name they may stand
only where that shows: behind a mark that silences a vowel, and the one that keeps neighbours apart
also between letters that would join.

Names in scripts that run from right to left may hold characters of both directions only so that
no reader is misled. `directionsFit` is the rule for the labels of a name.
-/
namespace RouteScript.Uri.Domain

/-- Letters that join the one behind them only. -/
def nextRanges : List (Nat × Nat) :=
  [(0xA872, 0xA872), (0x10ACD, 0x10ACD), (0x10AD7, 0x10AD7), (0x10D00, 0x10D00), (0x10FCB, 0x10FCB)]

/-- Letters that join on both sides. -/
def dualRanges : List (Nat × Nat) :=
  [(0x620, 0x620), (0x626, 0x626), (0x628, 0x628), (0x62A, 0x62E), (0x633, 0x63F), (0x641, 0x647),
    (0x649, 0x64A), (0x66E, 0x66F), (0x679, 0x687), (0x69A, 0x6BF), (0x6C1, 0x6C2), (0x6CC, 0x6CC),
    (0x6CE, 0x6CE), (0x6D0, 0x6D1), (0x6FA, 0x6FC), (0x6FF, 0x6FF), (0x712, 0x714), (0x71A, 0x71D),
    (0x71F, 0x727), (0x729, 0x729), (0x72B, 0x72B), (0x72D, 0x72E), (0x74E, 0x758), (0x75C, 0x76A),
    (0x76D, 0x770), (0x772, 0x772), (0x775, 0x777), (0x77A, 0x77F), (0x7CA, 0x7EA), (0x841, 0x845),
    (0x848, 0x848), (0x84A, 0x853), (0x855, 0x855), (0x860, 0x860), (0x862, 0x865), (0x868, 0x868),
    (0x886, 0x886), (0x889, 0x88D), (0x8A0, 0x8A9), (0x8AF, 0x8B0), (0x8B3, 0x8B8), (0x8BA, 0x8C8),
    (0x1807, 0x1807), (0x1820, 0x1878), (0x1887, 0x18AA), (0xA840, 0xA871), (0x10AC0, 0x10AC4),
    (0x10AD3, 0x10AD6), (0x10AD8, 0x10ADC), (0x10ADE, 0x10AE0), (0x10AEB, 0x10AEE),
    (0x10B80, 0x10B80), (0x10B82, 0x10B82), (0x10B86, 0x10B88), (0x10B8A, 0x10B8B),
    (0x10B8D, 0x10B8D), (0x10B90, 0x10B90), (0x10BAD, 0x10BAE), (0x10D01, 0x10D21),
    (0x10D23, 0x10D23), (0x10EC3, 0x10EC4), (0x10F30, 0x10F32), (0x10F34, 0x10F44),
    (0x10F51, 0x10F53), (0x10F70, 0x10F73), (0x10F76, 0x10F81), (0x10FB0, 0x10FB0),
    (0x10FB2, 0x10FB3), (0x10FB8, 0x10FB8), (0x10FBB, 0x10FBC), (0x10FBE, 0x10FBF),
    (0x10FC1, 0x10FC1), (0x10FC4, 0x10FC4), (0x10FCA, 0x10FCA), (0x1E922, 0x1E943)]

/-- Letters that join the one before them only. -/
def backRanges : List (Nat × Nat) :=
  [(0x622, 0x625), (0x627, 0x627), (0x629, 0x629), (0x62F, 0x632), (0x648, 0x648), (0x671, 0x673),
    (0x688, 0x699), (0x6C0, 0x6C0), (0x6C3, 0x6CB), (0x6CD, 0x6CD), (0x6CF, 0x6CF), (0x6D2, 0x6D3),
    (0x6D5, 0x6D5), (0x6EE, 0x6EF), (0x710, 0x710), (0x715, 0x719), (0x71E, 0x71E), (0x728, 0x728),
    (0x72A, 0x72A), (0x72C, 0x72C), (0x72F, 0x74D), (0x759, 0x75B), (0x76B, 0x76C), (0x771, 0x771),
    (0x773, 0x774), (0x778, 0x779), (0x840, 0x840), (0x846, 0x847), (0x849, 0x849), (0x854, 0x854),
    (0x856, 0x858), (0x867, 0x867), (0x869, 0x882), (0x88E, 0x88E), (0x8AA, 0x8AC), (0x8AE, 0x8AE),
    (0x8B1, 0x8B2), (0x8B9, 0x8B9), (0x10AC5, 0x10AC5), (0x10AC7, 0x10AC7), (0x10AC9, 0x10ACA),
    (0x10ACE, 0x10AD2), (0x10ADD, 0x10ADD), (0x10AE1, 0x10AE1), (0x10AE4, 0x10AE4),
    (0x10AEF, 0x10AEF), (0x10B81, 0x10B81), (0x10B83, 0x10B85), (0x10B89, 0x10B89),
    (0x10B8C, 0x10B8C), (0x10B8E, 0x10B8F), (0x10B91, 0x10B91), (0x10BA9, 0x10BAC),
    (0x10D22, 0x10D22), (0x10EC2, 0x10EC2), (0x10F33, 0x10F33), (0x10F54, 0x10F54),
    (0x10F74, 0x10F75), (0x10FB4, 0x10FB6), (0x10FB9, 0x10FBA), (0x10FBD, 0x10FBD),
    (0x10FC2, 0x10FC3), (0x10FC9, 0x10FC9)]

def joinsNext (c : Char) : Bool := Text.isIn nextRanges c || Text.isIn dualRanges c

def joinsLast (c : Char) : Bool := Text.isIn dualRanges c || Text.isIn backRanges c

/-- Marks that joining passes over. -/
def isPassedOver (c : Char) : Bool := Text.isNonspacing c || c.toNat = 0x1E94B

/-- Whether a text that follows another one, given backwards, has joiners only where they may be. -/
def joinersFit (before : List Char) : List Char → Bool
  | [] => true
  | c :: rest =>
    let isSilenced := (before.head?.map Text.combiningClass).any (· = Text.silencerClass)
    let parts :=
      ((before.dropWhile isPassedOver).head?.any joinsNext)
        && ((rest.dropWhile isPassedOver).head?.any joinsLast)
    (c.toNat != 0x200C || isSilenced || parts) && (c.toNat != 0x200D || isSilenced)
      && joinersFit (c :: before) rest

inductive Direction where
  | left
  | right
  | number
  | arabicNumber
  /-- Without a direction of its own. -/
  | neutral
  /-- With the direction of the character before it. -/
  | mark
  deriving DecidableEq, Repr

namespace Direction

def rightRanges : List (Nat × Nat) :=
  [(0x5BE, 0x5F4), (0x608, 0x608), (0x60B, 0x60B), (0x60D, 0x60D), (0x61B, 0x64A), (0x66D, 0x6D5),
    (0x6E5, 0x6E6), (0x6EE, 0x6EF), (0x6FA, 0x7F5), (0x7FA, 0x8C9), (0xFBB2, 0xFBC2),
    (0xFE73, 0xFE73), (0x10800, 0x1091B), (0x10920, 0x10B35), (0x10B40, 0x10D23),
    (0x10D4A, 0x10D4F), (0x10D6F, 0x10D8F), (0x10E80, 0x10FF6), (0x1E800, 0x1ED3D)]

def arabicNumberRanges : List (Nat × Nat) :=
  [(0x660, 0x669), (0x66B, 0x66C), (0x10D30, 0x10D39), (0x10E60, 0x10E7E)]

def numberRanges : List (Nat × Nat) :=
  [(0x6F0, 0x6F9), (0x102E1, 0x102FB), (0x10D40, 0x10D49)]

def neutralRanges : List (Nat × Nat) :=
  [(0xA1, 0xD7), (0xF7, 0xF7), (0x2B9, 0x2BA), (0x2C2, 0x2CF), (0x2D2, 0x2ED), (0x2EF, 0x2FF),
    (0x375, 0x375), (0x3F6, 0x3F6), (0x58A, 0x58F), (0x606, 0x607), (0x609, 0x60A), (0x60C, 0x60C),
    (0x60E, 0x60F), (0x66A, 0x66A), (0x6DE, 0x6DE), (0x6E9, 0x6E9), (0x7F6, 0x7F9), (0x9F2, 0x9F3),
    (0x9FB, 0x9FB), (0xAF1, 0xAF1), (0xBF3, 0xBFA), (0xC78, 0xC7E), (0xE3F, 0xE3F), (0xF3A, 0xF3D),
    (0x1390, 0x1399), (0x1400, 0x1400), (0x169B, 0x169C), (0x17DB, 0x17DB), (0x17F0, 0x180A),
    (0x1940, 0x1945), (0x19DE, 0x19FF), (0x200C, 0x214D), (0x218A, 0x2335), (0x237B, 0x2394),
    (0x2396, 0x26AB), (0x26AD, 0x27FF), (0x2900, 0x2BFF), (0x2CE5, 0x2CEA), (0x2CF9, 0x2CFF),
    (0x2E00, 0x3004), (0x3008, 0x3020), (0x3030, 0x3030), (0x3037, 0x3037), (0x303D, 0x303F),
    (0x30A0, 0x30A0), (0x30FB, 0x30FB), (0x31C0, 0x31E5), (0x4DC0, 0x4DFF), (0xA490, 0xA4C6),
    (0xA60D, 0xA60F), (0xA673, 0xA67F), (0xA700, 0xA721), (0xA788, 0xA788), (0xA828, 0xA82B),
    (0xA838, 0xA839), (0xA874, 0xA877), (0xAB6A, 0xAB6B), (0xFD3E, 0xFE46), (0x10101, 0x10101),
    (0x10140, 0x1018C), (0x10190, 0x101A0), (0x1091F, 0x1091F), (0x10B39, 0x10B3F),
    (0x10D6E, 0x10D6E), (0x11052, 0x11065), (0x11660, 0x1166C), (0x11FD5, 0x11FF1),
    (0x16FE2, 0x16FE2), (0x1CC00, 0x1CEB3), (0x1D1E9, 0x1D245), (0x1D300, 0x1D356),
    (0x1E2FF, 0x1E2FF), (0x1EEF0, 0x1F12F), (0x1F16D, 0x1F16F), (0x1F1AD, 0x1F1AD),
    (0x1F260, 0x1FBEF)]

/-- Nonspacing marks that run from left to right. -/
def leftMarkRanges : List (Nat × Nat) :=
  [(0xCBF, 0xCBF), (0xCC6, 0xCC6), (0x11A07, 0x11A08), (0x11C3F, 0x11C3F)]

def ofChar (c : Char) : Direction :=
  if c.toNat < 128 then
    if c.isAlpha then left else if c.isDigit then number else neutral
  else if Text.isNonspacing c then if Text.isIn leftMarkRanges c then left else mark
  else if Text.isIn rightRanges c then right
  else if Text.isIn arabicNumberRanges c then arabicNumber
  else if Text.isIn numberRanges c then number
  else if Text.isIn neutralRanges c then neutral
  else left

/-- Whether a direction makes the rule apply to a name. -/
def isRightward (d : Direction) : Bool := d = right || d = arabicNumber

/-- Whether the directions in a label fit together. A label runs as its first character does. -/
def fit (label : List Direction) : Bool :=
  let last := (label.reverse.dropWhile (· = mark)).head?
  match label.head? with
  | none => true
  | some left =>
    !label.any isRightward && last.any fun d => d = left || d = number
  | some right =>
    !label.contains left && !(label.contains number && label.contains arabicNumber)
      && last.any fun d => d = right || d = number || d = arabicNumber
  | some _ => false

end Direction

/-- Whether the directions in the labels of a name fit together. -/
def directionsFit (labels : List (List Char)) : Bool :=
  let directions := labels.map (·.map Direction.ofChar)
  !directions.any (·.any Direction.isRightward) || directions.all Direction.fit

/-- What a text counts as in a name; none if it holds characters that may not stand there. -/
def normal? (text : List Char) : Option (List Char) :=
  (text.mapM mapped?).map fun texts => Text.composed texts.flatten

/-- What an encoded label begins with. -/
def mark : List Char := ['x', 'n', '-', '-']

def isAscii (label : List Char) : Bool := label.all (·.toNat < 128)

/-- A label without encoding. What is encoded may not be ASCII or count as anything else. -/
def plain? (label : List Char) : Option (List Char) :=
  if mark.isPrefixOf label then do
    let plain ← Punycode.decode? (label.drop mark.length)
    if isAscii label && !isAscii plain && normal? plain == some plain then some plain else none
  else some label

/-- Whether marks and joiners in a label have something before them. -/
def isWellFormed (label : List Char) : Bool :=
  !label.head?.any Text.isMark && joinersFit [] label

def encodeLabel (label : List Char) : List Char :=
  if isAscii label then label else mark ++ Punycode.encode label

/-- The spelling of a name in ASCII, if it is one. -/
def ascii? (name : List Char) : Option (List Char) := do
  let labels ← (pieces (· = '.') (← normal? name)).mapM plain?
  if labels.all isWellFormed && directionsFit labels then
    some (['.'].intercalate (labels.map encodeLabel))
  else none

end RouteScript.Uri.Domain
