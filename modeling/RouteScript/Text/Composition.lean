import RouteScript.Text.Mark
/-!
# Composition

A letter with a mark may be one character or two. `Text.composed` gives the canonical form of a
text, in which they are one where they can be, and marks that stand beside each other are in order.
-/
namespace RouteScript.Text

/-- For the second character of a pair, the first characters and what comes of them; none of them
is in upper case. -/
def compositions : List (Nat × String × String) :=
  [(0x300, "aeiouünеиēōwâăêôơưyἀἁἐἑἠἡἰἱὀὁὐ", "àèìòùǜǹѐѝḕṑẁầằềồờừỳἂἃἒἓἢἣἲἳὂὃὒ"),
    (0x300, "ὑὠὡαεηιουωϊϋ", "ὓὢὣὰὲὴὶὸὺὼῒῢ"),
    (0x301, "aeiouyclnrszügåæøϊαεηιϋουωгкçē", "áéíóúýćĺńŕśźǘǵǻǽǿΐάέήίΰόύώѓќḉḗ"),
    (0x301, "ïkmõōpũwâăêôơưἀἁἐἑἠἡἰἱὀὁὐὑὠὡ", "ḯḱḿṍṓṕṹẃấắếốớứἄἅἔἕἤἥἴἵὄὅὔὕὤὥ"),
    (0x302, "aeioucghjswyzạẹọ", "âêîôûĉĝĥĵŝŵŷẑậệộ"), (0x303, "anoiuvâăeêôơưy", "ãñõĩũṽẫẵẽễỗỡữỹ"),
    (0x304, "aeiouüäȧæǫöõȯyиуgḷṛαιυ", "āēīōūǖǟǡǣǭȫȭȱȳӣӯḡḹṝᾱῑῡ"),
    (0x306, "aegiouиужаеȩạαιυ", "ăĕğĭŏŭйўӂӑӗḝặᾰῐῠ"),
    (0x307, "cegzaobdfhmnprsśšṣtwxy𐗒𐗚", "ċėġżȧȯḃḋḟḣṁṅṗṙṡṥṧṩṫẇẋẏ𐗉𐗤"),
    (0x308, "aeiouyιυеіаәжзиоөэучыhõūwxt", "äëïöüÿϊϋёїӓӛӝӟӥӧӫӭӱӵӹḧṏṻẅẍẗ"),
    (0x309, "aâăeêioôơuưy", "ảẩẳẻểỉỏổởủửỷ"), (0x30A, "auwy", "åůẘẙ"), (0x30B, "ouу", "őűӳ"),
    (0x30C, "cdelnrstzaiouügkʒjh", "čďěľňřšťžǎǐǒǔǚǧǩǯǰȟ"), (0x30F, "aeioruѵ", "ȁȅȉȍȑȕѷ"),
    (0x311, "aeioru", "ȃȇȋȏȓȗ"), (0x313, "αεηιουωρ", "ἀἐἠἰὀὐὠῤ"), (0x314, "αεηιουωρ", "ἁἑἡἱὁὑὡῥ"),
    (0x31B, "ou", "ơư"), (0x323, "bdhklmnrstvwzaeioơuưy", "ḅḍḥḳḷṃṇṛṣṭṿẉẓạẹịọợụựỵ"),
    (0x324, "u", "ṳ"), (0x325, "a", "ḁ"), (0x326, "st", "șț"),
    (0x327, "cgklnrstedh", "çģķļņŗşţȩḑḩ"), (0x328, "aeiuo", "ąęįųǫ"), (0x32D, "delntu", "ḓḙḽṋṱṷ"),
    (0x32E, "h", "ḫ"), (0x330, "eiu", "ḛḭṵ"), (0x331, "bdklnrtzh", "ḇḏḵḻṉṟṯẕẖ"),
    (0x338, "←→↔⇐⇔⇒∃∈∋∣∥∼≃≅≈=≡≍<>≤≥≲≳≶≷≺≻⊂⊃", "↚↛↮⇍⇎⇏∄∉∌∤∦≁≄≇≉≠≢≭≮≯≰≱≴≵≸≹⊀⊁⊄⊅"),
    (0x338, "⊆⊇⊢⊨⊩⊫≼≽⊑⊒⊲⊳⊴⊵", "⊈⊉⊬⊭⊮⊯⋠⋡⋢⋣⋪⋫⋬⋭"), (0x342, "ἀἁἠἡἰἱὐὑὠὡαηιϊυϋω", "ἆἇἦἧἶἷὖὗὦὧᾶῆῖῗῦῧῶ"),
    (0x653, "ا", "آ"), (0x654, "اويەہے", "أؤئۀۂۓ"), (0x655, "ا", "إ"), (0x93C, "नरळ", "ऩऱऴ"),
    (0x9BE, "\u09c7", "\u09cb"), (0x9D7, "\u09c7", "\u09cc"), (0xB3E, "\u0b47", "\u0b4b"),
    (0xB56, "\u0b47", "\u0b48"), (0xB57, "\u0b47", "\u0b4c"),
    (0xBBE, "\u0bc6\u0bc7", "\u0bca\u0bcb"), (0xBD7, "ஒ\u0bc6", "ஔ\u0bcc"),
    (0xC56, "\u0c46", "\u0c48"), (0xCC2, "\u0cc6", "\u0cca"),
    (0xCD5, "\u0cbf\u0cc6\u0cca", "\u0cc0\u0cc7\u0ccb"), (0xCD6, "\u0cc6", "\u0cc8"),
    (0xD3E, "\u0d46\u0d47", "\u0d4a\u0d4b"), (0xD57, "\u0d46", "\u0d4c"),
    (0xDCA, "\u0dd9\u0ddc", "\u0dda\u0ddd"), (0xDCF, "\u0dd9", "\u0ddc"),
    (0xDDF, "\u0dd9", "\u0dde"), (0x102E, "ဥ", "ဦ"),
    (0x1B35, "ᬅᬇᬉᬋᬍᬑ\u1b3a\u1b3c\u1b3e\u1b3f\u1b42", "ᬆᬈᬊᬌᬎᬒ\u1b3b\u1b3d\u1b40\u1b41\u1b43"),
    (0x3099, "かきくけこさしすせそたちつてとはひふへほうゝカキクケコサシス", "がぎぐげござじずぜぞだぢづでどばびぶべぼゔゞガギグゲゴザジズ"),
    (0x3099, "セソタチツテトハヒフヘホウワヰヱヲヽ", "ゼゾダヂヅデドバビブベボヴヷヸヹヺヾ"), (0x309A, "はひふへほハヒフヘホ", "ぱぴぷぺぽパピプペポ"),
    (0x110BA, "𑂙𑂛𑂥", "𑂚𑂜𑂫"), (0x11127, "𑄱𑄲", "𑄮𑄯"), (0x1133E, "𑍇", "𑍋"), (0x11357, "𑍇", "𑍌"),
    (0x113B8, "𑏂", "𑏇"), (0x113BB, "𑎄", "𑎅"), (0x113C2, "𑎎", "𑎎𑏅"), (0x113C9, "𑎂𑎐𑏂", "𑎃𑎑𑏈"),
    (0x114B0, "𑒹", "𑒼"), (0x114BA, "𑒹", "𑒻"), (0x114BD, "𑒹", "𑒾"), (0x115AF, "𑖸𑖹", "𑖺𑖻"),
    (0x11930, "𑤵", "𑤸"), (0x1611E, "𖄞", "𖄡"), (0x1611F, "𖄢𖄡𖄢", "𖄣𖄤𖄦𖄧"), (0x16120, "𖄡𖄞", "𖄥𖄨"),
    (0x16129, "𖄞", "𖄢"), (0x16D67, "𖵧𖵣𖵩", "𖵨𖵩𖵪")]

/-- The syllable of a leading consonant and a vowel, or of such a syllable and a consonant. -/
def joinSyllable? (a b : Nat) : Option Nat :=
  if 0x1100 ≤ a && a < 0x1113 && 0x1161 ≤ b && b < 0x1176 then
    some (0xAC00 + ((a - 0x1100) * 21 + (b - 0x1161)) * 28)
  else if 0xAC00 ≤ a && a < 0xD7A4 && (a - 0xAC00) % 28 = 0 && 0x11A8 ≤ b && b < 0x11C3 then
    some (a + (b - 0x11A7))
  else none

/-- The two parts of a syllable. -/
def splitSyllable? (n : Nat) : Option (Nat × Nat) :=
  if 0xAC00 ≤ n && n < 0xD7A4 then
    let index := n - 0xAC00
    if index % 28 = 0 then some (0x1100 + index / 588, 0x1161 + index % 588 / 28)
    else some (n - index % 28, 0x11A7 + index % 28)
  else none

/-- The character that stands for two others. -/
def join? (a b : Char) : Option Char :=
  match joinSyllable? a.toNat b.toNat with
  | some n => some (Char.ofNat n)
  | none => compositions.findSome? fun (second, firsts, joined) =>
    if second = b.toNat then (firsts.toList.zip joined.toList).lookup a else none

/-- The two characters for which another one stands. -/
def split? (c : Char) : Option (Char × Char) :=
  match splitSyllable? c.toNat with
  | some (a, b) => some (Char.ofNat a, Char.ofNat b)
  | none =>
    if c.toNat < 128 then none
    else compositions.findSome? fun (second, firsts, joined) =>
      ((joined.toList.zip firsts.toList).lookup c).map fun a => (a, Char.ofNat second)

/-- The characters for which one stands, parted a number of times at most. -/
def parts : Nat → Char → List Char
  | 0, c => [c]
  | times + 1, c =>
    match split? c with
    | some (a, b) => parts times a ++ [b]
    | none => [c]

/-- Puts a character before a text, but behind the marks of lower classes if it is a mark. -/
def insertMark (c : Char) : List Char → List Char
  | [] => [c]
  | d :: rest =>
    if combiningClass d != 0 && combiningClass d < combiningClass c then d :: insertMark c rest
    else c :: d :: rest

/-- The text of a character, the marks behind it that stay, and more. -/
def joinFrom (first : Char) (marks : List Char) : List Char → List Char
  | [] => first :: marks
  | c :: rest =>
    let k := combiningClass c
    let isNext := marks.isEmpty || (marks.getLast?.map combiningClass).any (· < k)
    match if isNext then join? first c else none with
    | some joined => joinFrom joined marks rest
    | none =>
      if k = 0 then first :: marks ++ joinFrom c [] rest else joinFrom first (marks ++ [c]) rest

/-- The canonical form of a text. No character stands for more than five others. -/
def composed (text : List Char) : List Char :=
  if text.all (·.toNat < 128) then text
  else
    match (text.flatMap (parts 4)).foldr insertMark [] with
    | [] => []
    | first :: rest => joinFrom first [] rest

end RouteScript.Text
