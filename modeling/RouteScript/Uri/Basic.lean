import RouteScript.Uri.Host
import RouteScript.Uri.Path
/-!
# Addresses

Clients spell the address of a document in many ways. `Uri.normalize?` gives the one spelling under
which a document is known: scheme and host in lower case, dots in the path resolved, and what has
no place in a part of the address encoded there. Without a scheme there is no address.
-/
namespace RouteScript.Uri

/-- How the text behind a scheme is read. -/
inductive Form where
  | file
  /-- A scheme of the web. Its addresses have a host; `service` is the usual number there. -/
  | web (service : Option Nat)
  | other
  deriving DecidableEq, Repr

def Form.ofScheme (scheme : List Char) : Form :=
  if scheme = "file".toList then .file
  else if scheme = "http".toList || scheme = "ws".toList then .web (some 80)
  else if scheme = "https".toList || scheme = "wss".toList then .web (some 443)
  else if scheme = "ftp".toList then .web (some 21)
  else .other

/-- Whether a character divides segments of a path. -/
def Form.divides (f : Form) (c : Char) : Bool := c = '/' || c = '\\' && f != .other

/-- A text without the blanks at its ends, and without line breaks and tabs. -/
def strip (text : List Char) : List Char :=
  let isBlank (c : Char) : Bool := c.toNat ≤ 0x20
  (((text.dropWhile isBlank).reverse.dropWhile isBlank).reverse).filter fun c =>
    c != '\t' && c != '\n' && c != '\r'

/-- The scheme of an address in lower case, and what stands behind its colon. -/
def scheme? (text : List Char) : Option (List Char × List Char) :=
  let isSchemeChar (c : Char) : Bool := c.isAlphanum || c = '+' || c = '-' || c = '.'
  let scheme := text.takeWhile isSchemeChar
  match scheme, text.dropWhile isSchemeChar with
  | c :: _, ':' :: rest => if c.isAlpha then some (scheme.map Char.toLower, rest) else none
  | _, _ => none

/-- The encoded query and fragment of an address, each with its mark. -/
def tail (f : Form) (text : List Char) : List Char :=
  let escaped := if f = .other then notInQuery else notInSpecialQuery
  let fragment (text : List Char) : List Char :=
    match text with
    | '#' :: rest => '#' :: encode notInFragment rest
    | _ => []
  match text with
  | '?' :: rest =>
    let (query, behind) := splitAt (· = '#') rest
    '?' :: encode escaped query ++ fragment behind
  | _ => fragment text

/-- A host and the number of a service, if a colon stands behind the host. -/
def splitService (text : List Char) : List Char × Option (List Char) :=
  let service := (text.reverse.takeWhile fun c => c != ':' && c != ']').reverse
  let before := text.take (text.length - service.length)
  if before.getLast? == some ':' then (before.dropLast, some service) else (text, none)

/-- The text of a service number, which is empty where the form has that number anyway. -/
def service? (f : Form) (text : List Char) : Option (List Char) :=
  if text.isEmpty then some []
  else do
    let n ← Text.digits? 10 text
    if 65535 < n then none
    return if f = .web (some n) then [] else ':' :: Nat.toDigits 10 n

/-- The name and password before a host. -/
def userText (text : List Char) : List Char :=
  let (name, behind) := splitAt (· = ':') text
  let password := encode notInUser (behind.drop 1)
  let user := encode notInUser name ++ if password.isEmpty then [] else ':' :: password
  if user.isEmpty then [] else user ++ ['@']

/-- The authority of an address in its normal spelling. Its host may only be empty where it has no
meaning and nothing else is said; `isLast` tells whether the address ends with it. -/
def authority? (f : Form) (isLast : Bool) (text : List Char) : Option (List Char) := do
  let place := (text.reverse.takeWhile (· != '@')).reverse
  let isMarked := place.length < text.length
  let user := userText (text.take (text.length - place.length)).dropLast
  if isMarked && text.length = 1 && !isLast then none
  let (name, service) := splitService place
  let host ← host? (f != .other) name
  if host.isEmpty && (f != .other || !user.isEmpty || service.isSome) then none
  return user ++ host ++ (← service? f (service.getD []))

/-- A path that starts at the root, dots resolved and encoded, with what stands behind it. -/
def rootedPath (f : Form) (text : List Char) : List Segment × List Char :=
  let (path, behind) := splitAt (fun c => c = '?' || c = '#') text
  let parts := pieces f.divides path
  let parts := if parts.head? == some [] && parts.length != 1 then parts.drop 1 else parts
  (resolve (f = .file) [] (parts.map (encode notInPath)), behind)

/-- The path of a file without empty segments at its head. -/
def dropEmpty : List Segment → List Segment
  | [] :: s :: rest => dropEmpty (s :: rest)
  | path => path

/-- What stands behind the colon of a file's address. -/
def fileRest? (text : List Char) : Option (List Char) :=
  let f := Form.file
  let unhosted (text : List Char) : List Char :=
    let (path, behind) := rootedPath f text
    '/' :: '/' :: pathText (dropEmpty path) ++ tail f behind
  match text with
  | a :: b :: rest =>
    if f.divides a && f.divides b then
      let (name, behind) := splitAt (fun c => f.divides c || c = '?' || c = '#') rest
      if isDriveLetter name then some (unhosted rest)
      else do
        let host ← host? true name
        let (path, after) := rootedPath f behind
        let host :=
          if host = "localhost".toList || path.head?.any isDriveLetter then [] else host
        return '/' :: '/' :: host ++ pathText (dropEmpty path) ++ tail f after
    else some (unhosted text)
  | _ => some (unhosted text)

/-- What stands behind the colon of an address of the web. -/
def webRest? (f : Form) (text : List Char) : Option (List Char) := do
  let (authority, behind) :=
    splitAt (fun c => f.divides c || c = '?' || c = '#') (text.dropWhile f.divides)
  let (path, after) := rootedPath f behind
  return '/' :: '/' :: (← authority? f behind.isEmpty authority) ++ pathText path ++ tail f after

/-- What stands behind the colon of any other address. -/
def otherRest? (text : List Char) : Option (List Char) :=
  let f := Form.other
  match text with
  | '/' :: '/' :: rest => do
    let (authority, behind) := splitAt (fun c => c = '/' || c = '?' || c = '#') rest
    let authority ← authority? f behind.isEmpty authority
    if behind.head? == some '/' then
      let (path, after) := rootedPath f behind
      return '/' :: '/' :: authority ++ pathText path ++ tail f after
    else return '/' :: '/' :: authority ++ tail f behind
  | '/' :: _ =>
    let (path, after) := rootedPath f text
    let mark := if path.head? == some [] && path.length != 1 then ['/', '.'] else []
    some (mark ++ pathText path ++ tail f after)
  | _ =>
    let (path, after) := splitAt (fun c => c = '?' || c = '#') text
    some (encode isControl path ++ tail f after)

/-- The spelling under which an address is known, if the text is one. -/
def normalize? (text : String) : Option String := do
  let (scheme, rest) ← scheme? (strip text.toList)
  let rest ← match Form.ofScheme scheme with
    | .file => fileRest? rest
    | .web service => webRest? (.web service) rest
    | .other => otherRest? rest
  return String.ofList (scheme ++ ':' :: rest)

end RouteScript.Uri
