import RouteScript.Uri.Percent
/-!
# Paths of addresses

Addresses are divided at single characters. What divides belongs to no piece. A path is a list of
segments. A segment of one dot stands for the directory it is in and one of two dots for the
directory above, where a dot may be written in its encoded form.
-/
namespace RouteScript.Uri

/-- The text before the first character of a class, and the rest from there on. -/
def splitAt (stops : Char → Bool) (text : List Char) : List Char × List Char :=
  (text.takeWhile (!stops ·), text.dropWhile (!stops ·))

/-- The pieces of a text that any of some characters divide; there is at least one. -/
def pieces (divides : Char → Bool) : List Char → List (List Char)
  | [] => [[]]
  | c :: rest =>
    if divides c then [] :: pieces divides rest
    else
      match pieces divides rest with
      | [] => [[c]]
      | s :: others => (c :: s) :: others

abbrev Segment := List Char

/-- A segment with its encoded dots as dots. -/
def plainDots : Segment → Segment
  | '%' :: '2' :: 'e' :: rest => '.' :: plainDots rest
  | '%' :: '2' :: 'E' :: rest => '.' :: plainDots rest
  | c :: rest => c :: plainDots rest
  | [] => []

def isDot (s : Segment) : Bool := plainDots s = ['.']

def isDoubleDot (s : Segment) : Bool := plainDots s = ['.', '.']

/-- A letter with a colon or a bar. -/
def isDriveLetter : Segment → Bool
  | [c, d] => c.isAlpha && (d = ':' || d = '|')
  | _ => false

/-- The path without its last segment; a drive stays. -/
def parent (path : List Segment) : List Segment :=
  if path.getLast?.any isDriveLetter then path else path.dropLast

/-- The path with one more segment. A drive at the head of a file's path has a colon. -/
def addSegment (isFile : Bool) (path : List Segment) (s : Segment) : List Segment :=
  match path, s with
  | [], [c, _] => if isFile && isDriveLetter s then [[c, ':']] else [s]
  | _, _ => path ++ [s]

/-- A path with further segments, dots resolved; it ends in an empty one if the last were dots. -/
def resolve (isFile : Bool) (path : List Segment) : List Segment → List Segment
  | [] => path
  | s :: rest =>
    let path' :=
      if isDoubleDot s then
        if rest.isEmpty then parent path ++ [[]] else parent path
      else if isDot s then
        if rest.isEmpty then path ++ [[]] else path
      else addSegment isFile path s
    resolve isFile path' rest

/-- The text of a path, a slash before every segment. -/
def pathText (path : List Segment) : List Char := path.flatMap ('/' :: ·)

end RouteScript.Uri
