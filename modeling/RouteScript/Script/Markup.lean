import RouteScript.Script.Stream
import RouteScript.Text.Basic
/-!
# Inline markup

Markup is read as plain text: tags end at the first `>`, and quotes in it mean nothing. It goes on
as long as an element is open or another tag follows. The tokens behind it are read afresh.
-/
namespace RouteScript.Script

/-- How a tag changes the number of open elements. -/
def tagDepth (tag : List Char) : Int :=
  if tag.take 2 == ['<', '/'] then -1
  else if tag.take 2 == ['<', '?'] || tag.take 2 == ['<', '!']
      || tag.drop (tag.length - 2) == ['/', '>'] then 0
  else 1

/-- The leaf of the text between two tags, without the white space around it. -/
def textLeaves (offset : Nat) (run : List Char) : List Draft :=
  let start := offset + Text.size (run.takeWhile Text.isBlank)
  let inner := Text.trim run
  if inner.isEmpty then [] else [.leaf Kind.xmlText true start (start + Text.size inner)]

/-- Leaves of markup that stands at `offset`, and the offset and text behind it. -/
def markupLeaves : Nat → Int → Nat → List Char → List Draft × Nat × List Char
  | 0, _, offset, text => ([], offset, text)
  | _ + 1, _, offset, [] => ([], offset, [])
  | rounds + 1, depth, offset, c :: rest =>
    if c ≠ '<' then
      let run := (c :: rest).takeWhile (· ≠ '<')
      let (leaves, behind) :=
        markupLeaves rounds depth (offset + Text.size run) ((c :: rest).dropWhile (· ≠ '<'))
      (textLeaves offset run ++ leaves, behind)
    else
      match (c :: rest).dropWhile (· ≠ '>') with
      | [] =>
        let stop := offset + Text.size (c :: rest)
        ([.leaf Kind.error true offset stop], stop, [])
      | close :: after =>
        let tag := (c :: rest).takeWhile (· ≠ '>') ++ [close]
        let stop := offset + Text.size tag
        let depth := depth + tagDepth tag
        let gap := after.takeWhile Text.isBlank
        let (leaves, behind) :=
          if depth > 0 then markupLeaves rounds depth stop after
          else if (Text.trimStart after).head? = some '<' then
            markupLeaves rounds depth (stop + Text.size gap) (Text.trimStart after)
          else ([], stop, after)
        (.leaf Kind.xmlTag true offset stop :: leaves, behind)

/-- A markup node at the next token. -/
def markup : Reader Draft := do
  match ← peek with
  | none => node Kind.xml []
  | some first =>
    let s ← get
    let text := (Text.after? s.source first.start).getD []
    let (leaves, offset, rest) := markupLeaves (text.length + 1) 0 first.start text
    set { s with tokens := Token.allFrom offset false rest }.settle
    node Kind.xml leaves

end RouteScript.Script
