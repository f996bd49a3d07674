import ManagementScript.Source.LineIndex

/-! Messages that quote the line of a source text which they speak of. -/

namespace ManagementScript

namespace Text

/-- What stands behind the first `n` bytes, unless they end within a character or the text is shorter. -/
def dropBytes? : (n : Nat) → List Char → Option (List Char)
  | 0, cs => some cs
  | _ + 1, [] => none
  | n + 1, c :: cs => if c.utf8Size ≤ n + 1 then dropBytes? (n + 1 - c.utf8Size) cs else none

/-- The part of a text between two offsets, both of them at the edge of a character. -/
def slice? (first last : Nat) (cs : List Char) : Option (List Char) :=
  if last < first then none
  else do
    let behindFirst ← dropBytes? first cs
    let behindLast ← dropBytes? (last - first) behindFirst
    return behindFirst.take (behindFirst.length - behindLast.length)

end Text

namespace LineIndex

/-- The line with the given number as an excerpt quotes it: without its line feed and the carriage returns
before it. -/
def quotedLine? (index : LineIndex) (source : String) (line : Nat) : Option String :=
  if line = 0 then none
  else do
    let first ← index.starts[line - 1]?
    let last := (index.starts[line]?.map (· - 1)).getD source.utf8ByteSize
    let text ← Text.slice? first last source.toList
    return String.ofList (Text.trimEnd (fun c => c == '\r' || c == '\n') text)

/-- A message about a position, with the line it lies on and a mark under its column. A line that the
source does not have is not quoted. -/
def excerpt (index : LineIndex) (source : String) (position : Position) (message : String) : String :=
  let head := s!"Error: {message}\n  --> {position}\n"
  match index.quotedLine? source position.line with
  | none => head
  | some line =>
    let number := toString position.line
    let margin := String.ofList (List.replicate number.length ' ')
    let indent := String.ofList (List.replicate (position.column - 1) ' ')
    s!"{head}   {margin} |\n{number} | {line}\n   {margin} | {indent}^\n"

end LineIndex

/-- A message about a position of a text. -/
def excerpt (source : String) (position : Position) (message : String) : String :=
  (LineIndex.ofString source).excerpt source position message

end ManagementScript
