import ManagementScript.Document.Path
import ManagementScript.Limits
import ManagementScript.Text.Blank
import ManagementScript.Text.Decimal
import ManagementScript.Text.Lowercase

/-! What is known about a document besides its text. -/

namespace ManagementScript

/-- The size of a file in the unit that people read it in, the largest one that it fills. Sizes that take
more than 53 binary digits are rounded to that many before. -/
def readableSize (size : Nat) : String :=
  let rounded := Text.toBinary53 size
  if rounded < 1024 then s!"{size} B"
  else if rounded < Nat.pow 1024 2 then s!"{Text.decimal 2 rounded 1024} KB"
  else if rounded < Nat.pow 1024 3 then s!"{Text.decimal 2 rounded (Nat.pow 1024 2)} MB"
  else s!"{Text.decimal 2 rounded (Nat.pow 1024 3)} GB"

def isLargeSize (size : Nat) : Bool := Limits.largeDocumentSize < size

/-- The number of lines of a text. What follows the last line feed counts as a line unless it is
empty. -/
def countLines (text : String) : Nat :=
  let (lines, unfinished) := text.foldl
    (fun (lines, _) c => if c == '\n' then (lines + 1, false) else (lines, true)) (0, false)
  if unfinished then lines + 1 else lines

/-- Where a document is and how large it is. -/
structure Metadata where
  /-- The path that leads to the file without a detour. -/
  path : String
  size : Nat
  lineCount : Nat
deriving DecidableEq, Repr

namespace Metadata

/-- The name of the file. -/
def name (m : Metadata) : String := (Path.parts m.path).getLastD ""

/-- The extension of the file in small letters. -/
def extension? (m : Metadata) : Option String := (Path.extension? m.name).map Text.lowercase

def isXml (m : Metadata) : Bool := m.extension? == some "xml"

def readableSize (m : Metadata) : String := ManagementScript.readableSize m.size

def isLarge (m : Metadata) : Bool := isLargeSize m.size

end Metadata

/-- A document that was loaded. -/
structure Document where
  source : String
  metadata : Metadata
deriving Repr

namespace Document

/-- Whether there is nothing but white space. -/
def isBlank (d : Document) : Bool := d.source.all Text.isWhiteSpace

end Document

end ManagementScript
