import ManagementScript.Source.Position
import ManagementScript.Text.Blank

/-!
From byte offsets to lines and columns. The offsets at which lines begin are collected once; a look-up
bisects them.
-/

namespace ManagementScript

/-- The byte offset of each occurrence of a character, ascending. -/
def offsetsOf (mark : Char) (cs : List Char) : Array Nat :=
  (cs.foldl
    (fun (found, offset) c =>
      (if c == mark then found.push offset else found, offset + c.utf8Size))
    ((#[] : Array Nat), 0)).1

/-- Bisects `xs[low:high]` for the number of entries of `xs` that are at most `bound`. -/
def bisect (xs : Array Nat) (bound : Nat) : (steps low high : Nat) → Nat
  | 0, low, _ => low
  | steps + 1, low, high =>
    if low < high then
      let middle := (low + high) / 2
      if xs.getD middle 0 ≤ bound then bisect xs bound steps (middle + 1) high
      else bisect xs bound steps low middle
    else low

/-- How many entries of the ascending array `xs` are at most `bound`. -/
def countUpTo (xs : Array Nat) (bound : Nat) : Nat :=
  bisect xs bound xs.size 0 xs.size

/-- The line structure of a text. -/
structure LineIndex where
  /-- The offset of the first byte of each line, ascending from zero. -/
  starts : Array Nat
  /-- The size of the text in bytes. -/
  size : Nat
deriving Inhabited

namespace LineIndex

def ofString (text : String) : LineIndex where
  starts := #[0] ++ (offsetsOf '\n' text.toList).map (· + 1)
  size := text.utf8ByteSize

def lineCount (index : LineIndex) : Nat := index.starts.size

/-- The place of an offset; an offset past the end stands for the end. -/
def positionAt (index : LineIndex) (offset : Nat) : Position :=
  let offset := min offset index.size
  let line := countUpTo index.starts offset
  ⟨offset, line, offset - index.starts.getD (line - 1) 0 + 1⟩

/-- The place behind the last byte. -/
def finish (index : LineIndex) : Position := index.positionAt index.size

end LineIndex

end ManagementScript
