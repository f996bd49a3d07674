import ManagementScript.Text.Property.GraphemeExtend
import ManagementScript.Text.Property.Unprintable

/-!
Quoted texts. Inside the quotes a quote and a backslash stand behind a backslash, and a character that
could not be seen is written by its code point.
-/

namespace ManagementScript.Text

/-- The voiced and the semi-voiced sound mark of halfwidth Katakana. They extend the letter before them,
but stand in a place of their own. -/
def halfwidthSoundMarks : CharSet := ⟨[(0xff9e, 0xff9f)]⟩

/-- Whether a character is written by its code point. -/
def isHidden (c : Char) : Bool :=
  graphemeExtend.contains c && !halfwidthSoundMarks.contains c || unprintable.contains c

/-- A character as it is written inside quotes. -/
def quotedChar (c : Char) : String :=
  match c with
  | '"' => "\\\""
  | '\\' => "\\\\"
  | '\n' => "\\n"
  | '\r' => "\\r"
  | '\t' => "\\t"
  | '\x00' => "\\0"
  | c =>
    if isHidden c then "\\u\x7b" ++ String.ofList (Nat.toDigits 16 c.toNat) ++ "\x7d"
    else c.toString

/-- A text in quotes. -/
def quoted (text : String) : String :=
  "\"" ++ String.join (text.toList.map quotedChar) ++ "\""

end ManagementScript.Text
