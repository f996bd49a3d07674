/-!
JSON values whose objects keep the order of their fields, and the two layouts they are written in:
without any blanks, and indented by two spaces a level.
-/

namespace ManagementScript

inductive Json where
  | null
  | boolean (value : Bool)
  | number (value : Int)
  | string (value : String)
  | array (items : List Json)
  | object (fields : List (String × Json))
deriving Repr

namespace Json

/-- A character inside a string. Quotes, backslashes and control characters are escaped. -/
def escaped (c : Char) : String :=
  match c with
  | '"' => "\\\""
  | '\\' => "\\\\"
  | '\n' => "\\n"
  | '\r' => "\\r"
  | '\t' => "\\t"
  | '\x08' => "\\b"
  | '\x0c' => "\\f"
  | c =>
    if c.toNat < 0x20 then
      "\\u00" ++ String.ofList [Nat.digitChar (c.toNat / 16), Nat.digitChar (c.toNat % 16)]
    else c.toString

/-- Writes a string in quotes behind `out`. -/
def writeString (out value : String) : String :=
  (value.toList.foldl (fun out c => out ++ escaped c) (out.push '"')).push '"'

mutual

/-- Writes a value without blanks behind `out`. -/
def writeCompact (out : String) : Json → String
  | .null => out ++ "null"
  | .boolean value => out ++ if value then "true" else "false"
  | .number value => out ++ toString value
  | .string value => writeString out value
  | .array items => (writeItems (out.push '[') true items).push ']'
  | .object fields => (writeFields (out.push '\x7b') true fields).push '\x7d'

def writeItems (out : String) (first : Bool) : List Json → String
  | [] => out
  | item :: items => writeItems (writeCompact (if first then out else out.push ',') item) false items

def writeFields (out : String) (first : Bool) : List (String × Json) → String
  | [] => out
  | (name, value) :: fields =>
    let out := writeString (if first then out else out.push ',') name
    writeFields (writeCompact (out.push ':') value) false fields

end

/-- The text of a value without blanks. -/
def compact (value : Json) : String := value.writeCompact ""

/-- Begins a new line at a level of indentation. -/
def newLine (out : String) (level : Nat) : String :=
  (List.replicate (2 * level) ' ').foldl String.push (out.push '\n')

mutual

/-- Writes a value behind `out` with one item to a line. Empty arrays and objects stay together. -/
def writeIndented (level : Nat) (out : String) : Json → String
  | .null => out ++ "null"
  | .boolean value => out ++ if value then "true" else "false"
  | .number value => out ++ toString value
  | .string value => writeString out value
  | .array [] => out ++ "[]"
  | .array (item :: items) =>
    let out := writeIndented (level + 1) (newLine (out.push '[') (level + 1)) item
    (newLine (writeIndentedItems (level + 1) out items) level).push ']'
  | .object [] => out ++ "\x7b\x7d"
  | .object ((name, value) :: fields) =>
    let out := writeString (newLine (out.push '\x7b') (level + 1)) name ++ ": "
    let out := writeIndented (level + 1) out value
    (newLine (writeIndentedFields (level + 1) out fields) level).push '\x7d'

def writeIndentedItems (level : Nat) (out : String) : List Json → String
  | [] => out
  | item :: items =>
    writeIndentedItems level (writeIndented level (newLine (out.push ',') level) item) items

def writeIndentedFields (level : Nat) (out : String) : List (String × Json) → String
  | [] => out
  | (name, value) :: fields =>
    let out := writeString (newLine (out.push ',') level) name ++ ": "
    writeIndentedFields level (writeIndented level out value) fields

end

/-- The text of a value with one item to a line. -/
def indented (value : Json) : String := value.writeIndented 0 ""

end Json

end ManagementScript
