import ManagementScript.Text.Blank

/-!
The attributes written in a start tag. They are read in order, as far as they can be read; places
count bytes behind the `<` of the tag.
-/

namespace ManagementScript.Xml

/-- An attribute as it is written: its name, the text between its quotes, and where it begins. -/
structure RawAttribute where
  name : List Char
  value : List Char
  offset : Nat
deriving DecidableEq, Repr

/-- Why the attributes of a start tag cannot be read on. -/
inductive AttributeDefect where
  | missingEquals (offset : Nat)
  | missingValue (offset : Nat)
  | unquotedValue (offset : Nat)
  | unclosedValue (offset : Nat) (quote : Char)
  | duplicate (offset previous : Nat)
deriving DecidableEq, Repr

namespace AttributeDefect

def message : AttributeDefect → String
  | missingEquals offset =>
    s!"position {offset}: attribute key must be directly followed by `=` or space"
  | missingValue offset => s!"position {offset}: `=` must be followed by an attribute value"
  | unquotedValue offset =>
    s!"position {offset}: attribute value must be enclosed in `\"` or `'`"
  | unclosedValue offset quote =>
    s!"position {offset}: missing closing quote `{quote}` in attribute value"
  | duplicate offset previous =>
    s!"position {offset}: duplicated attribute, previous declaration at position {previous}"

end AttributeDefect

/-- The characters of the class `p` at the front, the bytes they take, and the rest. -/
def spanBytes (p : Char → Bool) (cs : List Char) : List Char × Nat × List Char :=
  let (taken, rest) := cs.span p
  (taken, Text.byteCount taken, rest)

/-- Reads a name and the equals sign behind it. Its first character may be any but a blank. -/
def readName (offset : Nat) (first : Char) (cs : List Char) :
    Except AttributeDefect (List Char × Nat × List Char) :=
  let (others, nameSize, rest) := spanBytes (fun c => c != '=' && !Text.isBlank c) cs
  let (_, blankSize, rest) := spanBytes Text.isBlank rest
  let finish := offset + first.utf8Size + nameSize + blankSize
  match rest with
  | '=' :: rest => .ok (first :: others, finish + 1, rest)
  | _ => .error (.missingEquals finish)

/-- Reads a quoted value, which may have blanks before it. -/
def readValue (offset : Nat) (cs : List Char) :
    Except AttributeDefect (List Char × Nat × List Char) :=
  let (_, blankSize, rest) := spanBytes Text.isBlank cs
  let offset := offset + blankSize
  match rest with
  | [] => .error (.missingValue offset)
  | quote :: rest =>
    if quote == '"' || quote == '\'' then
      let (value, valueSize, rest) := spanBytes (· != quote) rest
      match rest with
      | [] => .error (.unclosedValue (offset + 1 + valueSize) quote)
      | _ :: rest => .ok (value, offset + 1 + valueSize + 1, rest)
    else .error (.unquotedValue offset)

/-- Reads attributes from `offset` on behind those already `found`, which are kept last first. With
`distinct` a name that was found before is refused. -/
def readAttributes (distinct : Bool) :
    (steps : Nat) → (found : List RawAttribute) → (offset : Nat) → List Char →
      List RawAttribute × Option AttributeDefect
  | 0, found, _, _ => (found.reverse, none)
  | steps + 1, found, offset, cs =>
    let (_, blankSize, rest) := spanBytes Text.isBlank cs
    let offset := offset + blankSize
    match rest with
    | [] => (found.reverse, none)
    | first :: rest =>
      match readName offset first rest with
      | .error defect => (found.reverse, some defect)
      | .ok (name, valueOffset, rest) =>
        match if distinct then found.find? (·.name == name) else none with
        | some previous => (found.reverse, some (.duplicate offset previous.offset))
        | none =>
          match readValue valueOffset rest with
          | .error defect => (found.reverse, some defect)
          | .ok (value, next, rest) =>
            readAttributes distinct steps (⟨name, value, offset⟩ :: found) next rest

/-- What stands between the angle brackets of a start tag, without a closing slash. -/
structure TagText where
  name : List Char
  /-- What follows the name. -/
  tail : List Char
deriving DecidableEq, Repr

namespace TagText

/-- The name of a tag ends at the first blank. -/
def ofContent (content : List Char) : TagText :=
  let (name, tail) := content.span fun c => !Text.isBlank c
  ⟨name, tail⟩

/-- The attributes up to the first defect, and that defect. -/
def attributes (tag : TagText) (distinct : Bool) : List RawAttribute × Option AttributeDefect :=
  readAttributes distinct tag.tail.length [] (Text.byteCount tag.name) tag.tail

end TagText

end ManagementScript.Xml
