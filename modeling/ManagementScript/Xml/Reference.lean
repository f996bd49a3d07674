import ManagementScript.Text.Blank
import ManagementScript.Text.Numeral

/-!
References in character data and attribute values: the five predefined entities and numbers of
characters. The first reference without a meaning decides.
-/

namespace ManagementScript.Xml

/-- Why a reference to a character by its number has no meaning. -/
inductive CharacterDefect where
  | sign
  | numeral (defect : Text.NumeralDefect)
  | null
  | noCharacter (number : Nat)
deriving DecidableEq, Repr

namespace CharacterDefect

def message : CharacterDefect → String
  | sign => "unexpected number sign"
  | numeral defect => defect.message
  | null => "0x0 character is not permitted in XML"
  | noCharacter number => s!"`{number}` is not a valid codepoint"

end CharacterDefect

/-- Why a text with references has no meaning. Ranges count the bytes of the text. -/
inductive ReferenceDefect where
  | unterminated (first last : Nat)
  | unknownEntity (first last : Nat) (name : String)
  | character (defect : CharacterDefect)
deriving DecidableEq, Repr

namespace ReferenceDefect

def message : ReferenceDefect → String
  | unterminated first last =>
    s!"Error while escaping character at range {first}..{last}: Cannot find ';' after '&'"
  | unknownEntity first last name => s!"at {first}..{last}: unrecognized entity `{name}`"
  | character defect => s!"invalid character reference: {defect.message}"

end ReferenceDefect

/-- The character with a number. -/
def character (number : Nat) : Except CharacterDefect Char :=
  if number = 0 then .error .null
  else if h : number.isValidChar then .ok (Char.ofNatAux number h)
  else .error (.noCharacter number)

/-- The character that a numeral behind `#` stands for; `x` introduces base 16. -/
def numberedCharacter (numeral : List Char) : Except CharacterDefect Char :=
  let (base, digits) :=
    match numeral with
    | 'x' :: digits => (16, digits)
    | digits => (10, digits)
  match digits with
  | '+' :: _ | '-' :: _ => .error .sign
  | _ =>
    match Text.readNumeral base 0xffffffff digits with
    | .error defect => .error (.numeral defect)
    | .ok number => character number

/-- The characters of the predefined entities. -/
def entity? : String → Option Char
  | "lt" => some '<'
  | "gt" => some '>'
  | "amp" => some '&'
  | "apos" => some '\''
  | "quot" => some '"'
  | _ => none

/-- The character that a reference stands for, given the offset of its name and the name. -/
def referenced (offset : Nat) (name : List Char) : Except ReferenceDefect Char :=
  match name with
  | '#' :: numeral => (numberedCharacter numeral).mapError .character
  | _ =>
    match entity? (String.ofList name) with
    | some c => .ok c
    | none => .error (.unknownEntity offset (offset + Text.byteCount name) (String.ofList name))

/-- Resolves references from `offset` on. `reference` holds the offset of an open reference and its
name so far, `resolved` the text so far, both last first. -/
def resolveFrom (size : Nat) (reference : Option (Nat × List Char)) (resolved : List Char)
    (offset : Nat) : List Char → Except ReferenceDefect (List Char)
  | [] =>
    match reference with
    | none => .ok resolved.reverse
    | some (first, _) => .error (.unterminated first size)
  | c :: cs =>
    match reference with
    | none =>
      if c == '&' then resolveFrom size (some (offset, [])) resolved (offset + 1) cs
      else resolveFrom size none (c :: resolved) (offset + c.utf8Size) cs
    | some (first, name) =>
      if c == ';' then
        match referenced (first + 1) name.reverse with
        | .error defect => .error defect
        | .ok r => resolveFrom size none (r :: resolved) (offset + 1) cs
      else if c == '&' then .error (.unterminated first size)
      else resolveFrom size (some (first, c :: name)) resolved (offset + c.utf8Size) cs

/-- A text with its references replaced by what they stand for. -/
def resolveReferences (cs : List Char) : Except ReferenceDefect String :=
  (resolveFrom (Text.byteCount cs) none [] 0 cs).map String.ofList

end ManagementScript.Xml
