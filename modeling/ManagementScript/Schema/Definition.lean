import ManagementScript.Grammar.AttributeName
import ManagementScript.Text.Blank
import ManagementScript.Text.Numeral
import ManagementScript.Compilation.Error

/-!
Definitions of attributes: which parameter an attribute becomes, what values it accepts and how its
text is read. A text with a dollar sign and a pair of braces behind it is an expression, which most
attributes accept in place of a value.
-/

namespace ManagementScript

/-- How the text of an attribute is read. -/
inductive ValueKind where
  | string
  | boolean
  | int
  | long
  /-- Items with white space between them. -/
  | list
  /-- One of the allowed texts. -/
  | enumerated (allowed : List String)
deriving DecidableEq, Repr

/-- Whether a dollar sign with an opening brace occurs, and a closing brace behind it. -/
def hasExpression : List Char → Bool
  | '$' :: '\x7b' :: rest => rest.contains '\x7d'
  | _ :: rest => hasExpression rest
  | [] => false

def isExpression (raw : String) : Bool := hasExpression raw.toList

/-- What an attribute stands for. -/
structure AttributeDefinition where
  /-- The parameter that the value becomes. -/
  parameter : String
  kind : ValueKind
  acceptsExpression : Bool
  /-- The least value of a number. -/
  min : Option Int
deriving DecidableEq, Repr

namespace AttributeDefinition

def ofKind (parameter : String) (kind : ValueKind) : AttributeDefinition := ⟨parameter, kind, true, none⟩

def string (parameter : String) : AttributeDefinition := ofKind parameter .string

def boolean (parameter : String) : AttributeDefinition := ofKind parameter .boolean

def int (parameter : String) : AttributeDefinition := ofKind parameter .int

def list (parameter : String) : AttributeDefinition := ofKind parameter .list

def enumerated (parameter : String) (allowed : List String) : AttributeDefinition :=
  ofKind parameter (.enumerated allowed)

def withMin (d : AttributeDefinition) (min : Int) : AttributeDefinition := { d with min := some min }

/-- The definition without expressions. -/
def literal (d : AttributeDefinition) : AttributeDefinition := { d with acceptsExpression := false }

/-- The items of a list, each an expression or a string. -/
def splitItems (raw : String) : List Value :=
  (Text.words raw).map fun item => if isExpression item then .expression item else .string item

/-- Whether two texts differ at most in the case of ASCII letters. -/
def sameIgnoringCase (a b : String) : Bool :=
  a.toList.map Char.toLower == b.toList.map Char.toLower

/-- The number in a text, with white space around it, if it lies between the bounds. -/
def readNumber? (low high : Int) (raw : String) : Option Int :=
  match Text.signedDecimal? (Text.trim Text.isWhiteSpace raw.toList) with
  | some n => if low ≤ n ∧ n ≤ high then some n else none
  | none => none

/-- The reason why a number is refused, if it is. -/
def belowMin? (d : AttributeDefinition) (n : Int) : Option String :=
  match d.min with
  | some min => if n < min then some s!"must be at least {min}" else none
  | none => none

/-- The value of an attribute with the given text. -/
def parse (d : AttributeDefinition) (raw : String) (attr : AttributeName) (position : Position) :
    Except CompilationError Value :=
  let refuse (reason : String) (allowed : List String) : Except CompilationError Value :=
    .error (.invalidValue attr.localName raw reason allowed position)
  let number (n : Int) (value : Value) : Except CompilationError Value :=
    match d.belowMin? n with
    | some reason => refuse reason []
    | none => .ok value
  if d.acceptsExpression && isExpression raw then .ok (.expression raw)
  else
    match d.kind with
    | .string => .ok (.string raw)
    | .list => .ok (.list (splitItems raw))
    | .boolean =>
      if sameIgnoringCase raw "true" then .ok (.boolean true)
      else if sameIgnoringCase raw "false" then .ok (.boolean false)
      else refuse "expected a boolean" ["true", "false"]
    | .int =>
      match readNumber? (-2147483648) 2147483647 raw with
      | some n => number n (.int n)
      | none => refuse "expected an integer" []
    | .long =>
      match readNumber? (-9223372036854775808) 9223372036854775807 raw with
      | some n => number n (.long n)
      | none => refuse "expected a long integer" []
    | .enumerated allowed =>
      if allowed.contains raw then .ok (.string raw)
      else refuse s!"expected one of {CompilationError.joined allowed}" allowed

/-- Appends items to a list parameter. The item that makes the list too long is still appended. -/
def storeItems (parameter : String) (ps : Parameters) :
    List Value → Except CompilationError Unit × Parameters
  | [] => (.ok (), ps)
  | item :: items =>
    match ps.addToList parameter item with
    | (ps, length) =>
      if Limits.listItems < length then
        (.error (.limitExceeded s!"'{parameter}' list" Limits.listItems), ps)
      else storeItems parameter ps items

/-- Reads the text of an attribute and stores its value; the items of a list are appended one by one.
The parameters are given after a failure too. -/
def store (d : AttributeDefinition) (raw : String) (attr : AttributeName) (ps : Parameters)
    (position : Position) : Except CompilationError Unit × Parameters :=
  match d.kind with
  | .list => storeItems d.parameter ps (splitItems raw)
  | _ =>
    match d.parse raw attr position with
    | .ok value => (.ok (), ps.set d.parameter value)
    | .error e => (.error e, ps)

end AttributeDefinition

end ManagementScript
