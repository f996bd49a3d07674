import ManagementScript.Text.Json

/-! The values of command parameters, the texts they are shown by and their JSON form. -/

namespace ManagementScript

/-- The value of a parameter. -/
inductive Value where
  | string (text : String)
  | boolean (value : Bool)
  | int (value : Int)
  | long (value : Int)
  | list (items : List Value)
  /-- A text that the executor of the command still evaluates. -/
  | expression (text : String)
deriving Repr

namespace Value

/-- The text of a string or an expression. -/
def text? : Value → Option String
  | string text | expression text => some text
  | _ => none

def items? : Value → Option (List Value)
  | list items => some items
  | _ => none

mutual

/-- Writes a value behind `out`. -/
def write (out : String) : Value → String
  | .string text => (out.push '"' ++ text).push '"'
  | .boolean value => out ++ if value then "true" else "false"
  | .int value => out ++ toString value
  | .long value => (out ++ toString value).push 'L'
  | .expression text => (out ++ "expression \"" ++ text).push '"'
  | .list items => (writeItems (out.push '[') true items).push ']'

def writeItems (out : String) (first : Bool) : List Value → String
  | [] => out
  | item :: items => writeItems (write (if first then out else out ++ ", ") item) false items

end

protected def toString (value : Value) : String := value.write ""

instance : ToString Value := ⟨Value.toString⟩

mutual

/-- Strings, booleans, numbers and lists are those of JSON; an expression is an object. -/
def toJson : Value → Json
  | .string text => .string text
  | .boolean value => .boolean value
  | .int value | .long value => .number value
  | .expression text => .object [("EXPRESSION_VALUE", .string text)]
  | .list items => .array (itemsToJson items)

def itemsToJson : List Value → List Json
  | [] => []
  | item :: items => toJson item :: itemsToJson items

end

end Value

end ManagementScript
