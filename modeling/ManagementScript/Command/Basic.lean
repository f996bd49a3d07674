import ManagementScript.Command.Address
import ManagementScript.Command.Parameters

/-! Commands that add a resource to the management tree. -/

namespace ManagementScript

/-- The command that adds the resource at an address with its parameters. -/
structure Command where
  address : Address
  parameters : Parameters
deriving Repr

namespace Command

/-- The name of the operation that every command performs. -/
def operationName : String := "add"

def add (address : Address) : Command := ⟨address, .empty⟩

/-- The key of the last step of the address. -/
def kind (c : Command) : String := (c.address.last?.map (·.key)).getD "root"

/-- The command with the address seen from the owner of its first step. -/
def prefixedBy (c : Command) (owner : Address) : Command :=
  { c with address := c.address.prefixedBy owner }

/-- Writes the parameters behind `out`. -/
def writeParameters (out : String) (first : Bool) : List (String × Value) → String
  | [] => out
  | (name, value) :: entries =>
    let out := if first then out else out ++ ", "
    writeParameters (value.write ((out ++ name).push '=')) false entries

protected def toString (c : Command) : String :=
  let head := s!"{c.address}:{operationName}"
  if c.parameters.isEmpty then head
  else (writeParameters (head.push '(') true c.parameters.entries).push ')'

instance : ToString Command := ⟨Command.toString⟩

/-- The operation and the address come first, the parameters in the order of their names. -/
def toJson (c : Command) : Json :=
  .object (("operation", .string operationName) :: ("address", c.address.toJson) ::
    c.parameters.entries.map fun (name, value) => (name, value.toJson))

end Command

/-- A command with an address that starts below an owner which is not known yet. -/
structure PendingCommand where
  relative : Address
  parameters : Parameters
deriving Repr

namespace PendingCommand

def add (relative : Address) : PendingCommand := ⟨relative, .empty⟩

/-- The command below its owner. -/
def resolve (c : PendingCommand) (owner : Address) : Command :=
  ⟨c.relative.prefixedBy owner, c.parameters⟩

end PendingCommand

end ManagementScript
