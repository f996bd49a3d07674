import ManagementScript.Schema.Definition
import ManagementScript.Schema.Required

/-!
Constructs: the attributes that a start tag may carry, what each of them becomes, and which of them
must be there.
-/

namespace ManagementScript

/-- The attributes of a kind of start tag. -/
structure Construct where
  /-- The attribute that names the resource, with what it accepts. -/
  identifier : Option (AttributeName × AttributeDefinition)
  /-- The attributes that become parameters. -/
  parameters : List (AttributeName × AttributeDefinition)
  /-- The attributes that must be there, in the order in which missing ones are reported. -/
  required : List AttributeName
deriving Repr

namespace Construct

/-- A construct whose attributes all become parameters. -/
def ofParameters (parameters : List (AttributeName × AttributeDefinition))
    (required : List AttributeName) : Construct := ⟨none, parameters, required⟩

/-- A construct with an attribute that names the resource. -/
def named (attr : AttributeName) (parameters : List (AttributeName × AttributeDefinition))
    (required : List AttributeName) : Construct :=
  ⟨some (attr, .string attr.localName), parameters, required⟩

/-- A construct with no other attribute than the one that names the resource. -/
def only (attr : AttributeName) : Construct := named attr [] [attr]

/-- What was read of the attributes of a start tag. -/
structure Reading where
  identifier : Option String
  parameters : Parameters
  required : RequiredAttributes

/-- Reads one attribute of the element `element`. -/
def readOne (c : Construct) (element : String) (position : Position) (r : Reading)
    (attr : AttributeName) (raw : String) : Except CompilationError Reading :=
  let r := { r with required := r.required.see attr }
  match c.identifier with
  | some (identifier, d) =>
    if attr == identifier then do
      let value ← d.parse raw attr position
      return { r with identifier := value.text? }
    else parameter r
  | none => parameter r
where
  parameter (r : Reading) : Except CompilationError Reading :=
    match c.parameters.lookup attr with
    | none => .error (.unexpectedAttribute attr.localName element position)
    | some d =>
      match d.store raw attr r.parameters position with
      | (.ok (), ps) => .ok { r with parameters := ps }
      | (.error e, _) => .error e

/-- Reads the attributes of the element `element` in order, on top of the parameters there are. The
first attribute that is refused decides, and then the ones that are missing. -/
def read (c : Construct) (element : String) (position : Position) (ps : Parameters)
    (attrs : List (AttributeName × String)) : Except CompilationError Reading := do
  let r ← attrs.foldlM (fun r (attr, raw) => c.readOne element position r attr raw)
    ⟨none, ps, ⟨c.required⟩⟩
  r.required.finish element position
  return r

end Construct

end ManagementScript
