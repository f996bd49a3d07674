import ManagementScript.Compilation.Basic

/-! Parts of a management element that others may compile. -/

namespace ManagementScript

/-- The parts of a management element that are offered to a delegate. -/
inductive Category where
  | securityRealms
  | outboundConnections
  | managementInterfaces
  | auditLog
  | accessControl
deriving DecidableEq, Repr

namespace Category

def element : Category → ElementName
  | securityRealms => .securityRealms
  | outboundConnections => .outboundConnections
  | managementInterfaces => .managementInterfaces
  | auditLog => .auditLog
  | accessControl => .accessControl

end Category

/-- Whoever is offered parts of a management element before the built-in compilation. An offer is made
on the start tag of the part, with the address of the management resource. A delegate that takes it
moves to the end tag and adds its commands; one that declines does not move. -/
structure Delegate (δ : Type) where
  offer : Category → Address → Compilation δ Bool

namespace Delegate

/-- Declines every offer. -/
def declining : Delegate Unit := ⟨fun _ _ => return false⟩

end Delegate

end ManagementScript
