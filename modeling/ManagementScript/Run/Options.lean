import ManagementScript.Command.Address
import ManagementScript.Settings.Preferences

/-! What a run over a document is asked to do. -/

namespace ManagementScript

structure RunOptions where
  compilation : CompilationPreferences
  document : DocumentPreferences
deriving DecidableEq, Repr

namespace RunOptions

def ofPreferences (p : Preferences) : RunOptions := ⟨p.compilation, p.document⟩

/-- The options for addresses below the given host. -/
def withHost (o : RunOptions) (host : String) : RunOptions :=
  { o with compilation := { o.compilation with hostName := some host } }

/-- The options under which the management element has to have management interfaces. -/
def requiringNativeInterface (o : RunOptions) : RunOptions :=
  { o with compilation := { o.compilation with requireNativeInterface := true } }

/-- The address that all commands are below. -/
def base (o : RunOptions) : Address :=
  match o.compilation.hostName with
  | some host => Address.root.append "host" host
  | none => .root

end RunOptions

end ManagementScript
