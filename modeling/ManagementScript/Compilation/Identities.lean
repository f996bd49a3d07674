import ManagementScript.Schema.Catalogue
import ManagementScript.Compilation.Basic

/-! The identities of a server: its secret, its keys and its principals. -/

namespace ManagementScript.Compilation

variable {δ : Type}

/-- An element without content, whose attributes become parameters of its owner. -/
def partOf (construct : Construct) (ps : Parameters) : Compilation δ Parameters := do
  let ps ← readParameters construct ps
  requireNoContent
  return ps

/-- The command of an encrypted connection carries the parameters of its parts, so it is complete
only at its end. -/
def ssl (grammar : GrammarNamespace) (realm : Address) : Compilation δ Unit := do
  let ps ← readParameters .ssl .empty
  let (_, ps) ← forChildren grammar (ElementSet.empty, ps) fun (seen, ps) element => do
    match element with
    | .engine =>
      let seen ← once seen element
      return (seen, ← partOf .engine ps)
    | .keystore =>
      let seen ← once seen element
      return (seen, ← partOf (.keyMaterial true) ps)
    | _ => unexpectedElement
  push ⟨realm.append "server-identity" "ssl", ps⟩

def keytab (kerberos : Address) : Compilation δ Unit := do
  let (principal, ps) ← readNamed .keytab
  requireNoContent
  push ⟨kerberos.append "keytab" principal, ps⟩

/-- The principals of a server. Two of them may have one name. -/
def kerberosIdentity (grammar : GrammarNamespace) (realm : Address) : Compilation δ Unit := do
  requireNoAttributes
  let address := realm.append "server-identity" "kerberos"
  push (.add address)
  forChildren grammar () fun _ element =>
    match element with
    | .keytab => keytab address
    | _ => unexpectedElement

def serverIdentities (grammar : GrammarNamespace) (realm : Address) : Compilation δ Unit := do
  requireNoAttributes
  discard <| forChildren grammar ElementSet.empty fun seen element => do
    match element with
    | .secret =>
      let seen ← once seen element
      leaf .secret (realm.append "server-identity" "secret")
      return seen
    | .ssl =>
      let seen ← once seen element
      ssl grammar realm
      return seen
    | .kerberos =>
      let seen ← once seen element
      kerberosIdentity grammar realm
      return seen
    | _ => unexpectedElement

end ManagementScript.Compilation
