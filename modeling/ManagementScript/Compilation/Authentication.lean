import ManagementScript.Compilation.Directory
import ManagementScript.Compilation.Properties

/-! How the users of a realm are authenticated. -/

namespace ManagementScript.Compilation

variable {δ : Type}

/-- The sources of names and passwords. A realm has at most one of them. -/
def passwordSources : List ElementName := [.jaas, .ldap, .properties, .users, .plugIn]

/-- A plug-in as a source: its command, then those of its properties. -/
def plugInSource (grammar : GrammarNamespace) (address : Address) (withMechanism : Bool) :
    Compilation δ Unit := do
  let ps ← readParameters (.plugInSource withMechanism) .empty
  push ⟨address, ps⟩
  onlyProperties grammar address false

/-- The password of a user is the trimmed text of the only child. -/
def password (grammar : GrammarNamespace) : Compilation δ String := do
  let password ← forChildren grammar none fun password element => do
    match element with
    | .password =>
      if password.isSome then throw (.duplicateElement element.localName (← location))
      requireNoAttributes
      return some (Text.trimmed (← move Cursor.elementText))
    | _ => unexpectedElement
  match password with
  | some password =>
    if password.isEmpty then throw (.missingElement [ElementName.password.localName] (← location))
    else return password
  | none => throw (.missingElement [ElementName.password.localName] (← location))

def user (grammar : GrammarNamespace) (users : Address) (names : NameSet) :
    Compilation δ NameSet := do
  let position ← location
  let (name, _) ← readNamed .user
  let names ← check (names.reserve .user name position)
  let password ← password grammar
  let value := if isExpression password then Value.expression password else .string password
  push ⟨users.append "user" name, Dictionary.empty.set "password" value⟩
  return names

def users (grammar : GrammarNamespace) (realm : Address) : Compilation δ Unit := do
  requireNoAttributes
  let address := realm.append "authentication" "users"
  push (.add address)
  discard <| forChildren grammar NameSet.empty fun names element =>
    match element with
    | .user => user grammar address names
    | _ => unexpectedElement

/-- What becomes of one source of authentication. -/
def authenticationSource (grammar : GrammarNamespace) (realm : Address) (element : ElementName) :
    Compilation δ Unit :=
  let address := realm.append "authentication" element.localName
  match element with
  | .truststore => leaf (.keyMaterial false) address
  | .localMechanism => leaf .localMechanism address
  | .kerberos => leaf .kerberos address
  | .jaas => leaf .jaas address
  | .ldap => ldapAuthentication grammar realm
  | .properties => leaf (.propertiesFile true) address
  | .users => users grammar realm
  | .plugIn => plugInSource grammar address true
  | _ => unexpectedElement

/-- The authentication of a realm. A trust store, the local mechanism and Kerberos may stand beside a
source of passwords. -/
def authentication (grammar : GrammarNamespace) (realm : Address) : Compilation δ Unit := do
  requireNoAttributes
  discard <| forChildren grammar ElementSet.empty fun seen element => do
    match element with
    | .truststore | .localMechanism | .kerberos =>
      let seen ← once seen element
      authenticationSource grammar realm element
      return seen
    | .jaas | .ldap | .properties | .users | .plugIn =>
      let seen ← exclusive seen element passwordSources
      authenticationSource grammar realm element
      return seen
    | _ => unexpectedElement

end ManagementScript.Compilation
