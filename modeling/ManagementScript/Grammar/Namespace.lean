/-! The versions of the management grammar, each with a namespace of its own. -/

namespace ManagementScript

/-- A namespace of the management grammar. -/
inductive GrammarNamespace where
  | domain40
  | domain41
  | domain42
deriving DecidableEq, Repr

namespace GrammarNamespace

def uri : GrammarNamespace → String
  | domain40 => "urn:jboss:domain:4.0"
  | domain41 => "urn:jboss:domain:4.1"
  | domain42 => "urn:jboss:domain:4.2"

/-- Major and minor number of the grammar. -/
def version : GrammarNamespace → Nat × Nat
  | domain40 => (4, 0)
  | domain41 => (4, 1)
  | domain42 => (4, 2)

def all : List GrammarNamespace := [domain40, domain41, domain42]

def ofUri? (uri : String) : Option GrammarNamespace := all.find? (·.uri == uri)

instance : ToString GrammarNamespace := ⟨uri⟩

theorem ofUri?_uri (grammar : GrammarNamespace) : ofUri? grammar.uri = some grammar := by
  cases grammar <;> decide +kernel

end GrammarNamespace

end ManagementScript
