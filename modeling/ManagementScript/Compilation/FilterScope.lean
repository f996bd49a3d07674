import ManagementScript.Schema.Catalogue
import ManagementScript.Compilation.Basic

/-!
Scopes that hold one filter, with a cache before it or not. The command of such a scope is complete
only with its filter, while the cache comes first; the cache is therefore held back with an address
below an owner that is not known yet.
-/

namespace ManagementScript

/-- What was seen in a scope. -/
structure FilterScope where
  cache : Option PendingCommand
  filter : Option ElementName

namespace FilterScope

def empty : FilterScope := ⟨none, none⟩

end FilterScope

namespace Compilation

variable {δ : Type}

/-- A cache is addressed by its kind below what it caches for. -/
def cache : Compilation δ PendingCommand := do
  let reading ← readInto .cache .empty
  requireNoContent
  return ⟨Address.root.append "cache" (reading.identifier.getD "by-search-time"), reading.parameters⟩

/-- Takes the next child of a scope. Nothing may follow the filter; before it there may be one cache,
which is read here. Tells whether the child is the filter. -/
def acceptInScope (alternatives : List ElementName) (scope : FilterScope) (element : ElementName) :
    Compilation δ (FilterScope × Bool) := do
  let position ← location
  if scope.filter.isSome then
    if alternatives.contains element then
      throw (.exclusiveViolation element.localName (alternatives.map (·.localName)) position)
    else unexpectedElement
  else if alternatives.contains element then
    return ({ scope with filter := some element }, true)
  else if element == .cache then
    if scope.cache.isSome then throw (.duplicateElement element.localName position)
    else return ({ scope with cache := some (← cache) }, false)
  else unexpectedElement

/-- Reads a scope with one of the alternatives, whose attributes and children become parameters of
the owner. Gives the filter and the cache. -/
def filterScope (grammar : GrammarNamespace) (alternatives : List ElementName) (ps : Parameters)
    (readFilter : Parameters → ElementName → Compilation δ Parameters) :
    Compilation δ (ElementName × Option PendingCommand × Parameters) := do
  let (scope, ps) ← forChildren grammar (FilterScope.empty, ps) fun (scope, ps) element => do
    let (scope, isFilter) ← acceptInScope alternatives scope element
    if isFilter then return (scope, ← readFilter ps element) else return (scope, ps)
  match scope.filter with
  | some filter => return (filter, scope.cache, ps)
  | none => throw (.missingOneOf (alternatives.map (·.localName)) (← location))

/-- Adds the command of a scope and behind it the one of its cache. -/
def pushWithCache (owner : Command) (cache : Option PendingCommand) : Compilation δ Unit := do
  push owner
  match cache with
  | some cache => push (cache.resolve owner.address)
  | none => return ()

end Compilation

end ManagementScript
