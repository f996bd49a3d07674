import ManagementScript.Cursor.Basic
import ManagementScript.Diagnostics.LogEvent
import ManagementScript.Grammar.Namespace
import ManagementScript.Schema.Cardinality
import ManagementScript.Schema.Construct

/-!
Compilations: computations that move a cursor through a document, add commands to a script and emit
events of the log. The state outlives an error, so that the events before it are known and a caller
can put its own script back.

`δ` is the state of whoever handles parts of a document in place of the built-in compilation.
-/

namespace ManagementScript

/-- What a compilation works on. -/
structure CompilationState (δ : Type) where
  cursor : Cursor
  script : Script
  delegate : δ
  /-- The events emitted so far, in order. -/
  events : Array LogEvent

/-- A computation that ends with a result or an error, in either case with a state. -/
abbrev Compilation (δ α : Type) := ExceptT CompilationError (StateM (CompilationState δ)) α

namespace Compilation

variable {δ α σ : Type}

/-- The state a compilation of a document begins with. -/
def start (source : String) (delegate : δ) : CompilationState δ :=
  ⟨.ofString source, .empty, delegate, #[]⟩

/-! ### Moving and emitting -/

/-- Moves the cursor. -/
def move (step : Cursor → Cursor.Moved α) : Compilation δ α := fun s =>
  match step s.cursor with
  | (.ok a, cursor) => (.ok a, { s with cursor })
  | (.error e, cursor) => (.error (.ofRead e), { s with cursor })

def getCursor : Compilation δ Cursor := return (← get).cursor

/-- Where the tag begins that the cursor is on. -/
def location : Compilation δ Position := return (← getCursor).position

/-- The result of a check that has no effect of its own. -/
def check (result : Except CompilationError α) : Compilation δ α := fun s => (result, s)

/-- Adds a command to the script. -/
def push (command : Command) : Compilation δ Unit := fun ⟨cursor, script, delegate, events⟩ =>
  match script.push command with
  | .ok script => (.ok (), ⟨cursor, script, delegate, events⟩)
  | .error e => (.error (.ofCapacity e), ⟨cursor, script, delegate, events⟩)

/-- Adds the commands of another script, or none. -/
def extend (commands : Script) : Compilation δ Unit := fun ⟨cursor, script, delegate, events⟩ =>
  match script.extend commands with
  | .ok script => (.ok (), ⟨cursor, script, delegate, events⟩)
  | .error e => (.error (.ofCapacity e), ⟨cursor, script, delegate, events⟩)

/-- Runs a compilation on an empty script of its own, which is given together with its result. The
script outside stays as it is, after an error too. -/
def isolated (inner : Compilation δ α) : Compilation δ (α × Script) :=
  fun ⟨cursor, outer, delegate, events⟩ =>
    match inner ⟨cursor, .empty, delegate, events⟩ with
    | (.ok a, ⟨cursor, script, delegate, events⟩) =>
      (.ok (a, script), ⟨cursor, outer, delegate, events⟩)
    | (.error e, ⟨cursor, _, delegate, events⟩) => (.error e, ⟨cursor, outer, delegate, events⟩)

def emit (event : LogEvent) : Compilation δ Unit := fun ⟨cursor, script, delegate, events⟩ =>
  (.ok (), ⟨cursor, script, delegate, events.push event⟩)

/-- Emits a success with facts about it. -/
def succeed (code : Code) (message : String) (facts : List (String × String)) :
    Compilation δ Unit :=
  emit ((LogEvent.success code message).withFacts facts)

/-! ### Elements -/

/-- Fails on the element the cursor is on. -/
def unexpectedElement : Compilation δ α := do
  let cursor ← getCursor
  throw (.unexpectedElement cursor.localName cursor.position)

/-- The element the cursor is on has to be in the namespace of the grammar. -/
def requireNamespace (grammar : GrammarNamespace) : Compilation δ Unit := do
  let cursor ← getCursor
  if cursor.namespaceUri == some grammar.uri then pure ()
  else
    throw (.unexpectedNamespace cursor.localName (cursor.namespaceUri.getD "") grammar.uri
      cursor.position)

/-- Moves to the next tag, which has to be there. -/
def nextInside : Compilation δ Tag := do
  match ← move Cursor.next with
  | .endOfDocument =>
    let cursor ← getCursor
    throw (.ofRead (.unexpectedEnd cursor.localName cursor.position))
  | tag => return tag

/-- Moves to the next child of the current element, or to its end tag. A child in another namespace
is refused before its name is looked at. -/
def nextElement (grammar : GrammarNamespace) : Compilation δ (Option ElementName) := do
  match ← nextInside with
  | .start =>
    requireNamespace grammar
    return some (.ofString (← getCursor).localName)
  | _ => return none

/-- Visits the children of the current element. Each of them takes at least one of the events in
`pending`, those that are not read when the visit begins; where none is left the next move fails. -/
def visitAmong (grammar : GrammarNamespace) (visit : σ → ElementName → Compilation δ σ) (seen : σ) :
    (pending : List Xml.Event) → Compilation δ σ
  | [] => do
    discard (nextElement grammar)
    return seen
  | _ :: pending => do
    match ← nextElement grammar with
    | none => return seen
    | some element =>
      let seen ← visit seen element
      visitAmong grammar visit seen pending

/-- Visits the children of the current element in order up to its end tag. Each visit begins on the
start tag of a child, ends on its end tag and gives what the next one has to know. -/
def forChildren (grammar : GrammarNamespace) (seen : σ)
    (visit : σ → ElementName → Compilation δ σ) : Compilation δ σ := do
  visitAmong grammar visit seen (← getCursor).pending

/-- Moves to the end tag of the current element, which may not have children. -/
def requireNoContent : Compilation δ Unit := do
  match ← nextInside with
  | .start => unexpectedElement
  | _ => return ()

/-! ### Attributes -/

/-- The attributes of the current start tag by their names in the grammar. An attribute that has a
namespace or is not in the vocabulary is refused. -/
def attributes : Compilation δ (List (AttributeName × String)) := do
  let cursor ← getCursor
  cursor.attributes.mapM fun a => do
    let attr := AttributeName.ofString a.localName
    if a.namespaceUri.isSome || attr == .unknown then
      throw (.unexpectedAttribute a.localName cursor.localName cursor.position)
    else return (attr, a.value)

def requireNoAttributes : Compilation δ Unit := do
  let cursor ← getCursor
  match cursor.attributes with
  | [] => return ()
  | a :: _ => throw (.unexpectedAttribute a.localName cursor.localName cursor.position)

/-- Reads the attributes of the current start tag on top of the parameters there are. -/
def readInto (construct : Construct) (ps : Parameters) : Compilation δ Construct.Reading := do
  let cursor ← getCursor
  check (construct.read cursor.localName cursor.position ps (← attributes))

/-- The parameters that the attributes of the current start tag become. -/
def readParameters (construct : Construct) (ps : Parameters) : Compilation δ Parameters :=
  return (← readInto construct ps).parameters

/-- The text that names the resource of the current start tag, and its parameters. -/
def readNamed (construct : Construct) : Compilation δ (String × Parameters) := do
  let reading ← readInto construct .empty
  return (reading.identifier.getD "", reading.parameters)

/-- An element without content, whose attributes become the parameters of a command. -/
def leaf (construct : Construct) (address : Address) : Compilation δ Unit := do
  let ps ← readParameters construct .empty
  requireNoContent
  push ⟨address, ps⟩

/-- Records a child that may occur once. -/
def once (seen : ElementSet) (element : ElementName) : Compilation δ ElementSet := do
  check (seen.requireOnce element (← location))

/-- Records one of several children that exclude each other. -/
def exclusive (seen : ElementSet) (element : ElementName) (group : List ElementName) :
    Compilation δ ElementSet := do
  check (seen.requireExclusive element group (← location))

end Compilation

end ManagementScript
