import ManagementScript.Run.Error
import ManagementScript.Run.Options
import ManagementScript.Compilation.Management

/-!
The sections of a document. The root is the management element itself, or the element of a server, a
host or a domain, whose children are sections: the management element among them is compiled, and the
others are skipped. Nothing behind the end of the root is read.
-/

namespace ManagementScript

/-- A compilation of a whole document. -/
abbrev DocumentCompilation (α : Type) := ExceptT RunError (StateM (CompilationState Unit)) α

namespace DocumentCompilation

/-- Moves the cursor. -/
def move (step : Cursor → Cursor.Moved α) : DocumentCompilation α := fun s =>
  match step s.cursor with
  | (.ok a, cursor) => (.ok a, { s with cursor })
  | (.error e, cursor) => (.error (.reading e), { s with cursor })

def getCursor : DocumentCompilation Cursor := return (← get).cursor

/-- Part of a compilation, whose errors are those of the document. -/
def ofCompilation (t : Compilation Unit α) : DocumentCompilation α := ExceptT.adapt .compilation t

/-- Compiles the management element that the cursor is on. -/
def management (grammar : GrammarNamespace) (o : RunOptions) : DocumentCompilation Unit :=
  ofCompilation
    (Compilation.management grammar Delegate.declining o.base o.compilation.requireNativeInterface)

/-- Whether the cursor is on a management element of the grammar. -/
def atManagement (grammar : GrammarNamespace) (cursor : Cursor) : Bool :=
  cursor.localName == ElementName.management.localName && cursor.namespaceUri == some grammar.uri

/-- Compiles the section that the cursor is on or skips it; `found` says whether there was a
management element before, and the result whether there is one now. -/
def readSection (grammar : GrammarNamespace) (o : RunOptions) (found : Bool) :
    DocumentCompilation Bool := do
  let cursor ← getCursor
  if atManagement grammar cursor then
    if found then
      throw (.compilation (.duplicateElement ElementName.management.localName cursor.position))
    management grammar o
    return true
  else
    move Cursor.skipElement
    return found

/-- Reads the sections up to the end tag of the root. Each of them takes at least one of the events in
`pending`, those that are not read at the beginning. -/
def sectionsAmong (grammar : GrammarNamespace) (o : RunOptions) (found : Bool) :
    (pending : List Xml.Event) → DocumentCompilation Bool
  | [] => do
    discard (move Cursor.next)
    return found
  | _ :: pending => do
    match ← move Cursor.next with
    | .start =>
      let found ← readSection grammar o found
      sectionsAmong grammar o found pending
    | .finish | .endOfDocument => return found

/-- The grammar of the document whose root the cursor is on. -/
def requireGrammar : DocumentCompilation GrammarNamespace := do
  let uri := (← getCursor).namespaceUri
  match uri.bind GrammarNamespace.ofUri? with
  | some grammar => return grammar
  | none => throw (.unsupportedNamespace uri)

/-- Compiles the root element that the cursor is on. -/
def readRoot (grammar : GrammarNamespace) (o : RunOptions) : DocumentCompilation Unit := do
  let cursor ← getCursor
  let root := ElementName.ofString cursor.localName
  if root == .management then management grammar o
  else if root.isDocumentRoot then
    let found ← sectionsAmong grammar o false cursor.pending
    if !found then throw (.missingManagement cursor.localName)
  else throw (.missingManagement cursor.localName)

/-- Compiles a document from its beginning, and gives the grammar that it is written in. -/
def document (o : RunOptions) : DocumentCompilation GrammarNamespace := do
  match ← move Cursor.next with
  | .start =>
    let grammar ← requireGrammar
    ofCompilation <| Compilation.emit <| (LogEvent.debug "Document root located").withFacts
      [("root", (← getCursor).localName), ("namespace", grammar.uri)]
    readRoot grammar o
    return grammar
  | .finish | .endOfDocument => throw (.missingManagement "none")

end DocumentCompilation

end ManagementScript
