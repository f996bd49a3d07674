import ManagementScript.Cursor.Error
import ManagementScript.Limits
import ManagementScript.Xml.Event
import ManagementScript.Xml.Reference

/-!
A cursor that moves from tag to tag through a document. It tells the name, the namespace and the
attributes of the tag it is on, reads the text of an element and skips elements. Each move gives the
cursor after it together with its result, so that the cursor is known after a failed move too.
-/

namespace ManagementScript

/-- The kind of tag a cursor is on. -/
inductive Tag where
  | start
  | finish
  | endOfDocument
deriving DecidableEq, Repr

/-- An attribute of a start tag, with its references resolved. -/
structure Attribute where
  namespaceUri : Option String
  localName : String
  value : String
deriving DecidableEq, Repr

/-- A place in a document, on a tag or before the first one. -/
structure Cursor where
  /-- What is not read yet. -/
  pending : List Xml.Event
  /-- The local names of the open elements, the innermost first. -/
  opened : List String
  localName : String
  namespaceUri : Option String
  /-- The attributes of the start tag the cursor is on, declarations of namespaces left out. -/
  attributes : List Attribute
  /-- Where the tag begins that the cursor is on. -/
  position : Position
  lines : LineIndex

namespace Cursor

/-- A cursor before the first tag of a document. -/
def ofString (source : String) : Cursor where
  pending := Xml.events source
  opened := []
  localName := ""
  namespaceUri := none
  attributes := []
  position := .unread
  lines := .ofString source

/-- The number of open elements. -/
def depth (cursor : Cursor) : Nat := cursor.opened.length

def endOfInput (cursor : Cursor) : Position := cursor.lines.finish

/-- The error that the document ends in the middle of an element. -/
def unexpectedEnd (cursor : Cursor) : ReadError :=
  .unexpectedEnd (cursor.opened.headD cursor.localName) cursor.endOfInput

/-- The namespace of a name, if its prefix is declared. -/
def namespaceOf (position : Position) (name : Xml.ResolvedName) :
    Except ReadError (Option String) :=
  name.namespaceUri.mapError fun label =>
    .malformed s!"unknown namespace prefix '{String.ofList label}'" position

/-- The attribute that is written as `a`. -/
def readAttribute (position : Position) (scope : Xml.Scope) (a : Xml.RawAttribute) :
    Except ReadError Attribute := do
  let name := scope.resolveAttribute a.name
  let uri ← namespaceOf position name
  match Xml.resolveReferences a.value with
  | .error defect => .error (.malformed defect.message position)
  | .ok value => .ok ⟨uri, name.localName, value⟩

/-- The attributes of a start tag without the declarations of namespaces. The first attribute that
cannot be read decides. -/
def readAttributes (position : Position) (tag : Xml.TagText) (scope : Xml.Scope) :
    Except ReadError (List Attribute) := do
  let (written, stop) := tag.attributes true
  let attributes ← (written.filter (!·.isDeclaration)).mapM (readAttribute position scope)
  match stop with
  | some defect => .error (.malformed defect.message position)
  | none => .ok attributes

/-- Moves onto a start tag. -/
def openElement (cursor : Cursor) (offset : Nat) (name : Xml.ResolvedName) (tag : Xml.TagText)
    (scope : Xml.Scope) : Except ReadError Cursor := do
  let position := cursor.lines.positionAt offset
  let uri ← namespaceOf position name
  if Limits.openElements < cursor.depth + 1 then
    .error (.nestingTooDeep (cursor.depth + 1) Limits.openElements position)
  else
    let attributes ← readAttributes position tag scope
    if Limits.attributes < attributes.length then
      .error (.tooManyAttributes name.localName attributes.length Limits.attributes position)
    else
      .ok { cursor with
        opened := name.localName :: cursor.opened
        localName := name.localName
        namespaceUri := uri
        attributes := attributes
        position := position }

/-- Moves onto an end tag. -/
def closeElement (cursor : Cursor) (offset : Nat) (name : Xml.ResolvedName) :
    Except ReadError Cursor := do
  let position := cursor.lines.positionAt offset
  let uri ← namespaceOf position name
  .ok { cursor with
    opened := cursor.opened.tail
    localName := name.localName
    namespaceUri := uri
    attributes := []
    position := position }

/-- A result together with the cursor it leaves behind. -/
abbrev Moved (α : Type) := Except ReadError α × Cursor

/-- The outcome of a move onto a tag; a failed move leaves the cursor where it was. -/
def settle (cursor : Cursor) (result : α) : Except ReadError Cursor → Moved α
  | .ok moved => (.ok result, moved)
  | .error e => (.error e, cursor)

/-- The error that content stands where only tags may. -/
def stray? (cursor : Cursor) (offset : Nat) (content : String) : Option ReadError :=
  let shown := Text.trimmed content
  if shown.isEmpty then none else some (.stray shown (cursor.lines.positionAt offset))

/-- The error of broken markup. -/
def broken (cursor : Cursor) (offset : Nat) (defect : Xml.Defect) : ReadError :=
  .malformed defect.message (cursor.lines.positionAt offset)

/-- The character data that is written as `raw`. -/
def readText (cursor : Cursor) (offset : Nat) (raw : List Char) : Except ReadError String :=
  (Xml.resolveReferences raw).mapError fun defect =>
    .malformed defect.message (cursor.lines.positionAt offset)

/-- Moves to the next tag among `events`, the events that `cursor` has not read. -/
def nextAmong (cursor : Cursor) : List Xml.Event → Moved Tag
  | [] =>
    let cursor := { cursor with pending := [] }
    if cursor.opened.isEmpty then (.ok .endOfDocument, cursor) else (.error cursor.unexpectedEnd, cursor)
  | event :: events =>
    match event with
    | .start offset name tag scope =>
      let cursor := { cursor with pending := events }
      cursor.settle .start (cursor.openElement offset name tag scope)
    | .finish offset name =>
      let cursor := { cursor with pending := events }
      cursor.settle .finish (cursor.closeElement offset name)
    | .text offset raw =>
      match cursor.readText offset raw with
      | .error e => (.error e, { cursor with pending := events })
      | .ok content =>
        match cursor.stray? offset content with
        | some e => (.error e, { cursor with pending := events })
        | none => cursor.nextAmong events
    | .cdata offset content =>
      match cursor.stray? offset (String.ofList content) with
      | some e => (.error e, { cursor with pending := events })
      | none => cursor.nextAmong events
    | .fault offset defect => (.error (cursor.broken offset defect), { cursor with pending := events })

/-- Moves to the next tag. Text between tags is refused unless it is white space. -/
def next (cursor : Cursor) : Moved Tag := cursor.nextAmong cursor.pending

/-- Reads the text of the current element from `events` behind what was read of it already. -/
def textAmong (cursor : Cursor) (text : String) : List Xml.Event → Moved String
  | [] =>
    let cursor := { cursor with pending := [] }
    (.error cursor.unexpectedEnd, cursor)
  | event :: events =>
    match event with
    | .start offset name _ _ =>
      (.error (.stray s!"<{name.localName}>" (cursor.lines.positionAt offset)),
        { cursor with pending := events })
    | .finish offset name =>
      let cursor := { cursor with pending := events }
      cursor.settle text (cursor.closeElement offset name)
    | .text offset raw =>
      match cursor.readText offset raw with
      | .error e => (.error e, { cursor with pending := events })
      | .ok content => cursor.textAmong (text ++ content) events
    | .cdata _ content => cursor.textAmong (text ++ String.ofList content) events
    | .fault offset defect => (.error (cursor.broken offset defect), { cursor with pending := events })

/-- Reads the text of the current element and moves to its end tag. Elements inside are refused. -/
def elementText (cursor : Cursor) : Moved String := cursor.textAmong "" cursor.pending

/-- Moves over `events` until no more than `target` elements are open. -/
def skipAmong (target : Nat) (cursor : Cursor) : List Xml.Event → Moved Unit
  | [] =>
    let cursor := { cursor with pending := [] }
    if cursor.depth ≤ target then (.ok (), cursor) else (.error cursor.unexpectedEnd, cursor)
  | event :: events =>
    if cursor.depth ≤ target then (.ok (), { cursor with pending := event :: events })
    else
      let cursor := { cursor with pending := events }
      match event with
      | .start offset name tag scope =>
        match cursor.openElement offset name tag scope with
        | .error e => (.error e, cursor)
        | .ok cursor => skipAmong target cursor events
      | .finish offset name =>
        match cursor.closeElement offset name with
        | .error e => (.error e, cursor)
        | .ok cursor => skipAmong target cursor events
      | .text .. | .cdata .. => skipAmong target cursor events
      | .fault offset defect => (.error (cursor.broken offset defect), cursor)

/-- Moves to the end tag of the current element over whatever stands inside. -/
def skipElement (cursor : Cursor) : Moved Unit :=
  skipAmong (cursor.depth - 1) cursor cursor.pending

end Cursor

end ManagementScript
