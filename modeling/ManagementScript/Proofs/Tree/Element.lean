import ManagementScript.Cursor.Basic
import ManagementScript.Grammar.AttributeName
import ManagementScript.Grammar.ElementName
import ManagementScript.Grammar.Namespace

/-!
Elements of a document as trees. A cursor that stands on a start tag has such a tree before it: the
nodes that it reads from there, up to the end tag.
-/

namespace ManagementScript

/-- What stands inside an element. -/
inductive Node where
  | text (content : String)
  | element (namespaceUri : Option String) (localName : String) (attributes : List Attribute)
      (content : List Node)

/-- An element with everything inside it. -/
structure Element where
  namespaceUri : Option String
  localName : String
  attributes : List Attribute
  content : List Node

namespace Node

@[simp] def text? : Node → Option String
  | .text content => some content
  | .element .. => none

@[simp] def element? : Node → Option Element
  | .text _ => none
  | .element uri name attributes content => some ⟨uri, name, attributes, content⟩

end Node

namespace Element

def kind (e : Element) : ElementName := .ofString e.localName

def children (e : Element) : List Element := e.content.filterMap Node.element?

def texts (e : Element) : List String := e.content.filterMap Node.text?

/-- The text of an element without its children. -/
def text (e : Element) : String := String.join e.texts

/-- No text but white space stands between the children. -/
def IsBlank (e : Element) : Prop := ∀ t ∈ e.texts, Text.trimmed t = ""

/-- Neither children nor text stand inside. -/
def IsEmpty (e : Element) : Prop := e.IsBlank ∧ e.children = []

/-- Inside stand children of the grammar that are accepted, each of them behind others that it is
compatible with, and no text. -/
structure Holds (grammar : GrammarNamespace) (compatible : Element → Element → Prop)
    (accepts : Element → Prop) (e : Element) : Prop where
  blank : e.IsBlank
  namespaced : ∀ c ∈ e.children, c.namespaceUri = some grammar.uri
  compatible : e.children.Pairwise compatible
  accepted : ∀ c ∈ e.children, accepts c

/-- The attributes by their names in the grammar. -/
def named (e : Element) : List (AttributeName × String) :=
  e.attributes.map fun a => (.ofString a.localName, a.value)

/-- The text of an attribute, if the element carries it. -/
def attribute? (e : Element) (attr : AttributeName) : Option String := e.named.lookup attr

/-- The text of an attribute that names the element. -/
def nameBy (e : Element) (attr : AttributeName) : String := (e.attribute? attr).getD ""

end Element

namespace Cursor

/-- The cursor with other events before it. -/
def before (c : Cursor) (events : List Xml.Event) : Cursor := { c with pending := events }

theorem readText_before (c : Cursor) (ahead : List Xml.Event) (offset : Nat) (raw : List Char) :
    (c.before ahead).readText offset raw = c.readText offset raw := rfl

theorem stray?_before (c : Cursor) (ahead : List Xml.Event) (offset : Nat) (content : String) :
    (c.before ahead).stray? offset content = c.stray? offset content := rfl

theorem nextAmong_before (c : Cursor) (ahead events : List Xml.Event) :
    (c.before ahead).nextAmong events = c.nextAmong events := by
  induction events with
  | nil => rfl
  | cons event events ih =>
    cases event with
    | start | finish | fault => rfl
    | text offset raw =>
      rw [nextAmong, nextAmong, readText_before]
      cases c.readText offset raw with
      | error e => rfl
      | ok content =>
        simp only [stray?_before]
        cases c.stray? offset content with
        | none => exact ih
        | some e => rfl
    | cdata offset content =>
      rw [nextAmong, nextAmong, stray?_before]
      cases c.stray? offset (String.ofList content) with
      | none => exact ih
      | some e => rfl

theorem textAmong_before (c : Cursor) (ahead : List Xml.Event) (text : String)
    (events : List Xml.Event) :
    (c.before ahead).textAmong text events = c.textAmong text events := by
  induction events generalizing text with
  | nil => rfl
  | cons event events ih =>
    cases event with
    | start | finish | fault => rfl
    | text offset raw =>
      simp only [textAmong, ih]
      rfl
    | cdata offset content => simp only [textAmong, ih]

theorem closeElement_pending {c d : Cursor} (h : c.closeElement offset name = .ok d) :
    d.pending = c.pending ∧ d.attributes = [] := by
  simp only [closeElement, bind, Except.bind] at h
  split at h
  · cases h
  · cases h
    exact ⟨rfl, rfl⟩

theorem openElement_reads {c i : Cursor} (h : c.openElement offset name tag scope = .ok i) :
    i.pending = c.pending ∧
      readAttributes (c.lines.positionAt offset) tag scope = .ok i.attributes := by
  simp only [openElement, bind, Except.bind] at h
  split at h
  · cases h
  split at h
  · cases h
  split at h
  · cases h
  next he =>
  split at h
  · cases h
  · cases h
    exact ⟨rfl, he⟩

/-- The element that the cursor is on, if `content` stands inside. -/
def element (c : Cursor) (content : List Node) : Element :=
  ⟨c.namespaceUri, c.localName, c.attributes, content⟩

/-- From `c`, which stands in an element, the given nodes are read and then the end tag at `d`. -/
inductive Encloses : Cursor → List Node → Cursor → Prop where
  | finish (hp : c.pending = .finish offset name :: events)
      (hd : (c.before events).closeElement offset name = .ok d) : Encloses c [] d
  | text (hp : c.pending = .text offset raw :: events) (ht : c.readText offset raw = .ok content)
      (h : Encloses (c.before events) nodes d) : Encloses c (.text content :: nodes) d
  | cdata (hp : c.pending = .cdata offset content :: events)
      (h : Encloses (c.before events) nodes d) :
      Encloses c (.text (String.ofList content) :: nodes) d
  | element (hp : c.pending = .start offset name tag scope :: events)
      (hi : (c.before events).openElement offset name tag scope = .ok i)
      (hin : Encloses i within o) (h : Encloses o nodes d) :
      Encloses c (.element i.namespaceUri i.localName i.attributes within :: nodes) d

/-- The next event before `c` is a tag, and `d` is on it. -/
inductive Stops : Cursor → Tag → Cursor → Prop where
  | start (hp : c.pending = .start offset name tag scope :: events)
      (hi : (c.before events).openElement offset name tag scope = .ok i) : Stops c .start i
  | finish (hp : c.pending = .finish offset name :: events)
      (hd : (c.before events).closeElement offset name = .ok d) : Stops c .finish d

/-- The cursor is on the start tag of `e`, and `d` on its end tag. -/
structure Spans (c : Cursor) (e : Element) (d : Cursor) : Prop where
  start : e = c.element e.content
  inside : c.Encloses e.content d

/-- The children of an element, as they are met from tag to tag. -/
inductive Visits : Cursor → List Element → Cursor → Prop where
  | finish (h : c.next = (.ok .finish, d)) : Visits c [] d
  | child (h : c.next = (.ok .start, i)) (hi : i.Encloses within o) (ho : Visits o es d) :
      Visits c (i.element within :: es) d

end Cursor

end ManagementScript
