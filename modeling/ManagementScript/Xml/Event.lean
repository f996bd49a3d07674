import ManagementScript.Source.LineIndex
import ManagementScript.Xml.Scope

/-!
A document as the sequence of what is read from it: start tags, end tags, character data, and the
places where it is broken. Comments, processing instructions and document type declarations leave no
event. An element written as one tag gives a start and an end.

Offsets count bytes from the beginning of the text, a byte order mark not counted.
-/

namespace ManagementScript.Xml

/-- Why a document is broken at a place. -/
inductive Defect where
  | unknownMarkup
  | unclosedInstruction
  | unclosedComment
  | unclosedDoctype
  | unclosedCdata
  | unclosedTag
  | mismatchedEnd (expected found : String)
  | unmatchedEnd (name : String)
  | namelessDoctype
  | binding (defect : BindingDefect)
deriving DecidableEq, Repr

namespace Defect

def message : Defect → String
  | unknownMarkup => "syntax error: unknown or missed symbol in markup"
  | unclosedInstruction =>
    "syntax error: processing instruction or xml declaration not closed: `?>` not found before end of input"
  | unclosedComment => "syntax error: comment not closed: `-->` not found before end of input"
  | unclosedDoctype => "syntax error: DOCTYPE not closed: `>` not found before end of input"
  | unclosedCdata => "syntax error: CDATA not closed: `]]>` not found before end of input"
  | unclosedTag => "syntax error: tag not closed: `>` not found before end of input"
  | mismatchedEnd expected found =>
    s!"ill-formed document: expected `</{expected}>`, but `</{found}>` was found"
  | unmatchedEnd name =>
    s!"ill-formed document: close tag `</{name}>` does not match any open tag"
  | namelessDoctype =>
    "ill-formed document: `<!DOCTYPE>` declaration does not contain a name of a document type"
  | binding defect => defect.message

end Defect

/-- One thing read from a document. -/
inductive Event where
  /-- A start tag, at the last `<` of its text, with the declarations in effect inside the element. -/
  | start (offset : Nat) (name : ResolvedName) (tag : TagText) (scope : Scope)
  /-- An end tag, or the end of an element written as one tag. -/
  | finish (offset : Nat) (name : ResolvedName)
  /-- Character data without the blanks around it, located at the end of what was read before. -/
  | text (offset : Nat) (raw : List Char)
  | cdata (offset : Nat) (content : List Char)
  | fault (offset : Nat) (defect : Defect)

/-- What stands between `<` and `>`. -/
inductive Piece where
  | aside
  | namelessDoctype
  | cdata (content : List Char)
  | startTag (tag : TagText) (empty : Bool)
  | endTag (name : List Char)
deriving DecidableEq, Repr

/-- Reads up to the character at which `step` gives no next state, and drops that character. -/
@[specialize]
def readUntil {σ : Type} (step : σ → Char → Option σ) (state : σ) (taken : List Char) :
    List Char → Option (List Char × List Char)
  | [] => none
  | c :: cs =>
    match step state c with
    | none => some (taken.reverse, cs)
    | some state => readUntil step state (c :: taken) cs

/-- A tag ends at the first `>` outside quotes. The state is the open quote. -/
def tagStep : Option Char → Char → Option (Option Char)
  | some quote, c => if c == quote then some none else some (some quote)
  | none, c =>
    if c == '>' then none else if c == '"' || c == '\'' then some (some c) else some none

/-- A processing instruction ends at the first `?>`. The state tells whether the last character was
a question mark. -/
def instructionStep (asked : Bool) (c : Char) : Option Bool :=
  if asked && c == '>' then none else some (c == '?')

/-- A comment ends at the first `-->` that leaves room for both pairs of hyphens. The state counts
the bytes before and the hyphens just before. -/
def commentStep : Nat × Nat → Char → Option (Nat × Nat)
  | (size, hyphens), c =>
    if c == '>' && 5 ≤ size && 2 ≤ hyphens then none
    else some (size + c.utf8Size, if c == '-' then hyphens + 1 else 0)

/-- A character data section ends at the first `]]>`. The state counts the brackets just before. -/
def cdataStep (brackets : Nat) (c : Char) : Option Nat :=
  if c == '>' && 2 ≤ brackets then none else some (if c == ']' then brackets + 1 else 0)

/-- A document type declaration ends at the `>` that balances its `<`. -/
def doctypeStep (inner : Nat) (c : Char) : Option Nat :=
  if c == '<' then some (inner + 1)
  else if c == '>' then
    match inner with
    | 0 => none
    | inner + 1 => some inner
  else some inner

/-- Splits what follows a `<` into the content of the markup and what follows its `>`. -/
def enclosed (cs : List Char) : Except Defect (List Char × List Char) :=
  let orElse (defect : Defect) : Option (List Char × List Char) → _ := (·.elim (.error defect) .ok)
  match cs with
  | '!' :: '[' :: _ => orElse .unclosedCdata (readUntil cdataStep 0 [] cs)
  | '!' :: '-' :: _ => orElse .unclosedComment (readUntil commentStep (0, 0) [] cs)
  | '!' :: 'D' :: _ | '!' :: 'd' :: _ => orElse .unclosedDoctype (readUntil doctypeStep 0 [] cs)
  | '!' :: _ => .error .unknownMarkup
  | '?' :: _ => orElse .unclosedInstruction (readUntil instructionStep false [] cs)
  | _ => orElse .unclosedTag (readUntil tagStep none [] cs)

/-- The name in an end tag. The blanks behind a name do not belong to it; a name that is nothing but
blanks is kept as it is. -/
def endName (name : List Char) : List Char :=
  if name.all Text.isBlank then name else Text.trimEnd Text.isBlank name

/-- Tells what the content of markup is. Markup that only looks like a section, a comment or a
declaration counts as one that is not closed. -/
def piece (content : List Char) : Except Defect Piece :=
  match content with
  | '!' :: '[' :: rest =>
    match rest with
    | 'C' :: 'D' :: 'A' :: 'T' :: 'A' :: '[' :: data => .ok (.cdata (data.dropLast.dropLast))
    | _ => .error .unclosedCdata
  | '!' :: '-' :: rest =>
    match rest with
    | '-' :: _ => .ok .aside
    | _ => .error .unclosedComment
  | '!' :: rest =>
    if (rest.take 7).map Char.toUpper != "DOCTYPE".toList then .error .unclosedDoctype
    else if (rest.drop 7).all Text.isBlank then .ok .namelessDoctype
    else .ok .aside
  | ['?'] => .error .unclosedInstruction
  | '?' :: _ => .ok .aside
  | '/' :: name => .ok (.endTag (endName name))
  | _ =>
    if content.getLast? == some '/' then .ok (.startTag (.ofContent content.dropLast) true)
    else .ok (.startTag (.ofContent content) false)

/-- What reading remembers from one piece of markup to the next. -/
structure ScanState where
  /-- The names of the start tags that wait for their end tag, the innermost first. -/
  opened : List (List Char)
  /-- The scopes around the present place, the innermost first. -/
  scopes : List Scope
  /-- Where markup was last found to be broken. -/
  defectOffset : Nat

namespace ScanState

def initial : ScanState := ⟨[], [.initial], 0⟩

def scope (state : ScanState) : Scope := state.scopes.headD .initial

/-- The end of an element and with it of its declarations. -/
def close (state : ScanState) : ScanState :=
  { state with opened := state.opened.tail, scopes := state.scopes.tail }

/-- Reads a start tag at `offset`. A declaration that is ruled out is reported at the place of the
last broken markup. -/
def start (state : ScanState) (offset : Nat) (tag : TagText) : ScanState × Event :=
  let (scope, ruledOut) := state.scope.declareAll (tag.attributes false).1
  let state :=
    { state with opened := tag.name :: state.opened, scopes := scope :: state.scopes }
  match ruledOut with
  | some defect => (state, .fault state.defectOffset (.binding defect))
  | none => (state, .start offset (scope.resolveElement tag.name) tag scope)

/-- Reads the end of the innermost element. -/
def finish (state : ScanState) (offset : Nat) (name : List Char) : ScanState × Event :=
  (state.close, .finish offset (state.scope.resolveElement name))

/-- Broken markup after which reading goes on. -/
def fault (state : ScanState) (offset : Nat) (defect : Defect) : ScanState × Event :=
  ({ state with defectOffset := offset }, .fault offset defect)

/-- Reads an end tag that begins at `first` and is located at `offset`. An end tag with the wrong
name still takes the innermost name away, but leaves its declarations in effect. -/
def endTag (state : ScanState) (first offset : Nat) (name : List Char) : ScanState × Event :=
  match state.opened with
  | [] => state.fault first (.unmatchedEnd (String.ofList name))
  | expected :: outer =>
    if expected == name then state.finish offset name
    else
      { state with opened := outer }.fault first
        (.mismatchedEnd (String.ofList expected) (String.ofList name))

end ScanState

/-- The last of the given offsets of `<` before `limit`, or the beginning of the text if there is
none. A limit inside a character is before all. -/
def openingBefore (source : String) (openings : Array Nat) (limit : Nat) : Nat :=
  if String.Pos.Raw.isValid source ⟨limit⟩ then
    match countUpTo openings (limit - 1) with
    | 0 => 0
    | last + 1 => openings.getD last 0
  else 0

/-- Reads `cs`, which begins at `offset`. The events found before are kept last first; `locate` gives
the place of a tag from the offset behind it. -/
def scanFrom (locate : Nat → Nat) :
    (steps : Nat) → ScanState → (found : List Event) → (offset : Nat) → List Char → List Event
  | 0, _, found, _, _ => found.reverse
  | steps + 1, state, found, offset, cs =>
    let (_, blankSize, rest) := spanBytes Text.isBlank cs
    let first := offset + blankSize
    match rest with
    | [] => found.reverse
    | '<' :: rest =>
      match enclosed rest with
      | .error defect => (.fault first defect :: found).reverse
      | .ok (content, rest) =>
        let next := first + Text.byteCount content + 2
        match piece content with
        | .error defect => (.fault first defect :: found).reverse
        | .ok .aside => scanFrom locate steps state found next rest
        | .ok .namelessDoctype =>
          let (state, event) := state.fault (next - 1) .namelessDoctype
          scanFrom locate steps state (event :: found) next rest
        | .ok (.cdata content) =>
          scanFrom locate steps state (.cdata offset content :: found) next rest
        | .ok (.endTag name) =>
          let (state, event) := state.endTag first (locate next) name
          scanFrom locate steps state (event :: found) next rest
        | .ok (.startTag tag empty) =>
          let (state, event) := state.start (locate next) tag
          if empty then
            let (state, closing) := state.finish (locate next) tag.name
            scanFrom locate steps state (closing :: event :: found) next rest
          else scanFrom locate steps state (event :: found) next rest
    | _ =>
      let (raw, size, rest) := spanBytes (· != '<') rest
      scanFrom locate steps state (.text offset (Text.trimEnd Text.isBlank raw) :: found)
        (first + size) rest

/-- A text without the byte order mark it may begin with. -/
def withoutMark : List Char → List Char
  | '\ufeff' :: cs => cs
  | cs => cs

/-- Everything read from a document, in order. Broken markup that leaves no place to go on from is the
last event. -/
def events (source : String) : List Event :=
  let cs := withoutMark source.toList
  let openings := offsetsOf '<' source.toList
  scanFrom (openingBefore source openings) cs.length .initial [] 0 cs

end ManagementScript.Xml
