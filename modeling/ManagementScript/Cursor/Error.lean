import ManagementScript.Diagnostics.Code
import ManagementScript.Source.Position

/-! What can go wrong while a cursor moves through a document. -/

namespace ManagementScript

/-- An error of reading, with the place it is reported at. -/
inductive ReadError where
  | malformed (problem : String) (position : Position)
  | strayContent (content : String) (position : Position)
  | nestingTooDeep (depth max : Nat) (position : Position)
  | tooManyAttributes (element : String) (count max : Nat) (position : Position)
  | unexpectedEnd (element : String) (position : Position)
deriving DecidableEq, Repr

namespace ReadError

/-- Stray content is shown by its first 40 characters. -/
def stray (content : String) (position : Position) : ReadError :=
  let shown := String.ofList (content.toList.take 40)
  .strayContent (if shown.utf8ByteSize < content.utf8ByteSize then shown ++ "..." else shown) position

def position : ReadError → Position
  | malformed _ p | strayContent _ p | nestingTooDeep _ _ p | tooManyAttributes _ _ _ p
  | unexpectedEnd _ p => p

def code : ReadError → Code
  | malformed .. => .malformedDocument
  | strayContent .. => .strayContent
  | nestingTooDeep .. => .nestingTooDeep
  | tooManyAttributes .. => .tooManyAttributes
  | unexpectedEnd .. => .unexpectedEnd

def message : ReadError → String
  | malformed problem p => s!"Malformed document: {problem} at {p}"
  | strayContent content p => s!"Unexpected content '{content}' at {p}"
  | nestingTooDeep depth max p => s!"Element nesting depth {depth} exceeds maximum {max} at {p}"
  | tooManyAttributes element count max p =>
    s!"Element '{element}' has {count} attributes, maximum is {max} at {p}"
  | unexpectedEnd element p => s!"Unexpected end of document inside '{element}' at {p}"

end ReadError

end ManagementScript
