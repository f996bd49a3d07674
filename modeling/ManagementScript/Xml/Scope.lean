import ManagementScript.Xml.Attribute

/-!
Namespace scopes: which namespace a name prefix stands for inside an element. The declarations of a
start tag go on top of those in effect around it; the latest declaration of a prefix counts.
-/

namespace ManagementScript.Xml

/-- A namespace declaration. Without a prefix it declares the default namespace; an empty text takes
the declared namespace away. -/
structure Binding where
  label : Option (List Char)
  uri : List Char
deriving DecidableEq, Repr

/-- The declarations in effect, the latest first. -/
abbrev Scope := List Binding

/-- A declaration that the reserved prefixes and namespaces rule out. -/
structure BindingDefect where
  label : List Char
  uri : List Char
deriving DecidableEq, Repr

/-- The hexadecimal digits of a byte, without leading zeros. -/
def upperHex (byte : Nat) : String :=
  String.ofList ((Nat.toDigits 16 byte).map Char.toUpper)

/-- A text in double quotes, with every byte that is not printable ASCII given by its number. -/
def quotedBytes (cs : List Char) : String :=
  let shown := (String.ofList cs).toUTF8.toList.map fun b =>
    let n := b.toNat
    if n == 34 then "\\\""
    else if 32 ≤ n && n ≤ 126 then (Char.ofNat n).toString
    else s!"0x{upperHex n}"
  s!"\"{String.join shown}\""

namespace BindingDefect

def message (defect : BindingDefect) : String :=
  s!"The namespace prefix '{quotedBytes defect.label}' cannot be bound to '{quotedBytes defect.uri}'"

end BindingDefect

def xmlUri : List Char := "http://www.w3.org/XML/1998/namespace".toList

def xmlnsUri : List Char := "http://www.w3.org/2000/xmlns/".toList

/-- What an attribute name declares: nothing, the default namespace, or a prefix. -/
def declaredLabel? (name : List Char) : Option (Option (List Char)) :=
  match name with
  | ['x', 'm', 'l', 'n', 's'] => some none
  | 'x' :: 'm' :: 'l' :: 'n' :: 's' :: ':' :: label => some (some label)
  | _ => none

def RawAttribute.isDeclaration (a : RawAttribute) : Bool :=
  (declaredLabel? a.name).isSome

namespace Scope

/-- Only the prefixes `xml` and `xmlns` are declared in advance. -/
def initial : Scope :=
  [⟨some "xmlns".toList, xmlnsUri⟩, ⟨some "xml".toList, xmlUri⟩]

/-- Adds what one attribute declares. The prefix `xml` may only be declared as it already is, and an
empty prefix declares the default namespace. -/
def declare (scope : Scope) (a : RawAttribute) : Except BindingDefect Scope :=
  let uri := a.value
  match declaredLabel? a.name with
  | none => .ok scope
  | some none => .ok (⟨none, uri⟩ :: scope)
  | some (some label) =>
    if label == "xml".toList then
      if uri == xmlUri then .ok scope else .error ⟨label, uri⟩
    else if label == "xmlns".toList || uri == xmlUri || uri == xmlnsUri then .error ⟨label, uri⟩
    else .ok (⟨if label.isEmpty then none else some label, uri⟩ :: scope)

/-- Adds what attributes declare, up to the first declaration that is ruled out. -/
def declareAll (scope : Scope) : List RawAttribute → Scope × Option BindingDefect
  | [] => (scope, none)
  | a :: rest =>
    match scope.declare a with
    | .error defect => (scope, some defect)
    | .ok scope => scope.declareAll rest

/-- The namespace that a prefix stands for, none if it stands for none, with the error that names a
prefix which is not declared. -/
def resolveLabel (scope : Scope) (label : List Char) : Except (List Char) (Option String) :=
  match scope.find? (·.label == some label) with
  | some ⟨_, uri⟩ => if uri.isEmpty then .error label else .ok (some (String.ofList uri))
  | none => .error label

/-- The default namespace, if there is one. -/
def default? (scope : Scope) : Option String :=
  match scope.find? (·.label == none) with
  | some ⟨_, uri⟩ => if uri.isEmpty then none else some (String.ofList uri)
  | none => none

end Scope

/-- A name with the namespace of its prefix. The prefix is an error where it is not declared. -/
structure ResolvedName where
  namespaceUri : Except (List Char) (Option String)
  localName : String

/-- Splits a name at its first colon and resolves what stands before it. A name without a colon is in
the given namespace. -/
def Scope.resolve (scope : Scope) (unlabelled : Option String) (name : List Char) : ResolvedName :=
  match name.span (· != ':') with
  | (label, _ :: localName) => ⟨scope.resolveLabel label, String.ofList localName⟩
  | (localName, []) => ⟨.ok unlabelled, String.ofList localName⟩

/-- Elements without a prefix are in the default namespace. -/
def Scope.resolveElement (scope : Scope) (name : List Char) : ResolvedName :=
  scope.resolve scope.default? name

/-- Attributes without a prefix are in no namespace. -/
def Scope.resolveAttribute (scope : Scope) (name : List Char) : ResolvedName :=
  scope.resolve none name

end ManagementScript.Xml
