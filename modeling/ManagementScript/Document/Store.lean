import ManagementScript.Document.Path

/-!
Stores of documents: the files and directories around a working directory, and where a path leads from
there. There are directories above the working directory, at the top of them the root, of which nothing
else is known.
-/

namespace ManagementScript

/-- Why a path cannot be followed, read or written. -/
inductive AccessError where
  | noSuchEntry
  | permissionDenied
  | notDirectory
  | isDirectory
  | nameTooLong
  | other (number : Nat) (text : String)
deriving DecidableEq, Repr

namespace AccessError

def number : AccessError → Nat
  | noSuchEntry => 2
  | permissionDenied => 13
  | notDirectory => 20
  | isDirectory => 21
  | nameTooLong => 36
  | other number _ => number

def text : AccessError → String
  | noSuchEntry => "No such file or directory"
  | permissionDenied => "Permission denied"
  | notDirectory => "Not a directory"
  | isDirectory => "Is a directory"
  | nameTooLong => "File name too long"
  | other _ text => text

def message (e : AccessError) : String := s!"{e.text} (os error {e.number})"

end AccessError

/-- What a path leads to. -/
inductive Entry where
  | missing
  | directory
  /-- A file with the path that leads to it without a detour. -/
  | file (path : String) (bytes : ByteArray)
  /-- A file of the given size that can not be read. -/
  | unreadable (path : String) (size : Nat) (error : AccessError)

/-- Files and directories by the names that lead to them from the working directory. Two dots lead to
the directory above and stand before all other names. -/
structure Store where
  /-- The path of the working directory. -/
  base : String
  files : List (List String × ByteArray)
  directories : List (List String)

namespace Store

/-- A working directory with nothing in it. -/
def empty (base : String) : Store := ⟨base, [], [[]]⟩

def file? (s : Store) (names : List String) : Option ByteArray := s.files.lookup names

/-- Whether names lead up only. -/
def leadUp (names : List String) : Bool := names.all (· == "..")

def isDirectory (s : Store) (names : List String) : Bool :=
  leadUp names || s.directories.contains names

/-- The directories on the way to `names` and at its end. -/
def onTheWay (names : List String) : List (List String) :=
  (List.range (names.length + 1)).map names.take

/-- Adds a directory with the directories above it. -/
def addDirectory (s : Store) (names : List String) : Store :=
  { s with directories := (onTheWay names).filter (!s.isDirectory ·) ++ s.directories }

/-- Adds a file with the directories above it, in the place of an earlier one of that name. -/
def addFile (s : Store) (names : List String) (bytes : ByteArray) : Store :=
  let s := s.addDirectory names.dropLast
  { s with files := (names, bytes) :: s.files.filter (·.1 != names) }

theorem file?_addFile (s : Store) (names : List String) (bytes : ByteArray) :
    (s.addFile names bytes).file? names = some bytes := List.lookup_cons_self

theorem isDirectory_addDirectory (s : Store) (names : List String) :
    (s.addDirectory names).isDirectory names = true := by
  have hend : names ∈ onTheWay names :=
    List.mem_map.2 ⟨names.length, List.mem_range.2 (Nat.lt_succ_self _), List.take_length⟩
  simp only [isDirectory, addDirectory, Bool.or_eq_true, List.contains_iff_mem, List.mem_append,
    List.mem_filter, Bool.not_eq_true']
  by_cases hup : leadUp names = true
  · exact .inl hup
  by_cases hmem : names ∈ s.directories
  · exact .inr (.inr hmem)
  · exact .inr (.inl ⟨hend, by simp [hup, hmem]⟩)

/-! ### Following a path -/

/-- A place on the way along a path. -/
inductive Place where
  | root
  | reached (names : List String)
deriving DecidableEq, Repr

/-- The longest name of an entry, in bytes of UTF-8. -/
def nameSize : Nat := 255

/-- The longest path, in bytes of UTF-8. -/
def pathSize : Nat := 4095

/-- Moves from a directory to the entry that a part of a path names. -/
def enter (s : Store) (names : List String) (part : String) : Except AccessError Place :=
  if nameSize < part.utf8ByteSize then .error .nameTooLong
  else
    let names := names ++ [part]
    if s.isDirectory names || (s.file? names).isSome then .ok (.reached names)
    else .error .noSuchEntry

/-- The names that lead to the directory above. -/
def above (names : List String) : List String :=
  if leadUp names then names ++ [".."] else names.dropLast

/-- Moves along one part of a path. Only directories lead on. -/
def step (s : Store) (place : Place) (part : String) : Except AccessError Place :=
  match place with
  | .root => if part == "" || part == "." || part == ".." then .ok .root else .error .noSuchEntry
  | .reached names =>
    if !s.isDirectory names then .error .notDirectory
    else if part == "" || part == "." then .ok place
    else if part == ".." then .ok (.reached (above names))
    else s.enter names part

/-- The place that the parts of a path lead to. -/
def follow (s : Store) (parts : List String) : Except AccessError Place :=
  match parts with
  | "" :: parts => parts.foldlM s.step .root
  | parts => parts.foldlM s.step (.reached [])

/-- Whether a text can be the path of anything. -/
def isPath (path : String) : Bool :=
  !path.isEmpty && !path.contains '\x00' && path.utf8ByteSize ≤ pathSize

/-- The path of a place that names lead to. -/
def pathOf (s : Store) (names : List String) : String := "/".intercalate (s.base :: names)

/-- What a path leads to from the working directory. -/
def entry (s : Store) (path : String) : Entry :=
  if !isPath path then .missing
  else
    match s.follow (Path.parts path) with
    | .error _ => .missing
    | .ok .root => .directory
    | .ok (.reached names) =>
      match s.file? names with
      | some bytes => .file (s.pathOf names) bytes
      | none => .directory

/-! ### Writing -/

/-- Writes a file at a place, which has to be a directory. What is `closed` by a slash can only be the
name of a directory, as dots are. -/
def writeIn (s : Store) (place : Place) (name : String) (closed : Bool) (bytes : ByteArray) :
    Except AccessError Store :=
  match place with
  | .root => .error (if closed || name == "." || name == ".." then .isDirectory else .noSuchEntry)
  | .reached names =>
    if !s.isDirectory names then .error .notDirectory
    else if closed || name == "." || name == ".." then .error .isDirectory
    else if nameSize < name.utf8ByteSize then .error .nameTooLong
    else if s.isDirectory (names ++ [name]) then .error .isDirectory
    else .ok (s.addFile (names ++ [name]) bytes)

/-- The parts of a path without the closing slashes. -/
def namedParts (parts : List String) : List String := (parts.reverse.dropWhile (· == "")).reverse

/-- Writes a file, whose directory has to be there. -/
def write (s : Store) (path : String) (bytes : ByteArray) : Except AccessError Store := do
  if pathSize < path.utf8ByteSize then throw .nameTooLong
  if !isPath path then throw .noSuchEntry
  let parts := Path.parts path
  let named := namedParts parts
  s.writeIn (← s.follow named.dropLast) (named.getLastD "") (parts.getLastD "" == "") bytes

end Store

end ManagementScript
