/-! Paths of documents: the steps they are made of, their order, and the parts of a file name. -/

namespace ManagementScript.Path

/-- One step of a path. -/
inductive Step where
  | root
  | here
  | parent
  | name (text : String)
deriving DecidableEq, Repr

namespace Step

def rank : Step → Nat
  | root => 0
  | here => 1
  | parent => 2
  | name _ => 3

/-- Steps of one kind are in the order of their names. -/
def order : Step → Step → Ordering
  | name a, name b => compare a b
  | a, b => compare a.rank b.rank

end Step

/-- The parts of a path between its slashes. -/
def parts (path : String) : List String := path.splitOn "/"

/-- The step that a part stands for behind the first one; a single dot leads nowhere. -/
def laterStep? : String → Option Step
  | "" | "." => none
  | ".." => some .parent
  | part => some (.name part)

/-- The steps of a path. Repeated and closing slashes do not count, nor do single dots but one at the
beginning. -/
def steps (path : String) : List Step :=
  if path.isEmpty then []
  else
    match parts path with
    | "" :: rest => .root :: rest.filterMap laterStep?
    | "." :: rest => .here :: rest.filterMap laterStep?
    | all => all.filterMap laterStep?

/-- The order of steps from left to right. -/
def orderSteps : List Step → List Step → Ordering
  | [], [] => .eq
  | [], _ :: _ => .lt
  | _ :: _, [] => .gt
  | a :: as, b :: bs => (a.order b).then (orderSteps as bs)

/-- The order of paths, step by step. -/
def order (a b : String) : Ordering := orderSteps (steps a) (steps b)

/-- The part of a file name behind its last dot. A dot at the beginning does not count. -/
def extension? (name : String) : Option String :=
  match name.toList.reverse.span (· != '.') with
  | (_, []) | (_, [_]) => none
  | (ending, _ :: _ :: _) => some (String.ofList ending.reverse)

end ManagementScript.Path
