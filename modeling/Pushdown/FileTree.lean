import Pushdown.ConfigFile

/-!
# Files

What a program asks about files, and directory trees as a value that can answer. In a tree a path
is followed name by name: the first name that cannot be followed decides the problem, so that a name
behind a file is never looked at, and neither is a parent of a directory that is not there.
-/

namespace Pushdown

/-- The questions about files. The answers come in a monad, so that a tree can give them as well as
the system. -/
structure Files (m : Type → Type) where
  /-- Something stands at the path. -/
  holds : String → m Bool
  /-- The text of the file at the path. -/
  read : String → m FileText

/-! ## Directory trees -/

/-- A file, or a directory with its named entries. -/
inductive FileTree
  | file (text : FileText)
  | directory (entries : List (String × FileTree))

/-- A directory of a tree, with the directories around it. -/
structure Place where
  /-- What the directory holds. -/
  entries : List (String × FileTree)
  /-- What the directories around it hold, the innermost first. -/
  around : List (List (String × FileTree)) := []

namespace Place

/-- The directory around a place; the outermost one is around itself. -/
def parent (p : Place) : Place :=
  match p.around with
  | [] => p
  | entries :: around => ⟨entries, around⟩

/-- The outermost directory around a place. -/
def root (p : Place) : Place :=
  match p.around.getLast? with
  | none => p
  | some entries => ⟨entries, []⟩

end Place

/-- What a path leads to. -/
inductive Target
  | file (text : FileText)
  | directory (place : Place)

/-- The number of bytes that a name may have. -/
def longestName : Nat := 255

/-- The number of bytes that a path may have. -/
def longestPath : Nat := 4095

/-- What a name leads to in a directory. -/
def Place.enter (p : Place) (name : String) : Except FileProblem Target :=
  if name.utf8ByteSize ≤ longestName then
    match p.entries.lookup name with
    | none => .error .missing
    | some (.file text) => .ok (.file text)
    | some (.directory entries) => .ok (.directory ⟨entries, p.entries :: p.around⟩)
  else .error .tooLong

namespace Target

/-- The target behind one more name of a path. Nothing follows a file, not even an empty name; an
empty name and a point stay in a directory, and two points leave it. -/
def step : Target → String → Except FileProblem Target
  | .file _, _ => .error .notDirectory
  | .directory p, name =>
      match name with
      | "" | "." => .ok (.directory p)
      | ".." => .ok (.directory p.parent)
      | name => p.enter name

/-- The target behind the names of a path. -/
def follow (t : Target) : List String → Except FileProblem Target
  | [] => .ok t
  | name :: names => (t.step name).bind fun t => t.follow names

/-- The text that a target is: a directory has none. -/
def text : Target → FileText
  | .file text => text
  | .directory _ => .error .directory

end Target

namespace Place

/-- What a path leads to from a place. A path that starts with a slash starts at the root. -/
def find (p : Place) (path : String) : Except FileProblem Target :=
  if longestPath < path.utf8ByteSize then .error .tooLong
  else match path.splitOn "/" with
    | [""] => .error .missing
    | "" :: names => (Target.directory p.root).follow names
    | names => (Target.directory p).follow names

/-- Something stands at a path. -/
def holds (p : Place) (path : String) : Bool :=
  match p.find path with
  | .ok _ => true
  | .error _ => false

/-- The text of the file at a path. -/
def read (p : Place) (path : String) : FileText := (p.find path).bind Target.text

/-- The files around a place. -/
def files (p : Place) : Files Id := ⟨p.holds, p.read⟩

end Place

end Pushdown
