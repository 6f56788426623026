import StateScript.Files

/-! # File trees

  A tree of files in memory. A place in the tree is the list of names that lead to it from
  the root. A path is walked name by name: every name but the last must lead to a
  directory that is there, `.` and an empty name stay, and `..` goes up, which at the root
  stays there. A path has at most 4095 bytes, and a name at most 255.
-/

namespace StateScript

/-- What stands at a place. -/
inductive FileNode where
  | directory
  | file (bytes : List UInt8)
deriving DecidableEq

/-- The names that lead from the root to a node. -/
abbrev Place := List String

/-- Directories and files by place. The root is always there, and so is the directory that
    relative paths start from. -/
structure FileTree where
  workingDirectory : Place := []
  nodes : List (Place × FileNode) := []
deriving DecidableEq

namespace FileTree

/-- The node at a place. -/
def node? (t : FileTree) (place : Place) : Option FileNode :=
  if place = [] || place = t.workingDirectory then some .directory else t.nodes.lookup place

/-- Puts a node at a place, in the stead of what is there. -/
def put (t : FileTree) (place : Place) (node : FileNode) : FileTree :=
  { t with nodes := (place, node) :: t.nodes.filter fun n => n.1 != place }

/-- Puts directories at a place and at all places above it. -/
def makeDirectories (t : FileTree) (place : Place) : FileTree :=
  (List.range place.length).foldl (fun t k => t.put (place.take (k + 1)) .directory) t

/-- The place that a relative path without `.` and `..` names. -/
def placeOf (t : FileTree) (path : String) : Place := t.workingDirectory ++ path.splitOn "/"

/-- The files below the working directory, with their paths from there. -/
def contents (t : FileTree) : List (String × List UInt8) :=
  t.nodes.filterMap fun (place, node) =>
    match node with
    | .directory => none
    | .file bytes =>
      if t.workingDirectory.isPrefixOf place then
        some ("/".intercalate (place.drop t.workingDirectory.length), bytes)
      else none

/-! ### Walking -/

/-- Whether a name leads to no node of its own. -/
def isStep (name : String) : Bool := name == "" || name == "." || name == ".."

/-- The greatest number of bytes in a name. -/
def nameLimit : Nat := 255

/-- The greatest number of bytes in a path. -/
def pathLimit : Nat := 4095

/-- What a directory holds under a name. A name that is too long is refused even where
    nothing can have it. -/
def find (t : FileTree) (place : Place) (name : String) : Except FileFault (Option FileNode) :=
  if nameLimit < name.utf8ByteSize then .error .nameTooLong
  else .ok (t.node? (place ++ [name]))

/-- Goes from a directory to the directory that a name leads to. -/
def enter (t : FileTree) (place : Place) (name : String) : Except FileFault Place :=
  if name == "" || name == "." then .ok place
  else if name == ".." then .ok place.dropLast
  else match t.find place name with
    | .ok (some .directory) => .ok (place ++ [name])
    | .ok (some (.file _)) => .error .notDirectory
    | .ok none => .error .missing
    | .error e => .error e

/-- Goes along names, all of which must lead to directories. -/
def walk (t : FileTree) (path : String) (names : List String) : Except FileFault Place :=
  names.foldlM t.enter (if Text.isAbsolute path then [] else t.workingDirectory)

/-- The names of a path; a path must have a character, none may be a NUL, and there may
    not be too many. -/
def names (path : String) : Except FileFault (List String) :=
  if path.isEmpty then .error .missing
  else if path.toList.contains '\x00' then .error .badPath
  else if pathLimit < path.utf8ByteSize then .error .nameTooLong
  else .ok (path.splitOn "/")

/-! ### Reading and writing -/

/-- The bytes of a file. -/
def read (t : FileTree) (path : String) : Except FileFault (List UInt8) := do
  let names ← names path
  let holder ← t.walk path names.dropLast
  let name := names.getLastD ""
  if isStep name then throw .isDirectory
  match ← t.find holder name with
  | some (.file bytes) => return bytes
  | some .directory => throw .isDirectory
  | none => throw .missing

/-- Writes a file in a directory that is there. A path that ends in a slash names a
    directory, whether it is there or not. -/
def write (t : FileTree) (path : String) (bytes : List UInt8) : Except FileFault FileTree := do
  let names ← names path
  let proper := (names.reverse.dropWhile (· == "")).reverse
  let holder ← t.walk path proper.dropLast
  let name := proper.getLastD ""
  if proper.length < names.length || isStep name then throw .isDirectory
  match ← t.find holder name with
  | some .directory => throw .isDirectory
  | _ => return t.put (holder ++ [name]) (.file bytes)

/-- The operations on a tree that is kept as a state. -/
def files : Files (StateM FileTree) where
  read path := do return (← get).read path
  write path bytes := do
    match (← get).write path bytes with
    | .ok t => set t; return .ok ()
    | .error e => return .error e

/-- What was put at a place is there. -/
@[simp] theorem node?_put (t : FileTree) (place : Place) (node : FileNode)
    (h : place ≠ []) (hw : place ≠ t.workingDirectory) :
    (t.put place node).node? place = some node := by
  simp [node?, put, h, hw]

end FileTree

end StateScript
