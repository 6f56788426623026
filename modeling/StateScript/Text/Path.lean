/-! # Paths of files

  Paths are texts whose segments are separated by slashes. Slashes at the end, repeated
  slashes, and segments `.` count for nothing, except that a path may start with a slash
  or with a `.` of its own. What a path is cut down to keeps its spelling.
-/

namespace StateScript.Text

/-- What a path starts with, if that is the root or the current directory. -/
def pathHead : List Char → List Char
  | '/' :: _ => ['/']
  | ['.'] => ['.']
  | '.' :: '/' :: _ => ['.']
  | _ => []

/-- Drops, from a reversed path without its head, the segments at its end that count for
    nothing. -/
def trimPath : List Char → List Char
  | '/' :: r => trimPath r
  | '.' :: '/' :: r => trimPath r
  | ['.'] => []
  | r => r

/-- A path in three parts: its head, reversed what stands before its last segment, and
    reversed its last segment. The last segment is empty if there is only a head. -/
def splitPath (path : List Char) : List Char × List Char × List Char :=
  let head := pathHead path
  let body := trimPath (path.drop head.length).reverse
  (head, body.dropWhile (· != '/'), body.takeWhile (· != '/'))

/-- The directory that holds a file; the current directory if the path names none. -/
def directory (path : String) : String :=
  let (head, before, last) := splitPath path.toList
  let holder := if last.isEmpty then [] else head ++ (trimPath before).reverse
  if holder.isEmpty then "." else String.ofList holder

/-- The reversed file name without its extension: all before the last dot, unless there
    is no dot but one at the start. -/
def reversedStem (last : List Char) : List Char :=
  match last.dropWhile (· != '.') with
  | '.' :: c :: r => c :: r
  | _ => last

/-- The path with the extension of its file name replaced or added. A path that ends in
    no file name stays as it is. The extension is taken off the end of the path before the
    other is put on: of a path that ends in `..a` that leaves one that ends in `..`, which
    is no file name, and so it gets no other extension. -/
def withExtension (path extension : String) : String :=
  let (head, before, last) := splitPath path.toList
  let holder := head ++ before.reverse
  let stem := (reversedStem last).reverse
  if last.isEmpty || last == ['.', '.'] then path
  else if stem == ['.'] && path.toList == holder ++ last.reverse then
    String.ofList (holder ++ ['.', '.'])
  else String.ofList (holder ++ stem) ++ "." ++ extension

def isAbsolute (path : String) : Bool := path.toList.head? == some '/'

/-- A path below another, unless it is absolute. -/
def join (root path : String) : String :=
  if isAbsolute path || root.isEmpty then path
  else if root.toList.getLast? == some '/' then root ++ path
  else root ++ "/" ++ path

end StateScript.Text
