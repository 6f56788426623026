import StateScript.Compilation
import StateScript.Object.Encoding

/-! # Files

  Scripts, token streams and objects are kept in files. What is done with files is two
  operations, over any monad, so that the same program runs on a disk and on a tree of
  files in memory.
-/

namespace StateScript

/-- Why a file cannot be read or written. -/
inductive FileFault where
  | missing
  | notDirectory
  | isDirectory
  /-- The path, or a name in it, has too many bytes. -/
  | nameTooLong
  /-- The path holds a NUL. -/
  | badPath
  /-- The bytes of the file are no text. -/
  | notText
  /-- Any other refusal of the system. -/
  | refused (code : Nat) (reason : String)
deriving DecidableEq

namespace FileFault

def message : FileFault → String
  | .missing => "No such file or directory (os error 2)"
  | .notDirectory => "Not a directory (os error 20)"
  | .isDirectory => "Is a directory (os error 21)"
  | .nameTooLong => "File name too long (os error 36)"
  | .badPath => "file name contained an unexpected NUL byte"
  | .notText => "stream did not contain valid UTF-8"
  | .refused code reason => s!"{reason} (os error {code})"

/-- Whether the fault shows only after the file was opened for reading: a directory can be
    opened and not read. -/
def isLate : FileFault → Bool
  | .isDirectory | .notText => true
  | _ => false

end FileFault

/-- Reading and writing whole files by path. -/
structure Files (m : Type → Type) where
  read : String → m (Except FileFault (List UInt8))
  write : String → List UInt8 → m (Except FileFault Unit)

namespace Files

variable {m : Type → Type}

/-- The same files with relative paths taken from a directory. -/
def below (root : String) (files : Files m) : Files m where
  read path := files.read (Text.join root path)
  write path bytes := files.write (Text.join root path) bytes

variable [Monad m]

/-- Reads a file that is a text. -/
def readText (files : Files m) (path : String) : m (Except FileFault String) := do
  match ← files.read path with
  | .error e => return .error e
  | .ok bytes =>
    match Text.ofUtf8 bytes with
    | .ok text => return .ok text
    | .error _ => return .error .notText

end Files

variable {m : Type → Type} [Monad m]

/-- Compiles the script in a file. -/
def Compilation.ofFile (files : Files m) (options : Options) (path : String) :
    m (Except FileFault Compilation) := do
  match ← files.readText path with
  | .ok source => return .ok (Compilation.ofSource options source path)
  | .error e => return .error e

/-- Writes an object to a file, and tells whether the file could be written. -/
def Object.store (files : Files m) (path : String) (o : Object) :
    m (Except Object.Error Bool) := do
  match o.encode with
  | .error e => return .error e
  | .ok bytes =>
    match ← files.write path bytes with
    | .ok () => return .ok true
    | .error _ => return .ok false

end StateScript
