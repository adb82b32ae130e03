import YaccTables.Bytes

/-!
# Systems

What a program asks of the system that it runs on: the contents of a file, a file to be written,
text to be printed. A system is given by its answers on every path and in every state. Operations
succeed completely or fail without effect, so that a failed one has no state to go on from.
-/

namespace YaccTables

/-- Why a file cannot be used. -/
inductive FileFault
  | notFound
  | isFolder
  /-- A part before the last names a file. -/
  | notFolder
  /-- The path holds a NUL. -/
  | invalidPath
  /-- A part of the path, or all of it, is too long. -/
  | nameTooLong
  /-- Anything else, in the words of the system. -/
  | other (text : Bytes)
  deriving DecidableEq, Repr

/-- The wording of a fault. -/
def FileFault.text : FileFault → Bytes
  | .notFound => utf8 "no such file or directory"
  | .isFolder => utf8 "is a directory"
  | .notFolder => utf8 "not a directory"
  | .invalidPath => utf8 "invalid argument"
  | .nameTooLong => utf8 "file name too long"
  | .other text => text

/-- A failed operation on a path. -/
structure FileError where
  operation : Bytes
  path : Bytes
  fault : FileFault
  deriving DecidableEq, Repr

/-- The line that reports the error. -/
def FileError.message (e : FileError) : Bytes :=
  e.operation ++ utf8 " " ++ e.path ++ utf8 ": " ++ e.fault.text

/-- What a system answers in a state. -/
structure System (σ : Type) where
  /-- The contents of the file at a path. -/
  read : σ → (path : Bytes) → Except FileError Bytes
  /-- The state once a file was written at a path, in place of what was there. -/
  write : σ → (path content : Bytes) → Except FileError σ
  /-- The state once a text was printed. -/
  print : σ → (text : Bytes) → Except FileError σ

end YaccTables
