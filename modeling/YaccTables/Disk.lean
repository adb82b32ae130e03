import YaccTables.System

/-!
# Files in memory

A disk keeps files in memory, by their places: the parts of the way there from the root. A path is
followed part by part from the left, and the first part that cannot be followed decides why the path
leads nowhere. A folder is there if it is listed or if there is something in it.
-/

namespace YaccTables

/-- Files by place. -/
structure Disk where
  files : List (List Bytes × Bytes) := []
  /-- The working folder, in which paths start that do not start at the root. -/
  location : List Bytes := []
  /-- Folders that are there even without a file in them. -/
  folders : List (List Bytes) := []
  /-- Devices that are empty and stay so. -/
  voids : List (List Bytes) := []
  deriving DecidableEq, Repr

namespace Disk

/-! ## Paths -/

/-- A path: where it starts, its parts, and whether it ends with a slash. -/
structure Route where
  fromRoot : Bool
  parts : List Bytes
  endsWithSlash : Bool
  deriving DecidableEq, Repr

/-- The longest path. -/
def pathLimit : Nat := 4095

/-- The longest part of a path. -/
def partLimit : Nat := 255

/-- The route of a path. -/
def route (path : Bytes) : Except FileFault Route :=
  if path.contains 0 then .error .invalidPath
  else if pathLimit < path.length then .error .nameTooLong
  else if path.isEmpty then .error .notFound
  else .ok
    { fromRoot := path.head? == some (ascii '/')
      parts := (path.splitOn (ascii '/')).filter (!·.isEmpty)
      endsWithSlash := path.getLast? == some (ascii '/') }

/-! ## Places -/

/-- The contents of the file at a place. -/
def content? (d : Disk) (place : List Bytes) : Option Bytes := d.files.lookup place

/-- Whether a place is on the way to the working folder, to a listed folder or to a file. -/
def isFolder (d : Disk) (place : List Bytes) : Bool :=
  place.isPrefixOf d.location || d.folders.any place.isPrefixOf
    || d.files.any fun (other, _) => place.isPrefixOf other

/-- What stands at a place. -/
inductive Entry
  | file (place : List Bytes) (content : Bytes)
  | folder (place : List Bytes)
  /-- Nothing yet; a file can be made there. -/
  | vacant (place : List Bytes)
  /-- A device that is empty and stays so. -/
  | void
  deriving DecidableEq, Repr

/-- What stands at a place. -/
def entryAt (d : Disk) (place : List Bytes) : Entry :=
  if d.voids.contains place then .void
  else match d.content? place with
    | some content => .file place content
    | none => if d.isFolder place then .folder place else .vacant place

/-- What a part of a path leads to from a folder. The root is in itself. -/
def follow (d : Disk) (place : List Bytes) (part : Bytes) : Except FileFault Entry :=
  if part = utf8 "." then .ok (.folder place)
  else if part = utf8 ".." then .ok (.folder place.dropLast)
  else if partLimit < part.length then .error .nameTooLong
  else .ok (d.entryAt (place ++ [part]))

/-- The folder at the end of parts that all have to name folders. -/
def walk (d : Disk) (place : List Bytes) : List Bytes → Except FileFault (List Bytes)
  | [] => .ok place
  | part :: rest => do
    match ← d.follow place part with
    | .folder next => d.walk next rest
    | .file _ _ | .void => .error .notFolder
    | .vacant _ => .error .notFound

/-- The folder in which the last part of a route is looked up. -/
def base (d : Disk) (r : Route) : Except FileFault (List Bytes) :=
  d.walk (if r.fromRoot then [] else d.location) r.parts.dropLast

/-- What the last part of a route leads to. -/
def destination (d : Disk) (r : Route) : Except FileFault Entry := do
  let place ← d.base r
  match r.parts.getLast? with
  | some part => d.follow place part
  | none => .ok (.folder place)

/-! ## Reading and writing -/

/-- What there is to be read at a path. -/
def found (d : Disk) (path : Bytes) : Except FileFault Entry := do
  let r ← route path
  match ← d.destination r with
  | .vacant _ => .error .notFound
  | .folder place => .ok (.folder place)
  | entry => if r.endsWithSlash then .error .notFolder else .ok entry

/-- The contents of a file. -/
def read (d : Disk) (path : Bytes) : Except FileError Bytes :=
  match d.found path with
  | .error fault => .error ⟨utf8 "open", path, fault⟩
  | .ok (.folder _) => .error ⟨utf8 "read", path, .isFolder⟩
  | .ok (.file _ content) => .ok content
  | .ok _ => .ok []

/-- What there is to be written at a path. A slash at the end asks for a folder, whatever is
there. -/
def target (d : Disk) (path : Bytes) : Except FileFault Entry := do
  let r ← route path
  let _ ← d.base r
  if r.endsWithSlash then .error .isFolder
  else
    match ← d.destination r with
    | .folder _ => .error .isFolder
    | entry => .ok entry

/-- Puts a file at a place, instead of one that is there. -/
def put (d : Disk) (place : List Bytes) (content : Bytes) : Disk :=
  { d with files := (place, content) :: d.files.filter (·.1 != place) }

/-- Writes a file. -/
def write (d : Disk) (path content : Bytes) : Except FileError Disk :=
  match d.target path with
  | .error fault => .error ⟨utf8 "open", path, fault⟩
  | .ok (.file place _) | .ok (.vacant place) => .ok (d.put place content)
  | .ok _ => .ok d

end Disk

/-! ## A working folder -/

/-- Files of a working folder, by name. A name may have parts between slashes. -/
structure Folder where
  files : List (Bytes × Bytes) := []
  deriving DecidableEq, Repr

namespace Folder

/-- The place of the working folder on a disk with nothing but that folder. -/
def location : List Bytes := [utf8 "home", utf8 "user"]

/-- A disk with the folder, an empty folder for other files, and the null device. -/
def disk (f : Folder) : Disk where
  files := f.files.map fun (name, content) => (location ++ name.splitOn (ascii '/'), content)
  location := location
  folders := [[utf8 "tmp"], [utf8 "dev"]]
  voids := [[utf8 "dev", utf8 "null"]]

/-- The files of the folder on a disk that are not as they were before. -/
def changedOn (d before : Disk) : List (Bytes × Bytes) :=
  d.files.filterMap fun (place, content) =>
    match location.isPrefixOf? place with
    | some parts =>
      if before.content? place = some content then none
      else some ((utf8 "/").intercalate parts, content)
    | none => none

end Folder

/-! ## A host -/

/-- A host in memory: its disk, and what was printed on it. -/
structure Host where
  disk : Disk := {}
  printed : Bytes := []
  deriving DecidableEq, Repr

/-- The system of a host in memory. Printing never fails. -/
def Host.system : System Host where
  read h path := h.disk.read path
  write h path content := (h.disk.write path content).map fun disk => { h with disk }
  print h text := .ok { h with printed := h.printed ++ text }

end YaccTables
