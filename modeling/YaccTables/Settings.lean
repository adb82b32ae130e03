import YaccTables.Disk
import YaccTables.Toml.Table

/-!
# Settings

A configuration file in TOML gives defaults for what the command line leaves unset.
-/

namespace YaccTables

/-- What a configuration file can set. -/
structure Settings where
  kind : Bytes := []
  format : Bytes := []
  package : Bytes := []
  verbose : Bool := false
  deriving DecidableEq, Repr

/-- Why settings could not be read. -/
inductive SettingsError
  | unreadable (error : FileError)
  /-- The file is no TOML document, or sets a key to a value of the wrong sort. -/
  | malformed
  deriving DecidableEq, Repr

/-- The report of the error. What is wrong with a document is not said. -/
def SettingsError.message? : SettingsError → Option Bytes
  | .unreadable error => some (utf8 "reading config: " ++ error.message)
  | .malformed => none

namespace Settings

/-- A key with its case ignored. Besides the capitals of ASCII, the long s and the Kelvin sign are
other cases of letters of the keys. -/
def plainKey (key : Bytes) : Bytes :=
  (Text.pieces key).flatMap fun
    | .scalar c =>
      if c.toNat = 0x17f then utf8 "s"
      else if c.toNat = 0x212a then utf8 "k"
      else (String.utf8EncodeChar c).map lowerByte
    | .stray b => [b]

/-- What a document sets under a name: all that stands under keys that are the name in some case,
the name itself last. -/
def nodesFor (fields : Toml.Fields) (name : String) : List Toml.Node :=
  let folded := fields.filter fun (key, _) => plainKey key == utf8 name && key != utf8 name
  let exact := fields.filter fun (key, _) => key == utf8 name
  (folded ++ exact).map Prod.snd

/-- The text under a name, empty if there is none. -/
def text? (fields : Toml.Fields) (name : String) : Option Bytes :=
  (nodesFor fields name).foldlM (fun _ node => match node with
    | .text t => some t
    | _ => none) []

/-- The truth value under a name, false if there is none. -/
def flag? (fields : Toml.Fields) (name : String) : Option Bool :=
  (nodesFor fields name).foldlM (fun _ node => match node with
    | .boolean b => some b
    | _ => none) false

/-- The settings in a document. Keys that mean nothing here are left alone. -/
def ofText? (text : Bytes) : Option Settings := do
  let fields ← Toml.table? text
  some
    { kind := ← text? fields "kind"
      format := ← text? fields "format"
      package := ← text? fields "package"
      verbose := ← flag? fields "verbose" }

/-- The file that is read if none is named. -/
def defaultFile : Bytes := utf8 ".yaccgrm.toml"

/-- Settings from the contents of a file. -/
def ofContent (content : Bytes) : Except SettingsError Settings :=
  match ofText? content with
  | some settings => .ok settings
  | none => .error .malformed

/-- Reads the settings from a named file, which has to exist, or else from the default file, which
need not. -/
def loadFrom (read : Bytes → Except FileError Bytes) (path : Bytes) :
    Except SettingsError Settings :=
  match read (firstNonempty [path, defaultFile]) with
  | .ok content => ofContent content
  | .error e =>
    if path.isEmpty ∧ e.fault = .notFound then .ok {} else .error (.unreadable e)

/-- Reads the settings from a file of a folder in memory. -/
def load (folder : Folder) (path : Bytes) : Except SettingsError Settings :=
  loadFrom folder.disk.read path

end Settings

end YaccTables
