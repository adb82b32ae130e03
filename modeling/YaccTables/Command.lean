import YaccTables.Grammar.Build
import YaccTables.Grammar.Dump
import YaccTables.Listing.Layout
import YaccTables.Settings

/-!
# Commands

What the program does on behalf of its user: check a grammar, dump it, print its fingerprint or
generate a file. A command is a program that asks the system for one thing after the other
(`Command.program`), for any system and any way to lay out source text. `Command.run` runs it on
files in memory with the standard layout, and gives the outcome as a value: what is printed, logged
and written, or why the command fails.
-/

namespace YaccTables

/-- What is to be done with a grammar. -/
inductive Action
  | check
  | dump
  | gen
  | hash
  deriving DecidableEq, Repr

/-- The action of a name. -/
def Action.ofName? (name : Bytes) : Option Action :=
  if name = utf8 "check" then some .check
  else if name = utf8 "dump" then some .dump
  else if name = utf8 "gen" then some .gen
  else if name = utf8 "hash" then some .hash
  else none

/-- How much a log entry matters. -/
inductive LogLevel
  | trace
  | debug
  | info
  deriving DecidableEq, Repr

/-- The word for a level. -/
def LogLevel.text : LogLevel → Bytes
  | .trace => utf8 "trace"
  | .debug => utf8 "debug"
  | .info => utf8 "info"

/-- A line of the log with its fields. -/
structure LogEntry where
  level : LogLevel
  message : Bytes
  fields : List (String × Bytes)
  deriving DecidableEq, Repr

/-- Why a command fails. -/
inductive CommandError
  | settings (error : SettingsError)
  | unknownKind (name : Bytes)
  | unreadable (error : FileError)
  | grammar (error : BuildError)
  | unknownFormat (name : Bytes)
  /-- A file is to be generated, but no package is named. -/
  | noPackage
  /-- The generated file would not be well-formed. -/
  | layout
  | unwritable (error : FileError)
  /-- The text that the command is for could not be printed. -/
  | unprintable (error : FileError)
  deriving DecidableEq, Repr

/-- The report of the error, where it has one. An error in grammar text is shown in place. -/
def CommandError.message? : CommandError → Option Bytes
  | .settings error => error.message?
  | .unknownKind name => some (Kind.unknownName name)
  | .unreadable error => some error.message
  | .grammar (.parse error) => do
    let message ← (BuildError.parse error).message?
    let context ← error.context?
    some (message ++ [lineFeed] ++ context)
  | .grammar error => error.message?
  | .unknownFormat name => some (DumpFormat.unknownName name)
  | .noPackage => some (utf8 "gen needs --pkg or a package in the config file")
  | .layout => none
  | .unwritable error => some error.message
  | .unprintable error => some error.message

/-- A command with the values of its flags; a flag that is not given is empty. -/
structure Command where
  action : Action
  /-- The configuration file. -/
  config : Bytes := []
  /-- The file with the grammar. -/
  grammar : Bytes := []
  kind : Bytes := []
  /-- The format of a dump. -/
  format : Bytes := []
  /-- The package of a generated file. -/
  package : Bytes := []
  /-- The generated file; without a name or with `-` it is printed. -/
  output : Bytes := []
  verbose : Bool := false
  /-- The command line, which the generated file quotes. -/
  arguments : List Bytes := []
  deriving DecidableEq, Repr

/-! ## Runs -/

/-- A run as far as it has gone. -/
structure Session (σ : Type) where
  /-- The state of the system. -/
  state : σ
  /-- Whether all of the log is shown, and not only what is important. -/
  isVerbose : Bool := false
  /-- The entries of the log that are shown. -/
  logs : List LogEntry := []

/-- A part of a run, which may end it with an error. -/
abbrev Run (σ : Type) := ExceptT CommandError (StateM (Session σ))

namespace Run

variable {σ : Type} (sys : System σ)

/-- Logs an entry. -/
def log (entry : LogEntry) : Run σ Unit :=
  modify fun s =>
    if s.isVerbose || entry.level == .info then { s with logs := s.logs ++ [entry] } else s

/-- Logs entries. -/
def logAll : List LogEntry → Run σ Unit
  | [] => pure ()
  | entry :: rest => do
    log entry
    logAll rest

/-- Has all of the log shown from here on. -/
def setVerbose : Run σ Unit := modify fun s => { s with isVerbose := true }

/-- Looks something up in the state of the system. -/
def look {α : Type} (f : σ → α) : Run σ α := return f (← get).state

/-- Prints a text. -/
def print (text : Bytes) : Run σ Unit := do
  match sys.print (← get).state text with
  | .ok state => modify fun s => { s with state }
  | .error e => throw (.unprintable e)

/-- Prints a text, and does not mind if that fails. -/
def printAnyway (text : Bytes) : Run σ Unit := do
  match sys.print (← get).state text with
  | .ok state => modify fun s => { s with state }
  | .error _ => pure ()

/-- Writes a file. -/
def write (path content : Bytes) : Run σ Unit := do
  match sys.write (← get).state path content with
  | .ok state => modify fun s => { s with state }
  | .error e => throw (.unwritable e)

end Run

namespace Command

/-! ## Log entries -/

/-- The version of the program. -/
def version : Bytes := utf8 "unspecified"

/-- The entry for the start of a command. -/
def startEntry : LogEntry := ⟨.debug, utf8 "starting", [("version", version)]⟩

/-- The numbers of terminals, nonterminals and productions of a grammar. -/
def sizeFields (g : Grammar) : List (String × Bytes) :=
  [("terms", decimal g.terminals.length), ("nonterms", decimal g.nonterminals.length),
    ("prods", decimal g.productions.length)]

/-- The entries about a grammar read from a file. -/
def grammarEntries (path : Bytes) (g : Grammar) : List LogEntry :=
  g.nonterminals.map (fun n => ⟨.trace,
    utf8 "lowered " ++ decimal n.prods.length ++ utf8 " productions", [("rule", n.name)]⟩)
    ++ [⟨.debug, utf8 "lowered grammar", ("kind", g.kind.text) :: sizeFields g⟩,
      ⟨.info, utf8 "loaded grammar",
        ("grammar", path) :: ("kind", g.kind.text) :: sizeFields g⟩]

/-- The entry for a generated file. -/
def writingEntry (path : Bytes) : LogEntry :=
  ⟨.info, utf8 "writing generated code", [("output", path)]⟩

/-! ## Actions -/

section Program

variable {σ : Type} (layout : Bytes → Option Bytes) (sys : System σ) (c : Command)

/-- Reads the settings and starts the log. -/
def setup : Run σ Settings := do
  match ← Run.look fun state => Settings.loadFrom (sys.read state) c.config with
  | .error e => throw (.settings e)
  | .ok settings =>
    if c.verbose || settings.verbose then Run.setVerbose
    Run.log startEntry
    return settings

/-- Reads the grammar. -/
def load (settings : Settings) : Run σ Grammar := do
  let kindName := firstNonempty [c.kind, settings.kind]
  match Kind.ofName? kindName with
  | none => throw (.unknownKind kindName)
  | some kind =>
    match ← Run.look fun state => sys.read state c.grammar with
    | .error e => throw (.unreadable e)
    | .ok content =>
      match Grammar.ofSource kind { text := content, file := c.grammar } with
      | .error e => throw (.grammar e)
      | .ok g =>
        Run.logAll (grammarEntries c.grammar g)
        return g

/-- Prints a dump of a grammar. -/
def dump (settings : Settings) (g : Grammar) : Run σ Unit :=
  let name := firstNonempty [c.format, settings.format, utf8 "text"]
  match DumpFormat.ofName? name with
  | none => throw (.unknownFormat name)
  | some format => Run.print sys (g.dump format)

/-- Prints the fingerprint of a grammar. That it could not be printed is no failure. -/
def hash (g : Grammar) : Run σ Unit := Run.printAnyway sys (g.tables.fingerprint ++ [lineFeed])

/-- Prints a generated file, or writes it if it has a name. -/
def place (source : Bytes) : Run σ Unit := do
  if c.output = [] ∨ c.output = utf8 "-" then Run.print sys source
  else
    Run.log (writingEntry c.output)
    Run.write sys c.output source

/-- The package of a generated file. -/
def packageIn (settings : Settings) : Bytes := firstNonempty [c.package, settings.package]

/-- The listing for a generated file. -/
def listing (package : Bytes) (g : Grammar) : Listing :=
  .ofGrammar g package ((utf8 " ").intercalate c.arguments)

/-- Generates a file. That no package is named is found out before anything is read. -/
def gen (settings : Settings) : Run σ Unit := do
  let package := c.packageIn settings
  if package = [] then throw .noPackage
  let g ← c.load sys settings
  match (c.listing package g).sourceWith layout with
  | none => throw .layout
  | some source => c.place sys source

/-- What a command does with its settings. -/
def act (settings : Settings) : Run σ Unit :=
  match c.action with
  | .check => do let _ ← c.load sys settings
  | .dump => do
    let g ← c.load sys settings
    c.dump sys settings g
  | .gen => c.gen layout sys settings
  | .hash => do
    let g ← c.load sys settings
    hash sys g

/-- All that a command does. -/
def program : Run σ Unit := do
  let settings ← c.setup sys
  c.act layout sys settings

end Program

/-! ## Outcomes -/

/-- What a run leaves behind. -/
structure Report (σ : Type) where
  state : σ
  logs : List LogEntry
  failure : Option CommandError

/-- The report on a run that is over. -/
def Report.of {σ : Type} : Except CommandError Unit × Session σ → Report σ
  | (.ok (), s) => ⟨s.state, s.logs, none⟩
  | (.error e, s) => ⟨s.state, s.logs, some e⟩

/-- Runs a command in a state of a system. -/
def runOn {σ : Type} (layout : Bytes → Option Bytes) (sys : System σ) (c : Command) (state : σ) :
    Report σ :=
  .of ((c.program layout sys).run.run { state })

end Command

/-- What a command came to. -/
structure Outcome where
  /-- What it prints. -/
  stdout : Bytes := []
  logs : List LogEntry := []
  /-- The files of the working folder that are new or changed. -/
  written : List (Bytes × Bytes) := []
  failure : Option CommandError := none
  deriving DecidableEq, Repr

/-- Runs a command in a folder in memory. -/
def Command.run (c : Command) (folder : Folder) : Outcome :=
  let report := c.runOn Code.layout? Host.system { disk := folder.disk }
  { stdout := report.state.printed
    logs := report.logs
    written := Folder.changedOn report.state.disk folder.disk
    failure := report.failure }

end YaccTables
