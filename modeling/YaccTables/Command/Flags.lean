import YaccTables.Bytes

/-!
# Flags of the command line

Every flag of a command line has one or more names, and no name may belong to two flags.
-/

namespace YaccTables

/-- The names of a flag. -/
abbrev Flag := List String

/-- The flags of the program, then those that every program has. -/
def programFlags : List Flag :=
  [["config"], ["v"], ["generate-bash-completion"], ["help", "h"], ["version", "v"]]

/-- The first name that an earlier flag has taken. -/
def clashingName? (seen : List String) : List String → Option String
  | [] => none
  | name :: rest => if seen.contains name then some name else clashingName? (name :: seen) rest

/-- The complaint about flags of a program that clash. -/
def flagClash? (program : String) (flags : List Flag) : Option Bytes :=
  (clashingName? [] flags.flatten).map fun name =>
    utf8 program ++ utf8 " flag redefined: " ++ utf8 name

/-- What keeps the program from looking at its arguments: `v` means both verbose and version. -/
def startupFailure? : Option Bytes := flagClash? "yaccgrm" programFlags

end YaccTables
