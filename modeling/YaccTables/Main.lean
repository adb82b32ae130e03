import YaccTables.Command.Flags

/-!
# The command line

The program refuses to start while its flags clash. Its actions are available as `Command.run`.
-/

/-- Reports what keeps the program from starting. -/
def main : IO UInt32 := do
  match YaccTables.startupFailure? with
  | some message =>
    let report := YaccTables.utf8 "panic: " ++ message ++ YaccTables.utf8 "\n"
    (← IO.getStderr).write (ByteArray.mk report.toArray)
    return 2
  | none => return 0
