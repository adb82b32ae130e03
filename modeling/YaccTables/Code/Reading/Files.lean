import YaccTables.Code.Reading.Stmts
import YaccTables.Code.Scan

/-!
# Reading a file

A file is a package clause, imports and other declarations.
-/

namespace YaccTables.Code

/-- The readers of syntax that is nested at most so deeply. -/
def readers : Nat → Readers
  | 0 => Readers.none
  | depth + 1 =>
    let inside : Inside := fun _ => readers depth
    { type? := Reading.type? inside
      expr := Reading.expr inside
      unary := Reading.unary inside
      element := Reading.element inside
      block := Reading.block inside
      stmt := Reading.stmt inside }

/-- How deeply so many words can nest: between two words readers go around only a few times. -/
def depthOf (words : Nat) : Nat := 4 * words + 16

namespace Reading

variable (inside : Inside)

/-- The body of a function, if it has one. It starts on the line of the signature. -/
def routineBody : Reading (Option (Block Stmt)) := do
  if ← atSign "\x7b" then
    let body ← (inside ()).block
    let _ ← expectStop
    return some body
  if ← atStop then
    advance
    if ← atSign "\x7b" then misfit
    return none
  let _ ← expectStop
  return none

/-- A function or method. Methods have no parameters for types. -/
def routine : Reading Routine := do
  let doc := (← peek).doc
  let start ← expectKeyword "func"
  let receiver ← if ← atSign "(" then some <$> params inside else pure none
  let name ← ident
  let types ← typeParams? inside
  if receiver.isSome && types.isSome then misfit
  let signature ← signature inside
  let body ← routineBody inside
  return { doc, start, receiver, name, signature := { signature with types }, body }

/-- A declaration other than an import. -/
def decl : Reading Decl := do
  match ← nextKind with
  | .keyword w =>
    match w with
    | "const" | "var" | "type" => return .group (← declGroup inside w)
    | "func" => return .function (← routine inside)
    | "import" => misfit
    | _ => throw .declaration
  | _ => throw .declaration

/-- A file. -/
def file : Reading File := do
  let first ← peek
  if first.kind ≠ .keyword "package" then throw .package
  let start ← expectKeyword "package"
  let name ← ident
  let _ ← expectStop
  let imports ← repeatWhile (· == .keyword "import") (declGroup inside "import")
  let decls ← repeatWhile (· != .finish) (decl inside)
  return { start, doc := first.doc, name, decls := imports.map Decl.group ++ decls }

end Reading

/-- A file with its comments and lines. -/
structure ParsedFile where
  file : File
  comments : List CommentGroup
  lines : LineTable
  /-- The number of words. -/
  words : Nat

/-- Reads a file. -/
def ParsedFile.read (text : Bytes) : Except Fault ParsedFile := do
  let lines := LineTable.ofText text
  match words? lines text with
  | none => throw .other
  | some found =>
    let words := found.lexemes.length
    let cursor : Cursor := { rest := found.lexemes, left := words }
    let (file, _) ← (Reading.file (fun _ => readers (depthOf words))).run cursor
    return { file, comments := found.groups, lines, words }

end YaccTables.Code
