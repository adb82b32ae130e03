import YaccTables.Code.BuildLines
import YaccTables.Code.Reading.Files
import YaccTables.Code.Writing.Stmts

/-!
# Writing a file
-/

namespace YaccTables.Code

/-- The writers that write nothing. -/
def Writers.none : Writers := ⟨fun _ _ _ => pure (), fun _ _ => pure ()⟩

/-- The writers of syntax that is nested at most so deeply. Where only the size of a line is asked
for, they write nothing once there are several. -/
def writers : Nat → Writers
  | 0 => Writers.none
  | depth + 1 =>
    let within : Within := fun _ => writers depth
    { expr := fun e least depth => do
        let p ← get
        if !(p.isTrial && 1 < p.out.line) then Writing.expr within e least depth
      stmt := Writing.stmt within }

namespace Writing

variable (within : Within)

/-- Writes a function or method. -/
def routine (f : Routine) : Writing Unit := do
  comments f.doc
  goto f.start
  keyword "func"
  gap .blank
  let column := (← get).out.column - 5
  match f.receiver with
  | some ms =>
    parameters within .values ms
    gap .blank
  | none => pure ()
  ident f.name
  signature within f.signature
  match f.body with
  | some b => routineBody within (← distanceFrom f.start column) .cell b
  | none => pure ()

/-- Writes a declaration. -/
def decl : Decl → Writing Unit
  | .group g => declGroup within g
  | .function f => routine within f

/-- Whether a declaration is a function on several lines of the file. -/
def isLongRoutine : Decl → Writing Bool
  | .group _ => return false
  | .function f => return (← lineOf f.start) < (← lineOf f.stop)

/-- Writes declarations, with an empty line before one of another kind than the last and before one
that is documented. -/
def declList : Option String → List Decl → Writing Unit
  | _, [] => pure ()
  | before, d :: rest => do
    if !(← get).sheet.isEmpty then
      let isApart := before ≠ some d.keyword || d.doc.isSome
      let _ ← breakTo (← lineOf d.start) (if isApart then 2 else 1) .none (← isLongRoutine d)
    decl within d
    declList (some d.keyword) rest

/-- Writes a file. -/
def file (f : File) : Writing Unit := do
  comments f.doc
  goto f.start
  keyword "package"
  gap .blank
  ident f.name
  declList within none f.decls
  gap .newline

end Writing

/-- The text of a file, all of it indented so many times. -/
def ParsedFile.render (p : ParsedFile) (baseIndent : Int) : Bytes :=
  let page : Page := { lines := p.lines, baseIndent, comments := p.comments }
  let within : Within := fun _ => writers (4 * p.words + 100)
  let page := ((Writing.file within p.file).run page).2.finish
  Sheet.render
    (BuildLines.gathered page.sheet.reverse page.expressions.toList page.alternatives.toList)

end YaccTables.Code
