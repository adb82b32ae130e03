import YaccTables.Code.Page
import YaccTables.Code.Syntax

/-!
# Writing syntax

Writers put the words of syntax on a page, with gaps between them. Where the file broke a line, the
page mostly does so too. Writers of nested syntax are given the writers of what is inside,
`Writers`, one step later.
-/

namespace YaccTables.Code

/-- A step of writing. -/
abbrev Writing := StateM Page

/-- The writers of nested syntax. -/
structure Writers where
  /-- An expression among signs that bind so tightly, at a depth of expressions. -/
  expr : Expr → Nat → Nat → Writing Unit
  /-- A statement, and whether a closing brace comes next. -/
  stmt : Stmt → Bool → Writing Unit

/-- The writers one step later. They are made when they are called for. -/
abbrev Within := Unit → Writers

/-- An expression on its own. -/
def Within.expr (within : Within) (e : Expr) : Writing Unit := (within ()).expr e 0 1

/-- An expression at a depth. -/
def Within.exprAt (within : Within) (e : Expr) (depth : Nat) : Writing Unit :=
  (within ()).expr e 0 depth

/-- A statement. -/
def Within.stmt (within : Within) (s : Stmt) (isLast : Bool) : Writing Unit :=
  (within ()).stmt s isLast

namespace Writing

/-! ## Words and gaps -/

/-- Holds back a gap. -/
def gap (g : Gap) : Writing Unit := modify (·.gap g)

/-- Writes a sign. -/
def sign (s : String) : Writing Unit := modify (·.sign (.sign s) s)

/-- Writes a keyword. -/
def keyword (w : String) : Writing Unit := modify (·.sign (.keyword w) w)

/-- Goes to a place in the file. -/
def goto (pos : Pos) : Writing Unit := modify (·.goto pos)

/-- Writes a sign that stands at a place. -/
def signAt (pos : Pos) (s : String) : Writing Unit := do
  goto pos
  sign s

/-- Writes a name. -/
def ident (i : Ident) : Writing Unit := do
  goto i.start
  modify (·.name i.name)

/-- Takes up comments from the syntax. -/
def comments (g : Option CommentGroup) : Writing Unit := modify (·.takeComments g)

/-- The line of a place in the file. -/
def lineOf (pos : Pos) : Writing Int := return (← get).line pos

/-- Whether comments come before a place. -/
def hasCommentBefore (pos : Pos) : Writing Bool := do
  let p ← get
  return p.hasComment (p.place pos)

/-- Forbids blanks and line ends between comments and words, or allows them again. -/
def setOmissions (blank lineEnd : Bool) : Writing Unit :=
  modify fun p => { p.noteOpening with omitsBlank := blank, omitsBreak := lineEnd }

/-! ## Line ends -/

/-- So many gaps. -/
def gaps (g : Gap) : Nat → Writing Unit
  | 0 => pure ()
  | n + 1 => do
    gap g
    gaps g n

/-- Ends lines as the file does up to a line, at least so many and at most two, behind a gap. If
`endsSection`, columns end here. The result is more than one if they do. -/
def breakTo (line least : Int) (before : Gap) (endsSection : Bool) : Writing Nat := do
  let n := (max (min (line - (← get).pos.line) maxLineEnds) least).toNat
  if n = 0 then return 0
  gap before
  if endsSection then
    gap .section
    gaps .newline (n - 1)
    return n + 1
  else
    gaps .newline n
    return n

/-- A place to keep a line of the page. -/
def newSlot : Writing Nat := do
  let slot := (← get).kept.size
  modify fun p => { p with kept := p.kept.push 0 }
  return slot

/-- Keeps the line of the next word. -/
def keepLine (slot : Nat) : Writing Unit := modify fun p => { p with slot := some slot }

/-- How many lines the page has gone on since a line was kept. -/
def linesSince (slot : Nat) : Writing Int := do
  let p ← get
  return p.out.line - p.kept[slot]?.getD 0

/-- Takes a line that was kept for a later one. -/
def moveKept (slot : Nat) (count : Nat) : Writing Unit :=
  modify fun p => { p with kept := p.kept.modify slot (· + (count : Int)) }

/-! ## Sizes -/

/-- An empty page on which the size of a part of another is tried out. -/
def trialPage (p : Page) : Page :=
  { lines := p.lines, hasStandardNumbers := false, takesComments := true, isTrial := true }

/-- The size of what is written on a line of its own, or one more than a limit if it takes several
lines or is longer. -/
def sizeOf (limit : Nat) (indent : Int) (write : Writing Unit) : Writing Nat := do
  let trial := { trialPage (← get) with indent }
  let written := Sheet.trimmed (write.run trial).2.finish.sheet.reverse
  let size := written.length
  return if limit < size || written.any Sheet.isLineEnd then limit + 1 else size

/-- The size of an expression. -/
def exprSize (within : Within) (limit : Nat) (e : Expr) : Writing Nat :=
  sizeOf limit 0 (within.expr e)

/-- The size of a statement. -/
def stmtSize (within : Within) (limit : Nat) (s : Stmt) : Writing Nat :=
  let indent := match s.form with
    | .labeled .. => 1
    | _ => 0
  sizeOf limit indent (within.stmt s false)

end Writing

end YaccTables.Code
