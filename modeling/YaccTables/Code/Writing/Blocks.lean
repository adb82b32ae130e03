import YaccTables.Code.Writing

/-!
# Writing blocks

Statements between braces are on lines of their own. The body of a function may stand on the line of
its header if it does so in the file and the line is not too long.
-/

namespace YaccTables.Code

/-- Whether a statement is empty. -/
def Stmt.isEmpty (s : Stmt) : Bool :=
  match s.form with
  | .empty => true
  | _ => false

/-- The number of labels before a statement. -/
def Stmt.labelCount : Stmt → Nat
  | .mk _ form =>
    match form with
    | .labeled _ _ body => body.labelCount + 1
    | _ => 0

namespace Writing

variable (within : Within)

/-- Writes statements that are not empty on lines of their own. Each ends columns if `endSections`.
`left` counts the statements, empty ones included, less those written: the last of them knows
whether a closing brace comes next. -/
def stmtLines (endSections isLast : Bool) (slot : Nat) : List Stmt → Bool → Nat → Writing Unit
  | [], _, _ => pure ()
  | s :: rest, isFirst, left => do
    if !(← get).sheet.isEmpty then
      let _ ← breakTo (← lineOf s.start) 1 .none
        (isFirst || endSections || 0 < (← linesSince slot))
    keepLine slot
    within.stmt s (isLast && left == 1)
    moveKept slot s.labelCount
    stmtLines endSections isLast slot rest false (left - 1)

/-- Writes statements, indented unless they are the cases of a switch. -/
def stmtList (list : List Stmt) (indents isLast : Bool) : Writing Unit := do
  if indents then gap .indent
  let slot ← newSlot
  stmtLines within (!indents) isLast slot (list.filter (!·.isEmpty)) true list.length
  if indents then gap .unindent

/-- Writes statements between braces. -/
def block (b : Block Stmt) (indents : Bool) : Writing Unit := do
  signAt b.opening "\x7b"
  stmtList within b.list indents true
  let _ ← breakTo (← lineOf b.closing) 1 .none true
  signAt b.closing "\x7d"

/-! ## Bodies of functions -/

/-- A body on the line of its header makes a line of at most this size. -/
def longestRoutine : Nat := 100

/-- A body on the line of its header has at most this many statements. -/
def mostStmts : Nat := 5

/-- How far the page has gone on behind a place in the file that is at a column of the page. -/
def distanceFrom (start : Pos) (column : Int) : Writing Int := do
  let p ← get
  return if 0 < p.pos.line && p.line start == p.pos.line then p.out.column - column else farAway

/-- The size of the comments before a place. -/
def commentSizeBefore (pos : Pos) : Writing Nat := do
  let p ← get
  let next := p.place pos
  let isBefore (g : CommentGroup) : Bool := { p with comments := [g] }.hasComment next
  let groups := p.comments.takeWhile isBefore
  return (groups.flatten.map (·.text.length)).foldl (· + ·) 0

/-- The size of statements on one line, as far as it is within a limit. -/
def stmtsSize (limit : Nat) : List Stmt → Bool → Nat → Writing Nat
  | [], _, size => return size
  | s :: rest, isFirst, size => do
    if limit < size then return size
    let own ← stmtSize within limit s
    stmtsSize limit rest false (size + (if isFirst then 0 else 2) + own)

/-- The size of a body on one line, if it is on one in the file and has few statements. -/
def bodySize? (b : Block Stmt) : Writing (Option Nat) := do
  if (← lineOf b.opening) ≠ (← lineOf b.closing) || mostStmts < b.list.length then return none
  some <$> stmtsSize within longestRoutine b.list true (← commentSizeBefore b.closing)

/-- Writes statements on one line. -/
def plainStmts : List Stmt → Writing Unit
  | [] => pure ()
  | [s] => within.stmt s true
  | s :: rest => do
    within.stmt s false
    sign ";"
    gap .blank
    plainStmts rest

/-- Writes a body on one line, behind a gap. -/
def plainBody (before : Gap) (b : Block Stmt) : Writing Unit := do
  gap before
  signAt b.opening "\x7b"
  if !b.list.isEmpty then
    gap .blank
    plainStmts within b.list
    gap .blank
  setOmissions false true
  signAt b.closing "\x7d"
  setOmissions false false

/-- Writes the body of a function whose header has a size. `before` parts them on one line. -/
def routineBody (headerSize : Int) (before : Gap) (b : Block Stmt) : Writing Unit := do
  let level := (← get).level
  modify fun p => { p with level := 0 }
  match ← bodySize? within b with
  | some size =>
    if headerSize + size ≤ longestRoutine then plainBody within before b
    else do
      gap .blank
      block within b true
  | none =>
    gap .blank
    block within b true
  modify fun p => { p with level }

end Writing

end YaccTables.Code
