import YaccTables.Code.Likeness
import YaccTables.Code.Writing

/-!
# Writing lists

Lists of expressions, parameters and fields. A list breaks its lines where the file does. Keys and
values that start lines stand in columns as long as the sizes of the keys are alike.
-/

namespace YaccTables.Code

/-- How a list of expressions is written. -/
structure ListStyle where
  /-- Whether further lines are indented. -/
  indents : Bool := true
  /-- Whether a comma follows the last expression if its line ends there. -/
  endsWithComma : Bool := false

/-- How far a list of expressions has been written. -/
structure ListState where
  /-- What goes before the next line end: an indentation, if there has been none. -/
  before : Gap
  /-- The number of expressions through the last that starts a line. -/
  broken : Nat := 0
  index : Nat := 0
  /-- The size of the last expression or its key; zero if it takes several lines. -/
  size : Nat := 0
  likeness : Likeness := {}
  /-- The line in the file of the last expression. -/
  line : Int

namespace Writing

variable (within : Within)

/-! ## Expressions -/

/-- A size that no line has. -/
def fullLine : Nat := 1000000

/-- The size that counts when columns are made: that of the key if there is one, and zero if the
whole takes several lines. Where a trial is sure to take several lines already, columns do not
matter. -/
def itemSize (e : Expr) : Writing Nat := do
  let p ← get
  if p.isTrial && p.comments.isEmpty && p.hasBreak then return 0
  let size ← exprSize within fullLine e
  if fullLine < size then return 0
  match e.form with
  | .pair key _ _ => exprSize within fullLine key
  | _ => return size

/-- Writes the comma before an expression at a place, and the end of the line if `breaks`. -/
def separate (start : Pos) (line : Int) (breaks endsSection : Bool) (s : ListState) :
    Writing ListState := do
  if !breaks then goto start
  sign ","
  let n ← if breaks then breakTo line 0 s.before (endsSection || s.broken < s.index) else pure 0
  if n = 0 then
    gap .blank
    return s
  return { s with
    before := .none
    broken := s.index + 1
    likeness := if 1 < n then {} else s.likeness }

/-- Writes an expression of a list. A key and its value stand in columns if they start a line. -/
def listItem (depth : Nat) (isColumned : Bool) (e : Expr) : Writing Unit := do
  match isColumned, e.form with
  | true, .pair key colon value =>
    within.expr key
    signAt colon ":"
    gap .cell
    within.expr value
  | _, _ => within.exprAt e depth

/-- Writes one expression after the other. Sizes are looked at if `hasSizes`. -/
def listItems (depth : Nat) (hasSizes isAlone : Bool) :
    List Expr → ListState → Writing ListState
  | [], s => return s
  | e :: rest, s => do
    let line ← lineOf e.start
    let size ← if hasSizes then itemSize within e else pure 0
    let isAlike := 0 < s.size && 0 < size && s.likeness.admits s.size size
    let breaks := decide (0 < s.line ∧ s.line < line)
    let s ← if s.index = 0 then pure s else separate e.start line breaks (!isAlike) s
    listItem within depth (!isAlone && 0 < size && breaks) e
    listItems depth hasSizes isAlone rest { s with
      index := s.index + 1
      size
      likeness := if 0 < size then s.likeness.extend size else s.likeness
      line }

/-- Writes expressions that are on one line, a comma and a blank between each two. -/
def plainItems (depth : Nat) : List Expr → Writing Unit
  | [] => pure ()
  | [e] => within.exprAt e depth
  | e :: next :: rest => do
    within.exprAt e depth
    signAt next.start ","
    gap .blank
    plainItems depth (next :: rest)

/-- Writes a list of expressions between two places, either of which may be absent. -/
def exprList (before : Pos) (list : List Expr) (depth : Nat) (style : ListStyle) (after : Pos) :
    Writing Unit := do
  match list.head?, list.getLast? with
  | some first, some last =>
    let beforeLine ← lineOf before
    let line ← lineOf first.start
    if before ≠ 0 && beforeLine == line && line == (← lineOf last.stop) then
      plainItems within depth list
    else
      let gapBefore : Gap := if style.indents then .indent else .none
      let n ← if before ≠ 0 && beforeLine < line then breakTo line 0 gapBefore true else pure 0
      let s : ListState :=
        if 0 < n then { before := .none, broken := 1, line := beforeLine }
        else { before := gapBefore, line := beforeLine }
      let s ← listItems within depth (before ≠ 0 && after ≠ 0) (list.length == 1) list s
      let isIndented := s.before == .none && style.indents
      if style.endsWithComma && after ≠ 0 && (← get).pos.line < (← lineOf after) then
        sign ","
        if isIndented then gap .unindent
        gap .section
      else if isIndented then gap .unindent
  | _, _ => pure ()

/-- Writes a list of names. -/
def identList (names : List Ident) (indents : Bool) : Writing Unit :=
  exprList within 0 (names.map Ident.expr) 1 { indents } 0

/-! ## Parameters -/

/-- What parameters are for. -/
inductive ParamRole
  | values
  /-- Types that a function takes. -/
  | types
  /-- Types that a type takes. -/
  | typesOfType
  deriving DecidableEq, Repr

/-- Whether a name and a type behind it read as one expression. -/
def joinsName : Expr → Bool
  | .mk _ _ form =>
    match form with
    | .star operand => !operand.isTypeElement
    | .binary left _ _ right => joinsName left && !right.isTypeElement
    | .paren inner _ => !inner.isTypeElement
    | _ => false

/-- Writes one parameter after the other. `line` is that where the last one ended, and `before` goes
before the next line end; the result is what they are in the end. -/
def paramItems : List (Member Expr) → Bool → Gap → Int → Writing (Gap × Int)
  | [], _, before, line => return (before, line)
  | m :: rest, isFirst, before, line => do
    let start ← lineOf m.start
    let stop ← lineOf m.stop
    let breaks := decide (0 < line ∧ line < start)
    if !isFirst then
      if !breaks then goto m.start
      sign ","
    let n ← if breaks then breakTo start 0 before true else pure 0
    if n = 0 && !isFirst then gap .blank
    let before : Gap := if 0 < n then .none else before
    if !m.names.isEmpty then
      identList within m.names (before == .indent)
      gap .blank
    within.expr m.type.unparen
    paramItems rest false before stop

/-- Writes parameters or results. -/
def parameters (role : ParamRole) (ms : Members Expr) : Writing Unit := do
  signAt ms.opening (if role = .values then "(" else "[")
  match ms.list with
  | [] => pure ()
  | first :: _ =>
    let (before, line) ← paramItems within ms.list true .indent (← lineOf ms.opening)
    let closing ← lineOf ms.closing
    if 0 < line && line < closing then
      sign ","
      let _ ← breakTo closing 0 .none true
    else if role = .typesOfType && ms.count == 1 && joinsName first.type.unparen then
      sign ","
    if before == .none then gap .unindent
  signAt ms.closing (if role = .values then ")" else "]")

/-- Writes a signature. A single result without a name has no brackets. -/
def signature (s : Signature Expr) : Writing Unit := do
  match s.types with
  | some types => parameters within .types types
  | none => pure ()
  parameters within .values s.params
  match s.results with
  | none => pure ()
  | some results =>
    match results.list with
    | [] => pure ()
    | first :: rest =>
      gap .blank
      if rest.isEmpty && first.names.isEmpty then within.expr first.type.unparen
      else parameters within .values results

/-! ## Fields and methods -/

/-- A single field or method of at most this size may stand on the line of its braces. -/
def shortFieldSize : Nat := 30

/-- The member that stands on the line of its braces, if it is alone and short. -/
def shortMember? (ms : Members Expr) : Writing (Option (Member Expr)) := do
  match ms.list with
  | [m] =>
    if m.tag.isSome || m.remark.isSome then return none
    let size ← exprSize within shortFieldSize m.type
    let gapSize := if m.names.isEmpty then 0 else 1
    return if gapSize + size ≤ shortFieldSize then some m else none
  | _ => return none

/-- Writes names with commas between, whatever their lines. -/
def plainNames : List Ident → Writing Unit
  | [] => pure ()
  | [i] => ident i
  | i :: rest => do
    ident i
    sign ","
    gap .blank
    plainNames rest

/-- Writes a method or an embedded type. -/
def method (m : Member Expr) : Writing Unit := do
  match m.names, m.type.form with
  | name :: _, .functionType s =>
    ident name
    signature within s
  | _, _ => within.expr m.type

/-- Writes the names and the type of a field on one line. -/
def plainField (m : Member Expr) : Writing Unit := do
  plainNames m.names
  if !m.names.isEmpty then gap .blank
  within.expr m.type

/-- Writes a field in cells: its names, type and tag, and the remark on it, with a gap between. -/
def field (between : Gap) (m : Member Expr) : Writing Unit := do
  let isNamed := !m.names.isEmpty
  if isNamed then
    identList within m.names false
    gap between
  within.expr m.type
  match m.tag with
  | none => pure ()
  | some tag =>
    if isNamed && between == .cell then gap between
    gap between
    within.expr tag.expr
  if m.remark.isSome then
    gaps between (if m.tag.isSome then 0 else if isNamed then 1 else 2)
    comments m.remark

/-- Writes members on lines of their own. -/
def memberLines (write : Member Expr → Writing Unit) (slot : Nat) :
    List (Member Expr) → Bool → Writing Unit
  | [], _ => pure ()
  | m :: rest, isFirst => do
    if !isFirst then
      let _ ← breakTo (← lineOf m.start) 1 .none (0 < (← linesSince slot))
    comments m.doc
    keepLine slot
    write m
    memberLines write slot rest false

/-- Writes fields or methods between braces. -/
def members (isStruct : Bool) (ms : Members Expr) : Writing Unit := do
  let hasComments ← hasCommentBefore ms.closing
  let isOneLine := !hasComments && (← lineOf ms.opening) == (← lineOf ms.closing)
  let short ← if isOneLine then shortMember? within ms else pure none
  match isOneLine && ms.list.isEmpty, short with
  | true, _ =>
    signAt ms.opening "\x7b"
    signAt ms.closing "\x7d"
  | false, some m =>
    signAt ms.opening "\x7b"
    gap .blank
    if isStruct then plainField within m else method within m
    gap .blank
    signAt ms.closing "\x7d"
  | false, none =>
    gap .blank
    signAt ms.opening "\x7b"
    gap .indent
    if hasComments || !ms.list.isEmpty then gap .section
    let slot ← newSlot
    if isStruct then
      let between : Gap := if ms.list.length == 1 then .blank else .cell
      memberLines (field within between) slot ms.list true
    else
      memberLines (fun m => do method within m; comments m.remark) slot ms.list true
    gap .unindent
    gap .section
    signAt ms.closing "\x7d"

end Writing

end YaccTables.Code
