import YaccTables.Code.Writing.Exprs

/-!
# Writing declarations of packages, constants, variables and types

Declarations in brackets are on lines of their own, their parts in columns.
-/

namespace YaccTables.Code

/-- The places of the runs of constants or variables with values in which some have a type: in these
every line has a column for it. -/
def typeColumns : List (Spec Expr) → List Bool
  | [] => []
  | s :: rest => go [s] rest
where
  /-- The columns of a run so far, last first, and of what follows it. -/
  go (run : List (Spec Expr)) : List (Spec Expr) → List Bool
    | [] => close run
    | s :: rest => if hasValues s == run.all hasValues then go (s :: run) rest
      else close run ++ go [s] rest
  close (run : List (Spec Expr)) : List Bool :=
    run.map fun s => hasValues s && run.any hasType
  hasValues : Spec Expr → Bool
    | .value _ _ _ values _ => !values.isEmpty
    | _ => false
  hasType : Spec Expr → Bool
    | .value _ _ type _ _ => type.isSome
    | _ => false

namespace Writing

variable (within : Within)

/-- Writes constants or variables in cells. They leave one for the type if `keepsType`. -/
def valueCells (names : List Ident) (type : Option Expr) (values : List Expr)
    (remark : Option CommentGroup) (keepsType : Bool) : Writing Unit := do
  identList within names false
  let hasCell := type.isSome || keepsType
  if hasCell then gap .cell
  match type with
  | some t => within.expr t
  | none => pure ()
  if !values.isEmpty then
    gap .cell
    sign "="
    gap .blank
    exprList within 0 values 1 {} 0
  if remark.isSome then
    gaps .cell (3 - (if hasCell then 1 else 0) - (if values.isEmpty then 0 else 1))
    comments remark

/-- Writes constants or variables on their own. -/
def plainValues (names : List Ident) (type : Option Expr) (values : List Expr) (indents : Bool) :
    Writing Unit := do
  identList within names indents
  match type with
  | some t =>
    gap .blank
    within.expr t
  | none => pure ()
  if !values.isEmpty then
    gap .blank
    sign "="
    gap .blank
    exprList within 0 values 1 {} 0

/-- Writes a type, its name in a cell of its own unless it is alone. -/
def typeSpec (name : Ident) (params : Option (Members Expr)) (assign : Pos) (type : Expr)
    (isAlone : Bool) : Writing Unit := do
  ident name
  match params with
  | some ms => parameters within .typesOfType ms
  | none => pure ()
  gap (if isAlone then .blank else .cell)
  if assign ≠ 0 then
    sign "="
    gap .blank
  within.expr type

/-- Writes a part of a declaration, without columns. -/
def spec (isAlone indents : Bool) : Spec Expr → Writing Unit
  | .package p => do
    comments p.doc
    match p.name with
    | some i =>
      ident i
      gap .blank
    | none => pure ()
    within.expr { p.path with text := standardPath p.path.text }.expr
    comments p.remark
    goto p.ending
  | .value doc names type values remark => do
    comments doc
    plainValues within names type values indents
    comments remark
  | .type doc name params assign type remark => do
    comments doc
    typeSpec within name params assign type isAlone
    comments remark

/-- Writes a part of a declaration that has several. -/
def specCells (keepsType : Bool) : Spec Expr → Writing Unit
  | .value doc names type values remark => do
    comments doc
    valueCells within names type values remark keepsType
  | s => spec within false false s

/-- Writes the parts of a declaration on lines of their own. -/
def specLines (write : Bool → Spec Expr → Writing Unit) (slot : Nat) :
    List (Spec Expr × Bool) → Bool → Writing Unit
  | [], _ => pure ()
  | (s, keepsType) :: rest, isFirst => do
    if !isFirst then
      let _ ← breakTo (← lineOf s.start) 1 .none (0 < (← linesSince slot))
    keepLine slot
    write keepsType s
    specLines write slot rest false

/-- Writes the parts of a declaration between brackets. -/
def specList (list : List (Spec Expr)) : Writing Unit := do
  gap .indent
  gap .section
  let slot ← newSlot
  let write : Bool → Spec Expr → Writing Unit :=
    if list.length = 1 then fun _ => spec within true false else specCells within
  specLines write slot (list.zip (typeColumns list)) true
  gap .unindent
  gap .section

/-- Writes a declaration. -/
def declGroup (g : DeclGroup Expr) : Writing Unit := do
  comments g.doc
  goto g.start
  keyword g.keyword
  gap .blank
  match g.opening, g.specs with
  | 0, [s] => spec within true true s
  | _, specs =>
    signAt g.opening "("
    if !specs.isEmpty then specList within specs
    signAt g.closing ")"

end Writing

end YaccTables.Code
