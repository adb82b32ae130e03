import YaccTables.Code.Writing.Specs

/-!
# Writing statements
-/

namespace YaccTables.Code

/-! ## Brackets that can be left out -/

/-- An expression or a statement. -/
inductive Part
  | expr (e : Expr)
  | stmt (s : Stmt)

/-- The types of members. -/
def Members.parts (ms : Members Expr) : List Part := ms.list.map fun m => .expr m.type

/-- The types in a signature. -/
def Signature.parts (s : Signature Expr) : List Part :=
  (s.types.map Members.parts).getD [] ++ s.params.parts ++ (s.results.map Members.parts).getD []

/-- The types and values of a declaration. -/
def Spec.parts : Spec Expr → List Part
  | .package .. => []
  | .value _ _ t values _ => t.toList.map .expr ++ values.map .expr
  | .type _ _ params _ t _ => (params.map Members.parts).getD [] ++ [.expr t]

/-- The direct parts of an expression. -/
def ExprForm.parts : ExprForm → List Part
  | .name _ | .literal .. => []
  | .paren inner _ => [.expr inner]
  | .selector operand _ => [.expr operand]
  | .index operand _ args _ => .expr operand :: args.map .expr
  | .slice operand _ low high last _ =>
    .expr operand :: (low.toList ++ high.toList ++ last.toList).map .expr
  | .assertion operand _ type _ => .expr operand :: type.toList.map .expr
  | .call operand _ args _ _ => .expr operand :: args.map .expr
  | .star operand | .unary _ operand => [.expr operand]
  | .binary left _ _ right => [.expr left, .expr right]
  | .pair key _ value => [.expr key, .expr value]
  | .composite type _ elements _ => type.toList.map .expr ++ elements.map .expr
  | .function s body => s.parts ++ body.list.map .stmt
  | .array length element => length.toList.map .expr ++ [.expr element]
  | .dots element => element.toList.map .expr
  | .struct ms | .interface ms => ms.parts
  | .functionType s => s.parts
  | .map key value => [.expr key, .expr value]
  | .channel _ _ value => [.expr value]

/-- The direct parts of a statement. -/
def StmtForm.parts : StmtForm → List Part
  | .declaration g => g.specs.flatMap Spec.parts
  | .empty | .branch .. => []
  | .labeled _ _ body => [.stmt body]
  | .expression e | .step e _ _ | .call _ e => [.expr e]
  | .send channel _ value => [.expr channel, .expr value]
  | .assign left _ _ right => (left ++ right).map .expr
  | .result results => results.map .expr
  | .block b => b.list.map .stmt
  | .choice init cond body otherwise =>
    init.toList.map .stmt ++ [.expr cond] ++ (body.list ++ otherwise.toList).map .stmt
  | .case list _ body => list.map .expr ++ body.map .stmt
  | .switch init tag body => init.toList.map .stmt ++ tag.toList.map .expr ++ body.list.map .stmt
  | .typeSwitch init guard body => (init.toList ++ guard :: body.list).map .stmt
  | .communication comm _ body => (comm.toList ++ body).map .stmt
  | .select body => body.list.map .stmt
  | .loop init cond post body =>
    cond.toList.map .expr ++ (init.toList ++ post.toList ++ body.list).map .stmt
  | .range key value _ _ operand body =>
    (key.toList ++ value.toList ++ [operand]).map .expr ++ body.list.map .stmt

/-- Whether an expression is the name of a type, perhaps of another package. -/
def Expr.isTypeName : Expr → Bool
  | .mk _ _ form =>
    match form with
    | .name _ => true
    | .selector operand _ => operand.isTypeName
    | _ => false

/-- Whether a composite literal that starts with a name is in a part of syntax, brackets left
aside, which is nested at most so deeply. -/
def Part.hasBareLiteral : Nat → Part → Bool
  | 0, _ => false
  | _ + 1, .expr (.mk _ _ (.paren ..)) => false
  | _ + 1, .expr (.mk _ _ (.composite type ..)) => type.any Expr.isTypeName
  | depth + 1, .expr (.mk _ _ form) => form.parts.any (hasBareLiteral depth)
  | depth + 1, .stmt s => s.form.parts.any (hasBareLiteral depth)

/-- An expression in the header of a statement, without the brackets around it if it needs none: a
brace behind a name would open the block. -/
def Expr.unbracket : Expr → Expr
  | .mk start stop form =>
    match form with
    | .paren inner _ =>
      if (Part.expr inner).hasBareLiteral (2 * (stop - start) + 2) then .mk start stop form
      else inner.unbracket
    | _ => .mk start stop form

namespace Writing

variable (within : Within)

/-! ## Headers -/

/-- Writes what may be absent. -/
def optional {α : Type} (write : α → Writing Unit) : Option α → Writing Unit
  | none => pure ()
  | some x => write x

/-- Writes a statement that may be absent. -/
def stmt? (s : Option Stmt) : Writing Unit := optional (within.stmt · false) s

/-- Writes the header of a statement: an expression alone or with semicolons around it, as many as
a loop has if `isLoop`. -/
def header (isLoop : Bool) (init : Option Stmt) (e : Option Expr) (post : Option Stmt) :
    Writing Unit := do
  gap .blank
  let e := e.map Expr.unbracket
  if init.isNone && post.isNone then
    optional within.expr e
    if e.isSome then gap .blank
  else
    stmt? within init
    sign ";"
    gap .blank
    optional within.expr e
    if isLoop then
      sign ";"
      gap .blank
      stmt? within post
    if (if isLoop then post.isSome else e.isSome) then gap .blank

/-! ## Results -/

/-- Whether one of several expressions starts on a line behind the one where the last ended, or else
more than one takes several lines. -/
def spreads (lines : List (Int × Int)) : Bool :=
  2 ≤ lines.length &&
    ((lines.zip lines.tail).any (fun (a, b) => a.2 < b.1) ||
      1 < lines.countP fun (start, stop) => start < stop)

/-- Writes what a function returns. -/
def results (list : List Expr) : Writing Unit := do
  let p ← get
  if spreads (list.map fun e => (p.line e.start, p.line e.stop)) then
    gap .indent
    exprList within 0 list 1 { indents := false } 0
    gap .unindent
  else exprList within 0 list 1 {} 0

/-! ## All statements -/

/-- Writes a label and the statement behind it. The label stands further to the left. -/
def labeled (label : Ident) (colon : Pos) (body : Stmt) (isLast : Bool) : Writing Unit := do
  gap .unindent
  ident label
  signAt colon ":"
  gap .indent
  if body.isEmpty && !isLast then
    gap .newline
    signAt body.start ";"
  else
    if !body.isEmpty then
      let _ ← breakTo (← lineOf body.start) 1 .none true
    within.stmt body isLast

/-- Writes a case, given how to write what it is for. -/
def caseClause (what : Option (Writing Unit)) (colon : Pos) (body : List Stmt) (isLast : Bool) :
    Writing Unit := do
  match what with
  | some write =>
    keyword "case"
    gap .blank
    write
  | none => keyword "default"
  signAt colon ":"
  stmtList within body true isLast

/-- Writes a loop over a range. -/
def rangeLoop (key value : Option Expr) (wordPos : Pos) (word : String) (operand : Expr)
    (body : Block Stmt) : Writing Unit := do
  keyword "for"
  gap .blank
  match key with
  | none => pure ()
  | some k =>
    within.expr k
    match value with
    | none => pure ()
    | some v =>
      signAt v.start ","
      gap .blank
      within.expr v
    gap .blank
    signAt wordPos word
    gap .blank
  keyword "range"
  gap .blank
  within.expr operand.unbracket
  gap .blank
  block within body true

/-- Writes a selection; an empty one without comments is on one line. -/
def selection (body : Block Stmt) : Writing Unit := do
  keyword "select"
  gap .blank
  if body.list.isEmpty && !(← hasCommentBefore body.closing) then
    signAt body.opening "\x7b"
    signAt body.closing "\x7d"
  else block within body false

/-- Writes a statement; `isLast` tells whether a closing brace comes next. -/
def stmt (s : Stmt) (isLast : Bool) : Writing Unit := do
  goto s.start
  match s.form with
  | .declaration g => declGroup within g
  | .empty => pure ()
  | .labeled label colon body => labeled within label colon body isLast
  | .expression e => within.expr e
  | .send channel arrow value =>
    within.expr channel
    gap .blank
    signAt arrow "<-"
    gap .blank
    within.expr value
  | .step e wordPos word =>
    within.exprAt e 2
    signAt wordPos word
  | .assign left wordPos word right =>
    let depth := if 1 < left.length && 1 < right.length then 2 else 1
    exprList within s.start left depth {} wordPos
    gap .blank
    signAt wordPos word
    gap .blank
    exprList within wordPos right depth {} 0
  | .call word e =>
    keyword word
    gap .blank
    within.expr e
  | .result list =>
    keyword "return"
    if !list.isEmpty then
      gap .blank
      results within list
  | .branch word label =>
    keyword word
    match label with
    | some i =>
      gap .blank
      ident i
    | none => pure ()
  | .block b => block within b true
  | .choice init cond body otherwise =>
    keyword "if"
    header within false init (some cond) none
    block within body true
    match otherwise with
    | some s =>
      gap .blank
      keyword "else"
      gap .blank
      within.stmt s isLast
    | none => pure ()
  | .case list colon body =>
    let what := if list.isEmpty then none else some (exprList within s.start list 1 {} colon)
    caseClause within what colon body isLast
  | .switch init tag body =>
    keyword "switch"
    header within false init tag none
    block within body false
  | .typeSwitch init guard body =>
    keyword "switch"
    if init.isSome then
      gap .blank
      stmt? within init
      sign ";"
    gap .blank
    within.stmt guard false
    gap .blank
    block within body false
  | .communication comm colon body =>
    caseClause within (comm.map (within.stmt · false)) colon body isLast
  | .select body => selection within body
  | .loop init cond post body =>
    keyword "for"
    header within true init cond post
    block within body true
  | .range key value wordPos word operand body =>
    rangeLoop within key value wordPos word operand body

end Writing

end YaccTables.Code
