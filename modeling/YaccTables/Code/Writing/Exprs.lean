import YaccTables.Code.Literal
import YaccTables.Code.Writing.Blocks
import YaccTables.Code.Writing.Lists

/-!
# Writing expressions

The depth of an expression decides where blanks go around signs: the deeper, the fewer. Signs that
bind more tightly than the cutoff of an expression have none.
-/

namespace YaccTables.Code

/-! ## Signs between operands -/

/-- How tightly the sign of an expression binds its two operands. -/
def Expr.signPrecedence? : Expr → Option Nat
  | .mk _ _ (.binary _ sign _ _) => some (precedence (.sign sign))
  | _ => none

/-- Which signs stand in an expression without brackets. -/
structure SignSurvey where
  /-- Whether there are signs like plus, and signs like times. -/
  hasSums : Bool := false
  hasProducts : Bool := false
  /-- How tightly signs bind that would run into the sign of the operand behind them. -/
  clash : Nat := 0

/-- What two surveys say together. -/
def SignSurvey.union (a b : SignSurvey) : SignSurvey :=
  ⟨a.hasSums || b.hasSums, a.hasProducts || b.hasProducts, max a.clash b.clash⟩

/-- How tightly a sign binds if it would run into the sign of the operand behind it. -/
def clashWith (sign : String) (right : Expr) : Nat :=
  match right.form with
  | .star _ => if sign == "/" then 5 else 0
  | .unary inner _ =>
    if ["&&", "&^"].contains (sign ++ inner) then 5
    else if ["++", "--"].contains (sign ++ inner) then 4
    else 0
  | _ => 0

/-- The signs of an expression. Operands that would be in brackets are left out. -/
def signSurvey : Expr → SignSurvey
  | .mk _ _ form =>
    match form with
    | .binary left sign _ right =>
      let own := precedence (.sign sign)
      let here : SignSurvey := ⟨own == 4, own == 5, clashWith sign right⟩
      let below (isFit : Nat → Bool) (e : Expr) (s : SignSurvey) : SignSurvey :=
        if e.signPrecedence?.any isFit then s else {}
      (here.union (below (own ≤ ·) left (signSurvey left))).union
        (below (own < ·) right (signSurvey right))
    | _ => {}

/-- Signs that bind at least as tightly as this have no blanks around them. -/
def cutoff (e : Expr) (depth : Nat) : Nat :=
  let s := signSurvey e
  if 0 < s.clash then s.clash + 1
  else if s.hasSums && s.hasProducts then (if depth = 1 then 5 else 4)
  else if depth = 1 then 6
  else 4

namespace Writing

variable (within : Within)

/-- Writes an expression whose operand binds most tightly. -/
def operand (e : Expr) (depth : Nat) : Writing Unit := (within ()).expr e highestPrecedence depth

/-- Writes something in brackets. -/
def bracketed (write : Writing Unit) : Writing Unit := do
  sign "("
  write
  sign ")"

/-- Writes a sign between its operands. The right one is indented if it is on a line of its own. -/
def binaryExpr (e left : Expr) (word : String) (wordPos : Pos) (right : Expr)
    (least depth : Nat) : Writing Unit := do
  let own := precedence (.sign word)
  if own < least then
    bracketed (within.exprAt e (max 1 (depth - 1)))
  else
    let hasBlanks := own < cutoff e depth
    let leftDepth := if left.signPrecedence? == some own then depth else depth + 1
    (within ()).expr left own leftDepth
    if hasBlanks then gap .blank
    let leftLine := (← get).pos.line
    let rightLine ← lineOf right.start
    signAt wordPos word
    let n ← if leftLine ≠ rightLine && 0 < leftLine && 0 < rightLine then
        breakTo rightLine 1 .indent true
      else pure 0
    if hasBlanks && n = 0 then gap .blank
    (within ()).expr right (own + 1) (depth + 1)
    if 0 < n then gap .unindent

/-! ## Selectors, indices and calls -/

/-- Writes a selector and tells whether its member is on a line of its own. The indentation of that
line is taken back unless `staysIndented`. -/
def selector (left : Expr) (member : Ident) (depth : Nat) (staysIndented : Bool) :
    Writing Bool := do
  operand within left depth
  sign "."
  let line := (← get).pos.line
  if 0 < line && line < (← lineOf member.start) then
    gap .indent
    gap .newline
    ident member
    if !staysIndented then gap .unindent
    return true
  ident member
  return false

/-- Writes a part of a slice and the colon before it. -/
def slicePart (depth : Nat) (hasBlanks : Bool) (before part : Option Expr) : Writing Unit := do
  if before.isSome && hasBlanks then gap .blank
  sign ":"
  match part with
  | none => pure ()
  | some e =>
    if hasBlanks then gap .blank
    within.exprAt e (depth + 1)

/-- Writes a slice. Colons have blanks around them if there are several parts, one of them with a
sign between operands. -/
def slice (left : Expr) (opening : Pos) (low high last : Option Expr) (closing : Pos)
    (depth : Nat) : Writing Unit := do
  operand within left 1
  signAt opening "["
  let parts := [low, high, last].filterMap id
  let hasBlanks := depth ≤ 1 && 1 < parts.length && parts.any (·.signPrecedence?.isSome)
  match low with
  | some e => within.exprAt e (depth + 1)
  | none => pure ()
  slicePart within depth hasBlanks low high
  if last.isSome then slicePart within depth hasBlanks high last
  signAt closing "]"

/-- Whether a type needs brackets before the arguments of a conversion. -/
def needsBrackets (e : Expr) : Bool :=
  match e.form with
  | .functionType _ => true
  | .channel direction _ _ => direction == .receive
  | _ => false

/-- Writes what is called, and tells whether an indentation stays. -/
def callee (e : Expr) (depth : Nat) : Writing Bool := do
  match e.form with
  | .selector left member => selector within left member depth true
  | _ =>
    if needsBrackets e then bracketed (operand within e depth) else operand within e depth
    return false

/-- Writes a call. -/
def call (e : Expr) (opening : Pos) (args : List Expr) (dots closing : Pos) (depth : Nat) :
    Writing Unit := do
  let depth := if 1 < args.length then depth + 1 else depth
  let isIndented ← callee within e depth
  signAt opening "("
  if dots ≠ 0 then
    exprList within opening args depth {} dots
    signAt dots "..."
    if (← lineOf dots) < (← lineOf closing) then
      sign ","
      gap .section
  else exprList within opening args depth { endsWithComma := true } closing
  signAt closing ")"
  if isIndented then gap .unindent

/-- Writes a composite literal. A comment before its end stays on the line: there may be no comma
before it. -/
def composite (type : Option Expr) (opening : Pos) (elements : List Expr) (closing : Pos)
    (depth : Nat) : Writing Unit := do
  match type with
  | some t => operand within t depth
  | none => pure ()
  modify fun p => { p with level := p.level + 1 }
  signAt opening "\x7b"
  exprList within opening elements 1 { endsWithComma := true } closing
  gap .indent
  gap .unindent
  setOmissions (!elements.isEmpty) true
  signAt closing "\x7d"
  setOmissions false false
  modify fun p => { p with level := p.level - 1 }

/-! ## All expressions -/

/-- Writes a channel. -/
def channel (direction : Direction) (arrow : Pos) (value : Expr) : Writing Unit := do
  match direction with
  | .both => keyword "chan"
  | .receive =>
    sign "<-"
    keyword "chan"
  | .send =>
    keyword "chan"
    signAt arrow "<-"
  gap .blank
  within.expr value

/-- Whether a literal is a number. -/
def isNumber : Kind → Bool
  | .integer | .decimalPoint | .imaginary => true
  | _ => false

/-- Writes an expression. Signs that bind less tightly than `least` are in brackets. -/
def expr (e : Expr) (least depth : Nat) : Writing Unit := do
  goto e.start
  match e.form with
  | .name name => modify (·.name name)
  | .literal kind text =>
    let isStandard := (← get).hasStandardNumbers && isNumber kind
    modify (·.literal kind (if isStandard then standardNumber text else text))
  | .binary left word wordPos right => binaryExpr within e left word wordPos right least depth
  | .pair key colon value =>
    within.expr key
    signAt colon ":"
    gap .blank
    within.expr value
  | .star inner =>
    if unaryPrecedence < least then
      bracketed do
        sign "*"
        within.expr inner
    else
      sign "*"
      within.expr inner
  | .unary word inner =>
    if unaryPrecedence < least then bracketed (within.expr e)
    else
      sign word
      (within ()).expr inner unaryPrecedence depth
  | .function s block =>
    keyword "func"
    let column := (← get).out.column - 4
    signature within s
    routineBody within (← distanceFrom e.start column) .blank block
  | .paren inner closing =>
    match inner.form with
    | .paren .. => within.exprAt inner depth
    | _ =>
      sign "("
      within.exprAt inner (max 1 (depth - 1))
      signAt closing ")"
  | .selector left member =>
    let _ ← selector within left member depth false
  | .assertion left opening type closing =>
    operand within left depth
    sign "."
    signAt opening "("
    match type with
    | some t => within.expr t
    | none => keyword "type"
    signAt closing ")"
  | .index left opening args closing =>
    operand within left 1
    signAt opening "["
    match args with
    | [arg] => within.exprAt arg (depth + 1)
    | _ => exprList within opening args (depth + 1) { endsWithComma := true } closing
    signAt closing "]"
  | .slice left opening low high last closing =>
    slice within left opening low high last closing depth
  | .call left opening args dots closing => call within left opening args dots closing depth
  | .composite type opening elements closing =>
    composite within type opening elements closing depth
  | .dots element =>
    sign "..."
    match element with
    | some t => within.expr t
    | none => pure ()
  | .array length element =>
    sign "["
    match length with
    | some n => within.expr n
    | none => pure ()
    sign "]"
    within.expr element
  | .struct fields =>
    keyword "struct"
    members within true fields
  | .interface methods =>
    keyword "interface"
    members within false methods
  | .functionType s =>
    keyword "func"
    signature within s
  | .map key value =>
    keyword "map"
    sign "["
    within.expr key
    sign "]"
    within.expr value
  | .channel direction arrow value => channel within direction arrow value

end Writing

end YaccTables.Code
