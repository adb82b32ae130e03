import YaccTables.Code.Reading.Specs

/-!
# Reading statements
-/

namespace YaccTables.Code.Reading

variable (inside : Inside)

/-! ## Simple statements -/

/-- The signs that assign. -/
def assignSigns : List String :=
  [":=", "=", "+=", "-=", "*=", "/=", "%=", "&=", "|=", "^=", "<<=", ">>=", "&^="]

/-- A simple statement, or the clause of a loop that goes over a range. -/
inductive Simple
  | stmt (s : Stmt)
  | range (left : List Expr) (signPos : Pos) (sign : String) (operand : Expr)

/-- What follows a single expression. -/
def afterExpr (x : Expr) : Reading Stmt := do
  let kind ← nextKind
  match kind with
  | .sign "<-" =>
    let arrow ← expectSign "<-"
    return .mk x.start (.send x arrow (← inside.expr))
  | .sign "++" => return .mk x.start (.step x (← expectSign "++") "++")
  | .sign "--" => return .mk x.start (.step x (← expectSign "--") "--")
  | .sign ":" => misfit
  | _ => return .mk x.start (.expression x)

/-- What follows the expressions on the left. Only a loop may go over a range. -/
def afterExprs (inLoop : Bool) (left : List Expr) : Reading Simple := do
  let start := (left.head?.map Expr.start).getD 0
  let kind ← nextKind
  match kind, left with
  | .sign s, _ =>
    if assignSigns.contains s then
      let signPos ← expect kind
      if inLoop && (s == ":=" || s == "=") && (← atKeyword "range") then
        advance
        return .range left signPos s (← inside.expr)
      else return .stmt (.mk start (.assign left signPos s (← exprList inside)))
    else match left with
      | [x] => return .stmt (← afterExpr inside x)
      | _ => misfit
  | _, [x] => return .stmt (← afterExpr inside x)
  | _, _ => misfit

/-- A simple statement. -/
def simple : Reading Stmt := do
  match ← afterExprs inside false (← exprList inside) with
  | .stmt s => return s
  | .range .. => misfit

/-- A simple or labeled statement. -/
def simpleOrLabeled : Reading Stmt := do
  let left ← exprList inside
  match left.map Expr.ident?, ← nextKind with
  | [some label], .sign ":" =>
    let colon ← expectSign ":"
    return .mk label.start (.labeled label colon (← (inside ()).stmt))
  | _, _ =>
    match ← afterExprs inside false left with
    | .stmt s =>
      let _ ← expectStop
      return s
    | .range .. => misfit

/-- The expression that a statement consists of. -/
def exprOf (s : Stmt) : Reading Expr :=
  match s.form with
  | .expression e => return e
  | _ => misfit

/-- The expression that a statement consists of, if there is one. -/
def exprOf? : Option Stmt → Reading (Option Expr)
  | none => return none
  | some s => some <$> exprOf s

/-! ## Short statements -/

/-- A call that is deferred or runs beside. -/
def callStmt (keyword : String) : Reading Stmt := do
  let start ← expectKeyword keyword
  let x ← inside.expr
  match x.form with
  | .call .. =>
    let _ ← expectStop
    return .mk start (.call keyword x)
  | _ => misfit

/-- The end of a function with its results. -/
def resultStmt : Reading Stmt := do
  let start ← expectKeyword "return"
  let results ← if (← atStop) || (← atSign "\x7d") then pure [] else exprList inside
  let _ ← expectStop
  return .mk start (.result results)

/-- A jump, which may name a label. -/
def branchStmt (keyword : String) : Reading Stmt := do
  let start ← expectKeyword keyword
  let isNamed := keyword == "goto" ||
    ((keyword == "continue" || keyword == "break") && (← atKind .name))
  let label ← if isNamed then some <$> ident else pure none
  let _ ← expectStop
  return .mk start (.branch keyword label)

/-! ## Blocks -/

/-- Whether a word ends a list of statements. -/
def isListEnd (k : Kind) : Bool :=
  k == .keyword "case" || k == .keyword "default" || k == .sign "\x7d" || k == .finish

/-- Statements up to the end of a block or case. -/
def stmtList : Reading (List Stmt) := repeatWhile (!isListEnd ·) (inside ()).stmt

/-- A block. -/
def block : Reading (Block Stmt) := do
  let opening ← expectSign "\x7b"
  let list ← stmtList inside
  let closing ← expectSign "\x7d"
  return { opening, list, closing }

/-- A block of cases. -/
def caseBlock (clause : Reading Stmt) : Reading (Block Stmt) := do
  let opening ← expectSign "\x7b"
  let list ← repeatWhile (fun k => k == .keyword "case" || k == .keyword "default") clause
  let closing ← expectSign "\x7d"
  let _ ← expectStop
  return { opening, list, closing }

/-! ## Choices -/

/-- The header of a choice: a simple statement that may be left out, and the condition. -/
def choiceHeader : Reading (Option Stmt × Expr) := do
  if ← atSign "\x7b" then misfit
  inHeader do
    let first ← if ← atStop then pure none else some <$> simple inside
    if ← atSign "\x7b" then
      match first with
      | some s => return (none, ← exprOf s)
      | none => misfit
    else if ← atStop then
      advance
      if ← atSign "\x7b" then misfit
      return (first, ← exprOf (← simple inside))
    else misfit

/-- A choice. What happens otherwise is a block or another choice. -/
def choiceStmt : Reading Stmt := do
  let start ← expectKeyword "if"
  let (init, cond) ← choiceHeader inside
  let body ← block inside
  if ← atKeyword "else" then
    advance
    if ← atKeyword "if" then
      return .mk start (.choice init cond body (some (← (inside ()).stmt)))
    let other ← block inside
    let _ ← expectStop
    return .mk start (.choice init cond body (some (.mk other.opening (.block other))))
  let _ ← expectStop
  return .mk start (.choice init cond body none)

/-- A case of a switch. -/
def caseClause : Reading Stmt := do
  let start := (← peek).start
  let list ← if ← atKeyword "case" then do
      advance
      exprList inside
    else do
      let _ ← expectKeyword "default"
      pure []
  let colon ← expectSign ":"
  return .mk start (.case list colon (← stmtList inside))

/-- Whether an expression asks for the type of a value. -/
def asksForType (e : Expr) : Bool :=
  match e.form with
  | .assertion _ _ none _ => true
  | _ => false

/-- Whether a switch with a statement in its header goes by the type of a value. -/
def goesByType (s : Stmt) : Reading Bool :=
  match s.form with
  | .expression e => return asksForType e
  | .assign [_] _ sign [right] =>
    if !asksForType right then return false
    else if sign == ":=" then return true
    else if sign == "=" then misfit
    else return false
  | _ => return false

/-- The header of a switch: a simple statement and what decides, both of which may be left out. -/
def switchHeader : Reading (Option Stmt × Option Stmt) := do
  if ← atSign "\x7b" then return (none, none)
  inHeader do
    let first ← if ← atStop then pure none else some <$> simple inside
    if ← atStop then
      advance
      if ← atSign "\x7b" then return (first, none) else return (first, some (← simple inside))
    else return (none, first)

/-- A switch. -/
def switchStmt : Reading Stmt := do
  let start ← expectKeyword "switch"
  let (init, tag) ← switchHeader inside
  match tag with
  | some s =>
    if ← goesByType s then
      return .mk start (.typeSwitch init s (← caseBlock (caseClause inside)))
  | none => pure ()
  let body ← caseBlock (caseClause inside)
  return .mk start (.switch init (← exprOf? tag) body)

/-- A case of a selection. -/
def communicationClause : Reading Stmt := do
  let start := (← peek).start
  let comm ← if ← atKeyword "case" then do
      advance
      let left ← exprList inside
      let first := (left.head?.map Expr.start).getD 0
      let kind ← nextKind
      match kind, left with
      | .sign "<-", [x] => some <$> afterExpr inside x
      | .sign "=", _ | .sign ":=", _ =>
        if 2 < left.length then misfit
        let signPos ← expect kind
        let right ← inside.expr
        let sign := if kind == .sign "=" then "=" else ":="
        pure (some (.mk first (.assign left signPos sign [right])))
      | _, [x] => pure (some (.mk first (.expression x)))
      | _, _ => misfit
    else do
      let _ ← expectKeyword "default"
      pure none
  let colon ← expectSign ":"
  return .mk start (.communication comm colon (← stmtList inside))

/-- A selection. -/
def selectStmt : Reading Stmt := do
  let start ← expectKeyword "select"
  return .mk start (.select (← caseBlock (communicationClause inside)))

/-! ## Loops -/

/-- The header of a loop. -/
inductive LoopHeader
  | plain (init : Option Stmt) (cond : Option Expr) (post : Option Stmt)
  | range (key value : Option Expr) (signPos : Pos) (sign : String) (operand : Expr)

/-- The first statement of a loop's header, if it is not left out. -/
def firstOfLoop : Reading (Option Simple) := do
  if ← atStop then return none
  if ← atKeyword "range" then
    advance
    return some (.range [] 0 "" (← inside.expr))
  return some (← afterExprs inside true (← exprList inside))

/-- The header of a loop behind its first statement. -/
def loopHeaderFrom (first : Option Stmt) : Reading LoopHeader := do
  if ← atStop then
    advance
    let cond ← if ← atStop then pure none else some <$> simple inside
    let _ ← expectStop
    let post ← if ← atSign "\x7b" then pure none else some <$> simple inside
    return .plain first (← exprOf? cond) post
  else return .plain none (← exprOf? first) none

/-- The header of a loop. -/
def loopHeader : Reading LoopHeader := do
  if ← atSign "\x7b" then return .plain none none none
  inHeader do
    match ← firstOfLoop inside with
    | some (.range left signPos sign operand) =>
      match left with
      | [] => return .range none none signPos sign operand
      | [key] => return .range (some key) none signPos sign operand
      | [key, value] => return .range (some key) (some value) signPos sign operand
      | _ => misfit
    | some (.stmt s) => loopHeaderFrom inside (some s)
    | none => loopHeaderFrom inside none

/-- A loop. -/
def loopStmt : Reading Stmt := do
  let start ← expectKeyword "for"
  let header ← loopHeader inside
  let body ← block inside
  let _ ← expectStop
  match header with
  | .plain init cond post => return .mk start (.loop init cond post body)
  | .range key value signPos sign operand =>
    return .mk start (.range key value signPos sign operand body)

/-! ## All statements -/

/-- Whether a simple statement starts with a word of a kind. -/
def startsSimple : Kind → Bool
  | .name | .integer | .decimalPoint | .imaginary | .character | .text => true
  | .keyword w => ["func", "struct", "map", "chan", "interface"].contains w
  | .sign s => ["(", "[", "+", "-", "*", "&", "^", "<-", "!"].contains s
  | _ => false

/-- A statement. -/
def stmt : Reading Stmt := do
  let l ← peek
  match l.kind with
  | .keyword w =>
    match w with
    | "const" | "type" | "var" =>
      return .mk l.start (.declaration (← declGroup inside w))
    | "go" | "defer" => callStmt inside w
    | "return" => resultStmt inside
    | "break" | "continue" | "goto" | "fallthrough" => branchStmt w
    | "if" => choiceStmt inside
    | "switch" => switchStmt inside
    | "select" => selectStmt inside
    | "for" => loopStmt inside
    | _ => if startsSimple l.kind then simpleOrLabeled inside else misfit
  | .sign "\x7b" =>
    let b ← block inside
    let _ ← expectStop
    return .mk l.start (.block b)
  | .stop _ =>
    advance
    return .mk l.start .empty
  | .sign "\x7d" => return .mk l.start .empty
  | kind => if startsSimple kind then simpleOrLabeled inside else misfit

end YaccTables.Code.Reading
