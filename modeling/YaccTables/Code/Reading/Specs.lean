import YaccTables.Code.Reading.Exprs

/-!
# Reading declarations of packages, constants, variables and types
-/

namespace YaccTables.Code.Reading

variable (inside : Inside)

/-- A list of expressions. -/
def exprList : Reading (List Expr) := commaList inside.expr

/-- A package that is imported, perhaps under another name. -/
def packageSpec (doc : Option CommentGroup) : Reading (Spec Expr) := do
  let name ← match ← nextKind with
    | .name => some <$> ident
    | .sign "." => do
      let start ← expectSign "."
      pure (some ⟨start, utf8 "."⟩)
    | _ => pure none
  if !(← atKind .text) then misfit
  let path ← literal
  let remark ← expectStop
  return .package { doc, name, path, remark }

/-- The values behind an equals sign, if there is one. -/
def values : Reading (List Expr) := do
  if ← atSign "=" then
    advance
    exprList inside
  else return []

/-- Constants. Both type and values may be left out. -/
def constantSpec (doc : Option CommentGroup) : Reading (Spec Expr) := do
  let names ← commaList ident
  let type ← (inside ()).type?
  let values ← values inside
  let remark ← expectStop
  return .value doc names type values remark

/-- Variables with a type or values. -/
def variableSpec (doc : Option CommentGroup) : Reading (Spec Expr) := do
  let names ← commaList ident
  let type ← if ← atSign "=" then pure none else some <$> inside.type
  let values ← values inside
  let remark ← expectStop
  return .value doc names type values remark

/-! ## Types

Behind the name of a type, a square bracket opens the length of an array or parameters for types.
What begins with a name is read as an expression first: it may be a length, or the name of a
parameter and its constraint. -/

/-- Splits an expression that may be a name before a type into the two, if the type can be nothing
else or if `isForced`. A name alone has no type. -/
def splitName? (isForced : Bool) : Expr → Option (Ident × Option Expr)
  | .mk start stop form =>
    match form with
    | .name name => some (⟨start, name⟩, none)
    | .binary left "*" signPos right =>
      if isForced || right.isTypeElement then
        left.ident?.map fun name => (name, some (.mk signPos right.stop (.star right)))
      else none
    | .binary left "|" signPos right =>
      match splitName? (isForced || right.isTypeElement) left with
      | some (name, some first) =>
        some (name, some (.mk first.start right.stop (.binary first "|" signPos right)))
      | _ => none
    | .call operand opening [arg] 0 closing =>
      if isForced || arg.isTypeElement then
        operand.ident?.map fun name => (name, some (.mk opening stop (.paren arg closing)))
      else none
    | _ => none

/-- What stands for a type behind the name and the parameters of its declaration. -/
def typeBody : Reading (Pos × Expr) := do
  let assign ← if ← atSign "=" then expectSign "=" else pure 0
  return (assign, ← inside.type)

/-- The parameters of a type whose first name, perhaps with its constraint, has been read. -/
def typeParamsFrom (opening : Pos) (name : Ident) (type : Option Expr) :
    Reading (Members Expr) := do
  let first := match type with
    | some type => do return ⟨some name, some (← constraint inside (some type))⟩
    | none => paramAfterName inside true name
  let list ← paramList inside (some first) "]"
  let closing ← expectSign "]"
  return { opening, list, closing }

/-- The expression that a name in square brackets begins. -/
def lengthOrParam : Reading Expr := do
  let name ← ident
  if ← atSign "[" then return name.expr
  deeper do binary inside 1 (← primary inside name.expr)

/-- The parameters and the type that follow the name of a type. -/
def typeAfterName : Reading (Option (Members Expr) × Pos × Expr) := do
  if !(← atSign "[") then return (none, ← typeBody inside)
  let opening ← expectSign "["
  if !(← atKind .name) then return (none, 0, ← arrayType inside opening none)
  let x ← lengthOrParam inside
  match splitName? (← atSign ",") x with
  | some (name, type) =>
    if type.isSome || !(← atSign "]") then
      let params ← typeParamsFrom inside opening name type
      return (some params, ← typeBody inside)
    else return (none, 0, ← arrayType inside opening (some x))
  | none => return (none, 0, ← arrayType inside opening (some x))

/-- A type. -/
def typeSpec (doc : Option CommentGroup) : Reading (Spec Expr) := do
  let name ← ident
  let (params, assign, type) ← typeAfterName inside
  let remark ← expectStop
  return .type doc name params assign type remark

/-! ## Groups -/

/-- The reader for what a keyword declares. -/
def specFor (keyword : String) (doc : Option CommentGroup) : Reading (Spec Expr) :=
  match keyword with
  | "import" => packageSpec doc
  | "const" => constantSpec inside doc
  | "var" => variableSpec inside doc
  | _ => typeSpec inside doc

/-- Whether a word closes a group. -/
def isGroupEnd (k : Kind) : Bool := k == .sign ")" || k == .finish

/-- What a keyword declares, alone or in round brackets. -/
def declGroup (keyword : String) : Reading (DeclGroup Expr) := do
  let doc := (← peek).doc
  let start ← expectKeyword keyword
  if ← atSign "(" then
    let opening ← expectSign "("
    let specs ← repeatWhile (!isGroupEnd ·) do specFor inside keyword (← peek).doc
    let closing ← expectSign ")"
    let _ ← expectStop
    return { doc, start, keyword, opening, specs, closing }
  else return { doc, start, keyword, specs := [← specFor inside keyword none] }

end YaccTables.Code.Reading
