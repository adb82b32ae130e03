import YaccTables.Code.Reading.Types

/-!
# Reading expressions
-/

namespace YaccTables.Code.Reading

variable (inside : Inside)

/-! ## Operands -/

/-- A function type, or a function if a body follows. -/
def functionOrType : Reading Expr := do
  let start ← expectKeyword "func"
  let signature ← signature inside
  if ← atSign "\x7b" then
    let body ← deeper (inside ()).block
    return .mk start body.stop (.function signature body)
  else return .mk start signature.stop (.functionType signature)

/-- A name, a literal, a function, a type or an expression in brackets. -/
def operand : Reading Expr := do
  match ← nextKind with
  | .name => return (← ident).expr
  | .integer | .decimalPoint | .imaginary | .character | .text => return (← literal).expr
  | .sign "(" =>
    let start ← expectSign "("
    let inner ← deeper inside.expr
    let closing ← expectSign ")"
    return .mk start (closing + 1) (.paren inner closing)
  | .keyword "func" => functionOrType inside
  | _ =>
    match ← type? inside with
    | some type => return type
    | none => misfit

/-! ## Composite literals -/

/-- The elements of a composite literal in braces. -/
def compositeValue (type : Option Expr) : Reading Expr := do
  let opening ← expectSign "\x7b"
  let elements ← deeper (listUntil "\x7d" (inside ()).element)
  let closing ← expectSign "\x7d"
  return .mk (startOf type opening) (closing + 1) (.composite type opening elements closing)

/-- A value in a composite literal, whose type may be left out. -/
def elementValue : Reading Expr := do
  if ← atSign "\x7b" then compositeValue inside none else inside.expr

/-- An element of a composite literal: a value, perhaps behind a key. -/
def element : Reading Expr := do
  let key ← elementValue inside
  if ← atSign ":" then
    let colon ← expectSign ":"
    let value ← elementValue inside
    return .mk key.start value.stop (.pair key colon value)
  else return key

/-- Whether a brace behind an expression begins the elements of a composite literal of that type.
In the header of a statement it begins the block instead, unless the type cannot be a value. -/
def takesElements (e : Expr) (level : Int) : Bool :=
  match e.unparen.form with
  | .name _ | .selector .. | .index .. => 0 ≤ level
  | .array .. | .struct _ | .map .. => true
  | _ => false

/-! ## Selectors, indices and calls -/

/-- A selected name or a type assertion behind its operand. -/
def selectorOrAssertion (x : Expr) : Reading Expr := do
  let _ ← expectSign "."
  if ← atKind .name then return selected x (← ident)
  let opening ← expectSign "("
  let type ← if ← atKeyword "type" then do
      advance
      pure none
    else some <$> inside.type
  let closing ← expectSign ")"
  return .mk x.start (closing + 1) (.assertion x opening type closing)

/-- An index of a slice, which may be left out. -/
def bound? : Reading (Option Expr) := do
  if (← atSign ":") || (← atSign "]") then return none else return some (← inside.expr)

/-- An index, a slice or arguments for types behind their operand. -/
def indexOrSlice (x : Expr) : Reading Expr := do
  let opening ← expectSign "["
  if ← atSign "]" then misfit
  deeper do
    let low ← bound? inside
    match ← nextKind, low with
    | .sign ":", _ =>
      advance
      let high ← bound? inside
      let max ← if ← atSign ":" then do
          advance
          let max ← inside.expr
          if high.isNone then misfit
          pure (some max)
        else pure none
      let closing ← expectSign "]"
      return .mk x.start (closing + 1) (.slice x opening low high max closing)
    | .sign ",", some first =>
      advance
      let more ← listUntil "]" inside.type
      let closing ← expectSign "]"
      return indexed x opening (first :: more) closing
    | _, some first =>
      let closing ← expectSign "]"
      return indexed x opening [first] closing
    | _, none => misfit

/-- An argument of a call, and the place of the dots behind it. -/
def argument : Reading (Expr × Pos) := do
  let arg ← inside.expr
  if ← atSign "..." then return (arg, ← expectSign "...") else return (arg, 0)

/-- A call or conversion behind its operand. Dots stand behind the last argument only. -/
def callOrConversion (x : Expr) : Reading Expr := do
  let opening ← expectSign "("
  let args ← deeper (listUntil ")" (argument inside))
  if args.dropLast.any fun (_, dots) => dots != 0 then misfit
  let closing ← expectSign ")"
  let dots := (args.getLast?.map Prod.snd).getD 0
  return .mk x.start (closing + 1) (.call x opening (args.map Prod.fst) dots closing)

/-- An operand with all that follows it, at most so much. -/
def primaryWithin : Nat → Expr → Reading Expr
  | 0, _ => misfit
  | limit + 1, x => do
    match ← nextKind with
    | .sign "." => primaryWithin limit (← selectorOrAssertion inside x)
    | .sign "[" => primaryWithin limit (← indexOrSlice inside x)
    | .sign "(" => primaryWithin limit (← callOrConversion inside x)
    | .sign "\x7b" =>
      if !takesElements x (← get).level then return x
      match x.form with
      | .paren .. => misfit
      | _ => primaryWithin limit (← compositeValue inside (some x))
    | _ => return x

/-- An operand, which has been read, with all that follows it. -/
def primary (x : Expr) : Reading Expr := do primaryWithin inside ((← get).left + 1) x

/-! ## Signs -/

/-- A channel type behind an arrow that is its own: the arrow makes it a channel to receive from.
An arrow that the type had before goes on to the type of its values. -/
def received? (arrow : Pos) : Expr → Option Expr
  | .mk _ stop form =>
    match form with
    | .channel .both _ value => some (.mk arrow stop (.channel .receive arrow value))
    | .channel .send next value =>
      (received? next value).map fun value => .mk arrow stop (.channel .receive arrow value)
    | _ => none

/-- An operand with the signs before it. -/
def unary : Reading Expr := do
  let kind ← nextKind
  match kind with
  | .sign "<-" =>
    let arrow ← expectSign "<-"
    let x ← (inside ()).unary
    match x.form with
    | .channel .. =>
      match received? arrow x with
      | some type => return type
      | none => misfit
    | _ => return .mk arrow x.stop (.unary "<-" x)
  | .sign "*" =>
    let start ← expectSign "*"
    let x ← (inside ()).unary
    return .mk start x.stop (.star x)
  | .sign s =>
    if ["+", "-", "!", "^", "&", "~"].contains s then
      let start ← expect kind
      let x ← (inside ()).unary
      return .mk start x.stop (.unary s x)
    else primary inside (← operand inside)
  | _ => primary inside (← operand inside)

/-- An expression whose left part has been read, at most so many signs of it. -/
def binaryWithin (least : Nat) : Nat → Expr → Reading Expr
  | 0, _ => misfit
  | limit + 1, left => do
    let kind ← nextKind
    match kind with
    | .sign s =>
      let tightness := precedence kind
      if tightness < least then return left
      let signPos ← expect kind
      let right ← (inside ()).expr (tightness + 1)
      binaryWithin least limit (.mk left.start right.stop (.binary left s signPos right))
    | _ => return left

/-- An expression whose left part has been read. -/
def binary (least : Nat) (left : Expr) : Reading Expr := do
  binaryWithin inside least ((← get).left + 1) left

/-- An expression whose signs bind at least so tightly. -/
def expr (least : Nat) : Reading Expr := do binary inside least (← unary inside)

end YaccTables.Code.Reading
