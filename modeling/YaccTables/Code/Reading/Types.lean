import YaccTables.Code.Reading

/-!
# Reading types

Types, parameters and signatures. In lists of parameters a name alone may be a parameter or a type,
which is known only at the end of the list.
-/

namespace YaccTables.Code.Reading

variable (inside : Inside)

/-! ## Named types -/

/-- A selected name. -/
def selected (operand : Expr) (member : Ident) : Expr :=
  .mk operand.start member.stop (.selector operand member)

/-- An operand with arguments in square brackets. -/
def indexed (operand : Expr) (opening : Pos) (args : List Expr) (closing : Pos) : Expr :=
  .mk operand.start (closing + 1) (.index operand opening args closing)

/-- The name of a type, of this package or another, whose first part has been read. -/
def typeName (first : Ident) : Reading Expr := do
  if ← atSign "." then
    advance
    return selected first.expr (← ident)
  else return first.expr

/-- A type with arguments. -/
def typeInstance (type : Expr) : Reading Expr := do
  let opening ← expectSign "["
  let args ← deeper (listUntil "]" inside.type)
  let closing ← expectSign "]"
  if args.isEmpty then misfit
  return indexed type opening args closing

/-- The name of a type with its arguments, if there are any. -/
def qualifiedName (first : Ident) : Reading Expr := do
  let type ← typeName first
  if ← atSign "[" then typeInstance inside type else return type

/-! ## Composite types -/

/-- An array or slice type behind its opening bracket, given its length if that has been read. -/
def arrayType (opening : Pos) (length : Option Expr) : Reading Expr := do
  let length ← match length with
    | some e => pure (some e)
    | none => deeper do
      if ← atSign "..." then
        let start ← expectSign "..."
        return some (.mk start (start + 3) (.dots none))
      else if ← atSign "]" then return none
      else return some (← inside.expr)
  let _ ← expectSign "]"
  let element ← inside.type
  return .mk opening element.stop (.array length element)

/-- A type behind three dots. -/
def dotsType : Reading Expr := do
  let start ← expectSign "..."
  let element ← inside.type
  return .mk start element.stop (.dots (some element))

/-- A channel type. -/
def channelType : Reading Expr := do
  let start := (← peek).start
  let (direction, arrow) ← if ← atKeyword "chan" then do
      advance
      if ← atSign "<-" then
        let arrow ← expectSign "<-"
        pure (Direction.send, arrow)
      else pure (Direction.both, 0)
    else do
      let arrow ← expectSign "<-"
      let _ ← expectKeyword "chan"
      pure (Direction.receive, arrow)
  let value ← inside.type
  return .mk start value.stop (.channel direction arrow value)

/-- A map type. -/
def mapType : Reading Expr := do
  let start ← expectKeyword "map"
  let _ ← expectSign "["
  let key ← inside.type
  let _ ← expectSign "]"
  let value ← inside.type
  return .mk start value.stop (.map key value)

/-! ## Constraints -/

/-- A term of a constraint. -/
def constraintTerm : Reading Expr := do
  if ← atSign "~" then
    let start ← expectSign "~"
    let type ← inside.type
    return .mk start type.stop (.unary "~" type)
  else inside.type

/-- Further terms of a constraint, at most so many. -/
def moreTerms : Nat → Expr → Reading Expr
  | 0, _ => misfit
  | limit + 1, left => do
    if ← atSign "|" then
      let signPos ← expectSign "|"
      let right ← constraintTerm inside
      moreTerms limit (.mk left.start right.stop (.binary left "|" signPos right))
    else return left

/-- A constraint, whose first term may have been read. -/
def constraint (first : Option Expr) : Reading Expr := do
  let first ← match first with
    | some e => pure e
    | none => constraintTerm inside
  moreTerms inside ((← get).left + 1) first

/-! ## Parameters -/

/-- A name, a type or both. -/
structure Param where
  name : Option Ident
  type : Option Expr

/-- What follows a name before a square bracket: the rest of an array type, or the arguments of a
type that bears the name. The first part of the result is the name, unless it is of a type. -/
def arrayOrInstance (name : Ident) : Reading (Option Ident × Expr) := do
  let opening ← expectSign "["
  if ← atSign "]" then
    let _ ← expectSign "]"
    let element ← inside.type
    return (some name, .mk opening element.stop (.array none element))
  let (args, hasComma) ← deeper (trailedList "]" inside.expr)
  let closing ← expectSign "]"
  match args with
  | [length] =>
    match ← (inside ()).type? with
    | some element =>
      if hasComma then misfit
      return (some name, .mk opening element.stop (.array (some length) element))
    | none => return (none, indexed name.expr opening args closing)
  | _ => return (none, indexed name.expr opening args closing)

/-- Joins a parameter's type with further terms, where it may be a constraint. -/
def withTerms (areTypes : Bool) (p : Param) : Reading Param := do
  match p.type with
  | some type =>
    if areTypes && (← atSign "|") then
      return { p with type := some (← constraint inside (some type)) }
    else return p
  | none => return p

/-- What follows the name that a parameter begins with. -/
def paramAfterName (areTypes : Bool) (name : Ident) : Reading Param := do
  match ← nextKind with
  | .sign "[" =>
    let (name, type) ← arrayOrInstance inside name
    withTerms inside areTypes ⟨name, some type⟩
  | .sign "..." => return ⟨some name, some (← dotsType inside)⟩
  | .sign "." => withTerms inside areTypes ⟨none, some (← qualifiedName inside name)⟩
  | .sign "~" =>
    if areTypes then return ⟨some name, some (← constraint inside none)⟩
    else return ⟨some name, none⟩
  | .sign "|" =>
    if areTypes then return ⟨none, some (← constraint inside (some name.expr))⟩
    else return ⟨some name, none⟩
  | _ => withTerms inside areTypes ⟨some name, ← (inside ()).type?⟩

/-- Whether a type starts with a word of a kind. -/
def startsType : Kind → Bool
  | .name => true
  | .sign s => ["[", "*", "<-", "("].contains s
  | .keyword w => ["struct", "func", "interface", "map", "chan"].contains w
  | _ => false

/-- A parameter; `areTypes` says that it stands for a type. -/
def param (areTypes : Bool) : Reading Param := do
  let kind ← nextKind
  if areTypes && kind == .sign "~" then return ⟨none, some (← constraint inside none)⟩
  else if kind == .name then
    let name ← ident
    paramAfterName inside areTypes name
  else if kind == .sign "..." then return ⟨none, some (← dotsType inside)⟩
  else if startsType kind then withTerms inside areTypes ⟨none, some (← inside.type)⟩
  else misfit

/-- Gives each name the type that follows it; `names` are those that still have none. -/
def distribute : List Ident → List Param → Option (List (Member Expr))
  | [], [] => some []
  | _ :: _, [] => none
  | names, ⟨some name, none⟩ :: rest => distribute (names ++ [name]) rest
  | names, ⟨some name, some type⟩ :: rest =>
    (distribute [] rest).map ({ names := names ++ [name], type := type } :: ·)
  | _, ⟨none, _⟩ :: _ => none

/-- The members of a list of parameters. Either all have names or none has; types for types have
names. -/
def membersOf? (areTypes : Bool) (params : List Param) : Option (List (Member Expr)) :=
  if params.any fun p => p.name.isSome && p.type.isSome then distribute [] params
  else if areTypes && !params.isEmpty then none
  else params.mapM fun p =>
    (p.type.or (p.name.map Ident.expr)).map fun type => { type := type }

/-- Parameters up to a closing sign, the first of which may have been read. -/
def paramList (first : Option (Reading Param)) (closing : String) :
    Reading (List (Member Expr)) := do
  let areTypes := closing == "]"
  let params ← match first with
    | none => listUntil closing (param inside areTypes)
    | some first => do
      let p ← first
      if ← atSign "," then
        advance
        let more ← listUntil closing (param inside areTypes)
        pure (p :: more)
      else if ← atSign closing then pure [p]
      else misfit
  match membersOf? areTypes params with
  | some members => return members
  | none => misfit

/-- Parameters in round brackets. -/
def params : Reading (Members Expr) := do
  let opening ← expectSign "("
  let list ← paramList inside none ")"
  let closing ← expectSign ")"
  return { opening, list, closing }

/-- Parameters for types in square brackets, if there are any. -/
def typeParams? : Reading (Option (Members Expr)) := do
  if ← atSign "[" then
    let opening ← expectSign "["
    let list ← paramList inside none "]"
    let closing ← expectSign "]"
    if list.isEmpty then misfit
    return some { opening, list, closing }
  else return none

/-- The results of a function, if there are any. -/
def results? : Reading (Option (Members Expr)) := do
  if ← atSign "(" then return some (← params inside)
  else match ← (inside ()).type? with
    | some type => return some { list := [{ type := type }] }
    | none => return none

/-- Parameters and results. -/
def signature : Reading (Signature Expr) := do
  let params ← params inside
  return { params, results := ← results? inside }

/-- A function type. -/
def functionType : Reading Expr := do
  let start ← expectKeyword "func"
  let signature ← signature inside
  return .mk start signature.stop (.functionType signature)

/-! ## Structures and interfaces -/

/-- The names and the type of a field that begins with a name. -/
def namedField : Reading (List Ident × Expr) := do
  let name ← ident
  match ← nextKind with
  | .sign "." => return ([], ← qualifiedName inside name)
  | .text | .stop _ | .sign "\x7d" => return ([], name.expr)
  | .sign "[" =>
    let (name, type) ← arrayOrInstance inside name
    return (name.toList, type)
  | .sign "," =>
    advance
    let more ← commaList ident
    return (name :: more, ← inside.type)
  | _ => return ([name], ← inside.type)

/-- A field. -/
def field : Reading (Member Expr) := do
  let doc := (← peek).doc
  let (names, type) ← if ← atSign "*" then do
      let start ← expectSign "*"
      let type ← qualifiedName inside (← ident)
      pure ([], .mk start type.stop (.star type))
    else namedField inside
  let tag ← if ← atKind .text then some <$> literal else pure none
  let remark ← expectStop
  return { doc, names, type, tag, remark }

/-- A structure type. -/
def structType : Reading Expr := do
  let start ← expectKeyword "struct"
  let opening ← expectSign "\x7b"
  let list ← repeatWhile (fun k => k == .name || k == .sign "*" || k == .sign "(") (field inside)
  let closing ← expectSign "\x7d"
  return .mk start (closing + 1) (.struct { opening, list, closing })

/-- The arguments of an embedded type, behind its name. -/
def embeddedInstance (name : Ident) : Reading Expr := do
  let opening ← expectSign "["
  let first ← deeper inside.expr
  let more ← if ← atSign "," then do
      advance
      deeper (listUntil "]" inside.type)
    else pure []
  let closing ← expectSign "]"
  return indexed name.expr opening (first :: more) closing

/-- A method or an embedded type that begins with a name. -/
def method : Reading (Member Expr) := do
  let doc := (← peek).doc
  let name ← ident
  match ← nextKind with
  | .sign "(" =>
    let signature ← signature inside
    let type := .mk signature.params.opening signature.stop (.functionType signature)
    return { doc, names := [name], type }
  | .sign "[" => return { doc, type := ← constraint inside (some (← embeddedInstance inside name)) }
  | _ => return { doc, type := ← constraint inside (some (← qualifiedName inside name)) }

/-- A method or a constraint. -/
def methodOrConstraint : Reading (Member Expr) := do
  let found ← if ← atKind .name then method inside
    else do
      let type ← constraint inside none
      pure { type := type }
  let remark ← expectStop
  return { found with remark }

/-- An interface type. -/
def interfaceType : Reading Expr := do
  let start ← expectKeyword "interface"
  let opening ← expectSign "\x7b"
  let list ← repeatWhile (fun k => startsType k || k == .sign "~") (methodOrConstraint inside)
  let closing ← expectSign "\x7d"
  return .mk start (closing + 1) (.interface { opening, list, closing })

/-! ## All types -/

/-- A type, if the next word starts one. -/
def type? : Reading (Option Expr) := do
  match ← nextKind with
  | .name =>
    let name ← ident
    return some (← qualifiedName inside name)
  | .sign "[" =>
    let opening ← expectSign "["
    return some (← arrayType inside opening none)
  | .sign "*" =>
    let start ← expectSign "*"
    let type ← inside.type
    return some (.mk start type.stop (.star type))
  | .sign "<-" | .keyword "chan" => return some (← channelType inside)
  | .sign "(" =>
    let start ← expectSign "("
    let type ← inside.type
    let closing ← expectSign ")"
    return some (.mk start (closing + 1) (.paren type closing))
  | .keyword "struct" => return some (← structType inside)
  | .keyword "func" => return some (← functionType inside)
  | .keyword "interface" => return some (← interfaceType inside)
  | .keyword "map" => return some (← mapType inside)
  | _ => return none

end YaccTables.Code.Reading
