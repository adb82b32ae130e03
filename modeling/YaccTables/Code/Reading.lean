import YaccTables.Code.Syntax

/-!
# Reading syntax

Readers go over the words of a file and fail at the first that does not fit. Readers of nested
syntax are given the readers of what is inside, `Readers`, one step later: a reader that goes around
has taken a word in between.
-/

namespace YaccTables.Code

/-- Why a file could not be read. -/
inductive Fault
  /-- It does not start with a package clause. -/
  | package
  /-- Something else stands where a declaration should. -/
  | declaration
  | other
  deriving DecidableEq, Repr

/-- The words that are left. -/
structure Cursor where
  rest : List Lexeme
  /-- The number of words that are left. -/
  left : Nat
  /-- How deep in brackets the expression is; below zero a brace opens a block. -/
  level : Int := 0

/-- A step of reading. -/
abbrev Reading := StateT Cursor (Except Fault)

/-- The words do not fit. -/
def misfit {α : Type} : Reading α := throw .other

/-- The next word. After the last there is none but the end of the file. -/
def peek : Reading Lexeme := do
  return (← get).rest.headD { kind := .finish, text := [], start := 0, stop := 0 }

/-- Goes over the next word. -/
def advance : Reading Unit :=
  modify fun c => { c with rest := c.rest.tail, left := c.left - 1 }

/-- The kind of the next word. -/
def nextKind : Reading Kind := return (← peek).kind

/-- Whether the next word is of a kind. -/
def atKind (k : Kind) : Reading Bool := return (← nextKind) == k

/-- Whether the next word is a sign. -/
def atSign (s : String) : Reading Bool := atKind (.sign s)

/-- Whether the next word is a keyword. -/
def atKeyword (w : String) : Reading Bool := atKind (.keyword w)

/-- Whether a statement ends before the next word. -/
def atStop : Reading Bool := do
  match ← nextKind with
  | .stop _ => return true
  | _ => return false

/-- Goes over a word of a kind and returns its place. -/
def expect (k : Kind) : Reading Pos := do
  let l ← peek
  if l.kind = k then
    advance
    return l.start
  else misfit

/-- Goes over a sign. -/
def expectSign (s : String) : Reading Pos := expect (.sign s)

/-- Goes over a keyword. -/
def expectKeyword (w : String) : Reading Pos := expect (.keyword w)

/-- Goes over the end of a statement, which may be left out before a closing bracket. The result is
the remark on the line: what follows a semicolon, or what precedes the end of the line. -/
def expectStop : Reading (Option CommentGroup) := do
  let l ← peek
  match l.kind with
  | .sign ")" | .sign "\x7d" => return none
  | .stop written =>
    advance
    if written then return (← peek).remark else return l.remark
  | _ => misfit

/-- A name. -/
def ident : Reading Ident := do
  let l ← peek
  let start ← expect .name
  return ⟨start, l.text⟩

/-- A literal of any kind. -/
def literal : Reading Literal := do
  let l ← peek
  advance
  return ⟨l.kind, l.start, l.stop, l.text⟩

/-- Reads inside brackets. -/
def deeper {α : Type} (inside : Reading α) : Reading α := do
  modify fun c => { c with level := c.level + 1 }
  let x ← inside
  modify fun c => { c with level := c.level - 1 }
  return x

/-- Reads the header of a statement, in which a brace opens the block. -/
def inHeader {α : Type} (inside : Reading α) : Reading α := do
  let level := (← get).level
  modify fun c => { c with level := -1 }
  let x ← inside
  modify fun c => { c with level := level }
  return x

/-! ## Lists -/

/-- Reads as long as the next word is fit, at most so many times. -/
def repeatWithin {α : Type} (isFit : Kind → Bool) (item : Reading α) :
    Nat → List α → Reading (List α)
  | 0, _ => misfit
  | limit + 1, found => do
    if isFit (← nextKind) then
      let x ← item
      repeatWithin isFit item limit (x :: found)
    else return found.reverse

/-- Reads as long as the next word is fit. -/
def repeatWhile {α : Type} (isFit : Kind → Bool) (item : Reading α) : Reading (List α) := do
  repeatWithin isFit item ((← get).left + 1) []

/-- Reads up to a closing sign, with a comma after each but perhaps the last, at most so many times.
The result tells whether the last has one too. -/
def listWithin {α : Type} (closing : String) (item : Reading α) :
    Nat → List α → Reading (List α × Bool)
  | 0, _ => misfit
  | limit + 1, found => do
    if ← atSign closing then return (found.reverse, !found.isEmpty)
    let x ← item
    if ← atSign "," then
      advance
      listWithin closing item limit (x :: found)
    else if ← atSign closing then return ((x :: found).reverse, false)
    else misfit

/-- Reads up to a closing sign, with commas between; tells whether there is one at the end. -/
def trailedList {α : Type} (closing : String) (item : Reading α) : Reading (List α × Bool) := do
  listWithin closing item ((← get).left + 1) []

/-- Reads up to a closing sign, with commas between and perhaps one at the end. -/
def listUntil {α : Type} (closing : String) (item : Reading α) : Reading (List α) :=
  return (← trailedList closing item).1

/-- Reads one or more with commas between, at most so many times. -/
def commaWithin {α : Type} (item : Reading α) : Nat → List α → Reading (List α)
  | 0, _ => misfit
  | limit + 1, found => do
    let x ← item
    if ← atSign "," then
      advance
      commaWithin item limit (x :: found)
    else return (x :: found).reverse

/-- Reads one or more with commas between. -/
def commaList {α : Type} (item : Reading α) : Reading (List α) := do
  commaWithin item ((← get).left + 1) []

/-! ## Nested syntax -/

/-- The readers of nested syntax. -/
structure Readers where
  /-- A type, if the next word starts one. -/
  type? : Reading (Option Expr)
  /-- An expression whose signs bind at least so tightly. -/
  expr : Nat → Reading Expr
  /-- An operand with the signs before it. -/
  unary : Reading Expr
  /-- An element of a composite literal. -/
  element : Reading Expr
  block : Reading (Block Stmt)
  stmt : Reading Stmt

/-- The readers that always fail. -/
def Readers.none : Readers :=
  ⟨misfit, fun _ => misfit, misfit, misfit, misfit, misfit⟩

/-- The readers one step later. They are made when they are called for. -/
abbrev Inside := Unit → Readers

/-- A type. -/
def Inside.type (inside : Inside) : Reading Expr := do
  match ← (inside ()).type? with
  | some t => return t
  | none => misfit

/-- An expression. -/
def Inside.expr (inside : Inside) : Reading Expr := (inside ()).expr 1

end YaccTables.Code
