import YaccTables.Code.Lexeme

/-!
# Syntax of a source file

Expressions, statements and declarations with the places of their parts, as far as these decide how
the file is laid out. Types are expressions. Structures that hold expressions or statements take
their types as parameters, so that the two can be defined through them.
-/

namespace YaccTables.Code

/-- A name. -/
structure Ident where
  start : Pos
  name : Bytes
  deriving DecidableEq, Repr

/-- The place just after a name. -/
def Ident.stop (i : Ident) : Pos := i.start + i.name.length

/-- A literal. -/
structure Literal where
  kind : Kind
  start : Pos
  stop : Pos
  text : Bytes
  deriving DecidableEq, Repr

/-- A field, method, parameter or embedded type. -/
structure Member (ε : Type) where
  doc : Option CommentGroup := none
  names : List Ident := []
  type : ε
  tag : Option Literal := none
  remark : Option CommentGroup := none

/-- Members between brackets. A single result has none. -/
structure Members (ε : Type) where
  opening : Pos := 0
  list : List (Member ε)
  closing : Pos := 0

/-- The number of names and unnamed members. -/
def Members.count {ε : Type} (ms : Members ε) : Nat :=
  (ms.list.map fun m => max 1 m.names.length).foldl (· + ·) 0

/-- What a function takes and gives. -/
structure Signature (ε : Type) where
  types : Option (Members ε) := none
  params : Members ε
  results : Option (Members ε)

/-- Statements between braces. -/
structure Block (σ : Type) where
  opening : Pos
  list : List σ
  closing : Pos

/-- A package that is imported, perhaps under another name. -/
structure PackageSpec where
  doc : Option CommentGroup
  name : Option Ident
  path : Literal
  remark : Option CommentGroup
  /-- The place just after it, if that is not the place after its path. -/
  ending : Pos := 0

/-- A part of a declaration. -/
inductive Spec (ε : Type)
  | package (p : PackageSpec)
  | value (doc : Option CommentGroup) (names : List Ident) (type : Option ε) (values : List ε)
      (remark : Option CommentGroup)
  | type (doc : Option CommentGroup) (name : Ident) (params : Option (Members ε)) (assign : Pos)
      (type : ε) (remark : Option CommentGroup)

/-- A declaration of packages, constants, variables or types, alone or in brackets. -/
structure DeclGroup (ε : Type) where
  doc : Option CommentGroup
  start : Pos
  keyword : String
  opening : Pos := 0
  specs : List (Spec ε)
  closing : Pos := 0

/-- The directions of a channel. -/
inductive Direction
  | both
  | send
  | receive
  deriving DecidableEq, Repr

mutual

/-- An expression or a type, from its first byte to just after its last. -/
inductive Expr
  | mk (start stop : Pos) (form : ExprForm)

/-- The form of an expression. -/
inductive ExprForm
  | name (name : Bytes)
  | literal (kind : Kind) (text : Bytes)
  | paren (inner : Expr) (closing : Pos)
  | selector (operand : Expr) (member : Ident)
  | index (operand : Expr) (opening : Pos) (args : List Expr) (closing : Pos)
  | slice (operand : Expr) (opening : Pos) (low high max : Option Expr) (closing : Pos)
  /-- A type assertion; without a type it asks for the type. -/
  | assertion (operand : Expr) (opening : Pos) (type : Option Expr) (closing : Pos)
  | call (operand : Expr) (opening : Pos) (args : List Expr) (dots closing : Pos)
  | star (operand : Expr)
  | unary (sign : String) (operand : Expr)
  | binary (left : Expr) (sign : String) (signPos : Pos) (right : Expr)
  | pair (key : Expr) (colon : Pos) (value : Expr)
  | composite (type : Option Expr) (opening : Pos) (elements : List Expr) (closing : Pos)
  | function (signature : Signature Expr) (body : Block Stmt)
  | array (length : Option Expr) (element : Expr)
  | dots (element : Option Expr)
  | struct (fields : Members Expr)
  | interface (methods : Members Expr)
  | functionType (signature : Signature Expr)
  | map (key value : Expr)
  | channel (direction : Direction) (arrow : Pos) (value : Expr)

/-- A statement, from its first byte on. -/
inductive Stmt
  | mk (start : Pos) (form : StmtForm)

/-- The form of a statement. -/
inductive StmtForm
  | declaration (group : DeclGroup Expr)
  | empty
  | labeled (label : Ident) (colon : Pos) (body : Stmt)
  | expression (expr : Expr)
  | send (channel : Expr) (arrow : Pos) (value : Expr)
  | step (operand : Expr) (signPos : Pos) (sign : String)
  | assign (left : List Expr) (signPos : Pos) (sign : String) (right : List Expr)
  /-- A call that is deferred or runs beside. -/
  | call (keyword : String) (call : Expr)
  | result (results : List Expr)
  | branch (keyword : String) (label : Option Ident)
  | block (block : Block Stmt)
  | choice (init : Option Stmt) (cond : Expr) (body : Block Stmt) (otherwise : Option Stmt)
  /-- A case of a switch; without expressions it is the default. -/
  | case (list : List Expr) (colon : Pos) (body : List Stmt)
  | switch (init : Option Stmt) (tag : Option Expr) (body : Block Stmt)
  | typeSwitch (init : Option Stmt) (guard : Stmt) (body : Block Stmt)
  /-- A case of a selection; without a communication it is the default. -/
  | communication (comm : Option Stmt) (colon : Pos) (body : List Stmt)
  | select (body : Block Stmt)
  | loop (init : Option Stmt) (cond : Option Expr) (post : Option Stmt) (body : Block Stmt)
  | range (key value : Option Expr) (signPos : Pos) (sign : String) (operand : Expr)
      (body : Block Stmt)

end

/-- A function or method. -/
structure Routine where
  doc : Option CommentGroup
  start : Pos
  receiver : Option (Members Expr)
  name : Ident
  signature : Signature Expr
  body : Option (Block Stmt)

/-- A declaration. -/
inductive Decl
  | group (g : DeclGroup Expr)
  | function (f : Routine)

/-- A file. -/
structure File where
  start : Pos
  doc : Option CommentGroup
  name : Ident
  decls : List Decl

/-! ## Parts -/

def Expr.start : Expr → Pos
  | .mk start _ _ => start

def Expr.stop : Expr → Pos
  | .mk _ stop _ => stop

def Expr.form : Expr → ExprForm
  | .mk _ _ form => form

def Stmt.start : Stmt → Pos
  | .mk start _ => start

def Stmt.form : Stmt → StmtForm
  | .mk _ form => form

/-- A name as an expression. -/
def Ident.expr (i : Ident) : Expr := .mk i.start i.stop (.name i.name)

/-- A literal as an expression. -/
def Literal.expr (l : Literal) : Expr := .mk l.start l.stop (.literal l.kind l.text)

/-- The place where a member starts. -/
def Member.start (m : Member Expr) : Pos :=
  match m.names with
  | first :: _ => first.start
  | [] => m.type.start

/-- The place just after a member. -/
def Member.stop (m : Member Expr) : Pos := (m.tag.map Literal.stop).getD m.type.stop

/-- The place just after members. -/
def Members.stop (ms : Members Expr) : Pos :=
  if ms.closing ≠ 0 then ms.closing + 1 else (ms.list.getLast?.map Member.stop).getD 0

/-- The place just after a signature. -/
def Signature.stop (s : Signature Expr) : Pos := (s.results.getD s.params).stop

/-- The place just after a block. -/
def Block.stop (b : Block Stmt) : Pos := b.closing + 1

/-- The place just after a function. -/
def Routine.stop (f : Routine) : Pos := (f.body.map Block.stop).getD f.signature.stop

/-- The place where a package is named. -/
def PackageSpec.start (p : PackageSpec) : Pos := (p.name.map Ident.start).getD p.path.start

/-- The place just after a package. -/
def PackageSpec.stop (p : PackageSpec) : Pos := if p.ending ≠ 0 then p.ending else p.path.stop

/-- The place where a part of a declaration starts. -/
def Spec.start : Spec Expr → Pos
  | .package p => p.start
  | .value _ names _ _ _ => (names.head?.map Ident.start).getD 0
  | .type _ name _ _ _ _ => name.start

/-- The place where a declaration starts. -/
def Decl.start : Decl → Pos
  | .group g => g.start
  | .function f => f.start

/-- The comments on a declaration. -/
def Decl.doc : Decl → Option CommentGroup
  | .group g => g.doc
  | .function f => f.doc

/-- The keyword of a declaration. -/
def Decl.keyword : Decl → String
  | .group g => g.keyword
  | .function _ => "func"

/-- The name that an expression is. -/
def Expr.ident? : Expr → Option Ident
  | .mk start _ (.name name) => some ⟨start, name⟩
  | _ => none

/-- An expression without the brackets around it. -/
def Expr.unparen : Expr → Expr
  | .mk start stop form =>
    match form with
    | .paren inner _ => inner.unparen
    | _ => .mk start stop form

/-- Whether an expression can only be a constraint on types. -/
def Expr.isTypeElement : Expr → Bool
  | .mk _ _ form =>
    match form with
    | .array .. | .struct _ | .functionType _ | .interface _ | .map .. | .channel .. => true
    | .unary sign _ => sign == "~"
    | .binary left _ _ right => left.isTypeElement || right.isTypeElement
    | .paren inner _ => inner.isTypeElement
    | _ => false

/-- An expression at its place, where it may be absent. -/
def startOf (e : Option Expr) (otherwise : Pos) : Pos := (e.map Expr.start).getD otherwise

end YaccTables.Code
