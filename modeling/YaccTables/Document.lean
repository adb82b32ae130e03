import YaccTables.Description

/-!
# Grammar text as it is written

A document is what stands in grammar text, in order: declarations, then definitions of rules. Names
are not yet told apart into rules and tokens.
-/

namespace YaccTables

/-- What a directive before the first `%%` announces. -/
inductive Directive
  | start
  | tokens
  | precedence (assoc : Assoc)
  | implicit
  deriving DecidableEq, Repr

/-- The directive of a lexeme. -/
def Directive.ofLexeme? (lexeme : Bytes) : Option Directive :=
  if lexeme = utf8 "%start" then some .start
  else if lexeme = utf8 "%token" then some .tokens
  else if lexeme = utf8 "%left" then some (.precedence .left)
  else if lexeme = utf8 "%right" then some (.precedence .right)
  else if lexeme = utf8 "%nonassoc" then some (.precedence .nonassoc)
  else if lexeme = utf8 "%implicit_tokens" then some .implicit
  else none

/-- A declaration with its operands. -/
inductive Declaration
  | start (rule : Name)
  | tokens (names : List Name)
  | precedence (assoc : Assoc) (names : List Name)
  | implicit (names : List Name)
  deriving DecidableEq, Repr

/-- Whether the declaration gives the start rule. -/
def Declaration.isStart : Declaration → Bool
  | .start _ => true
  | _ => false

/-- A symbol of an alternative as it is written. -/
inductive Written
  | bare (name : Name)
  | quoted (name : Name)
  deriving DecidableEq, Repr

/-- An alternative as it is written. -/
structure Alternative where
  symbols : List Written
  /-- The operand of `%prec`. -/
  prec : Option Name
  deriving DecidableEq, Repr

/-- A definition of a rule, which need not be its only one. -/
structure Definition where
  rule : Name
  alternatives : List Alternative
  deriving DecidableEq, Repr

/-- Grammar text as it is written. -/
structure Document where
  declarations : List Declaration
  definitions : List Definition
  deriving DecidableEq, Repr

end YaccTables
