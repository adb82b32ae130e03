import YaccTables.Outline
import YaccTables.Span
import YaccTables.Token

/-!
# Errors in grammar text

A `Fault` is what is wrong, a `Flaw` a fault at a byte range of the text, and a `ParseError` a fault
on a span, which knows the source and can show it.
-/

namespace YaccTables

/-- What can be wrong with grammar text. -/
inductive Fault
  /-- No token starts here. -/
  | unexpectedInput
  /-- The text could not be scanned, for a reason in other words. -/
  | scanFailed (reason : Bytes)
  /-- Another kind of token has to stand here. -/
  | expected (wanted : TokenKind) (got : Token)
  | expectedDeclaration (got : Token)
  | unknownDeclaration (directive : Bytes)
  | startRepeated
  | needsName (directive : Bytes)
  | emptyTokenName
  | expectedRuleName (got : Token)
  | expectedBarOrSemicolon (got : Token)
  | unexpectedDirective (directive : Bytes)
  | expectedPrecName (got : Token)
  /-- A fault in the words of whoever reports it. -/
  | custom (text : Bytes)
  deriving DecidableEq, Repr

/-- The wording of a fault. -/
def Fault.message : Fault → Bytes
  | .unexpectedInput => utf8 "unexpected input"
  | .scanFailed _ => utf8 "scan failed"
  | .expected wanted got => utf8 "expected " ++ wanted.text ++ utf8 ", got " ++ got.describe
  | .expectedDeclaration got => utf8 "expected declaration or '%%', got " ++ got.describe
  | .unknownDeclaration directive => utf8 "unknown declaration " ++ directive
  | .startRepeated => utf8 "%start given more than once"
  | .needsName directive => directive ++ utf8 " needs at least one name"
  | .emptyTokenName => utf8 "empty token name"
  | .expectedRuleName got => utf8 "expected rule name, got " ++ got.describe
  | .expectedBarOrSemicolon got => utf8 "expected '|' or ';', got " ++ got.describe
  | .unexpectedDirective directive => utf8 "unexpected " ++ directive ++ utf8 " in production"
  | .expectedPrecName got => utf8 "expected name after %prec, got " ++ got.describe
  | .custom text => text

/-- The texts of the errors that caused a fault. -/
def Fault.causes : Fault → List Bytes
  | .scanFailed reason => [reason]
  | _ => []

/-- A fault in `len` bytes of a text from an offset on. -/
structure Flaw where
  offset : Nat
  len : Nat
  fault : Fault
  deriving DecidableEq, Repr

/-- A fault at a token. -/
def Token.flaw (t : Token) (fault : Fault) : Flaw := ⟨t.offset, t.lexeme.length, fault⟩

/-- A fault on a span, with the texts of the errors that caused it. -/
structure ParseError where
  span : Span
  fault : Fault
  causes : List Bytes := []
  deriving DecidableEq, Repr

namespace ParseError

/-- A flaw of a source as an error. -/
def ofFlaw (source : Source) (flaw : Flaw) : ParseError :=
  { span := (Span.whole source).slice flaw.offset (flaw.offset + flaw.len : Nat)
    fault := flaw.fault
    causes := flaw.fault.causes }

/-- The name by which the error calls its source. -/
def file (e : ParseError) : Bytes := if e.span.file = [] then utf8 "<input>" else e.span.file

/-- The `file:line:col: fault` line, over an outline of the causes if there are any. It exists
exactly if the span starts within its source. -/
def message? (e : ParseError) : Option Bytes :=
  e.span.position?.map fun (line, col) =>
    let head := e.file ++ utf8 ":" ++ decimal line ++ utf8 ":" ++ decimal col ++ utf8 ": "
      ++ e.fault.message
    if e.causes.isEmpty then head else (Outline.node head (e.causes.map .leaf)).print

/-- The span in place. -/
def context? (e : ParseError) : Option Bytes := e.span.context? Span.defaultLimit

end ParseError

end YaccTables
