import YaccTables.Text.Quoted

/-!
# Tokens of grammar text

A token is a lexeme with its kind and the offset at which it stands. The end of the input counts as
a token with an empty lexeme.
-/

namespace YaccTables

/-- A name of a rule, a token or a precedence symbol. -/
abbrev Name := Bytes

/-- The kinds of tokens. -/
inductive TokenKind
  /-- The end of the input. -/
  | endOfInput
  /-- The mark `%%` between sections. -/
  | sections
  /-- A percent sign and a word, such as `%start`. -/
  | directive
  /-- A bare name. -/
  | identifier
  /-- A name between single or double quotes. -/
  | quoted
  | colon
  | bar
  | semicolon
  deriving DecidableEq, Repr

/-- How a diagnostic calls a kind of token. -/
def TokenKind.text : TokenKind → Bytes
  | .endOfInput => utf8 "end of input"
  | .sections => utf8 "'%%'"
  | .directive => utf8 "directive"
  | .identifier => utf8 "identifier"
  | .quoted => utf8 "quoted token"
  | .colon => utf8 "':'"
  | .bar => utf8 "'|'"
  | .semicolon => utf8 "';'"

/-- The number of a kind of token, counted from the end of input. -/
def TokenKind.code : TokenKind → Nat
  | .endOfInput => 0
  | .sections => 1
  | .directive => 2
  | .identifier => 3
  | .quoted => 4
  | .colon => 5
  | .bar => 6
  | .semicolon => 7

/-- A lexeme at its place in the source. -/
structure Token where
  kind : TokenKind
  offset : Nat
  lexeme : Bytes
  deriving DecidableEq, Repr

namespace Token

/-- The token that ends a source of the given length. -/
def endAt (offset : Nat) : Token := ⟨.endOfInput, offset, []⟩

/-- How a diagnostic shows a token: its kind, and its quoted lexeme unless it ends the input. -/
def describe (t : Token) : Bytes :=
  match t.kind with
  | .endOfInput => t.kind.text
  | _ => t.kind.text ++ utf8 " " ++ Text.quote t.lexeme

/-- Whether the token is a name, bare or quoted. -/
def isName (t : Token) : Bool := t.kind = .identifier || t.kind = .quoted

end Token

end YaccTables
