import YaccTables.Bytes

/-!
# Words of a source file

A file is read as a sequence of words: names, keywords, literals and signs. Comments stand between
words; adjacent comments form a group, and a word knows the groups that may describe it.
-/

namespace YaccTables.Code

/-- A place in a file: the offset of a byte, counted from one. Zero is no place. -/
abbrev Pos := Nat

/-- What a word is. -/
inductive Kind
  | name
  | integer
  | decimalPoint
  | imaginary
  | character
  | text
  | keyword (word : String)
  | sign (sign : String)
  /-- The end of a statement: a semicolon, or the end of a line that stands for one. -/
  | stop (written : Bool)
  /-- The end of the file. -/
  | finish
  deriving DecidableEq, Repr

/-- A comment with its marks. -/
structure Comment where
  start : Pos
  text : Bytes
  deriving DecidableEq, Repr

/-- Adjacent comments; there is at least one. -/
abbrev CommentGroup := List Comment

/-- A word of a file. -/
structure Lexeme where
  kind : Kind
  text : Bytes
  start : Pos
  /-- The place just after the word. -/
  stop : Pos
  /-- The comments that end on the line above the word. -/
  doc : Option CommentGroup := none
  /-- The comments that end the line of the word before. -/
  remark : Option CommentGroup := none
  deriving Repr

/-- What a file is made of. -/
inductive Item
  | lexeme (l : Lexeme)
  | comment (c : Comment)
  deriving Repr

/-- The place where an item starts. -/
def Item.start : Item → Pos
  | .lexeme l => l.start
  | .comment c => c.start

/-- Whether a comment stands between marks and may have several lines. -/
def Comment.isBlock (c : Comment) : Bool := c.text[1]? == some (ascii '*')

/-- The place just after a comment. -/
def Comment.stop (c : Comment) : Pos := c.start + c.text.length

/-- The place where a group of comments starts. -/
def CommentGroup.start (g : CommentGroup) : Pos := (g.head?.map Comment.start).getD 0

/-- The place just after a group of comments. -/
def CommentGroup.stop (g : CommentGroup) : Pos := (g.getLast?.map Comment.stop).getD 0

/-- The words that are no names. -/
def keywords : List String :=
  ["break", "case", "chan", "const", "continue", "default", "defer", "else", "fallthrough", "for",
    "func", "go", "goto", "if", "import", "interface", "map", "package", "range", "return",
    "select", "struct", "switch", "type", "var"]

/-- The signs, the longer before the shorter. -/
def signs : List String :=
  ["<<=", ">>=", "&^=", "...",
    "<<", ">>", "&^", "+=", "-=", "*=", "/=", "%=", "&=", "|=", "^=", "&&", "||", "<-", "++", "--",
    "==", "!=", "<=", ">=", ":=",
    "+", "-", "*", "/", "%", "&", "|", "^", "<", ">", "=", "!", "(", ")", "[", "]", "\x7b", "\x7d",
    ",", ".", ":", "~"]

/-- How tightly a sign binds its two operands, from one to five; zero if it joins none. -/
def precedence : Kind → Nat
  | .sign "||" => 1
  | .sign "&&" => 2
  | .sign "==" | .sign "!=" | .sign "<" | .sign "<=" | .sign ">" | .sign ">=" => 3
  | .sign "+" | .sign "-" | .sign "|" | .sign "^" => 4
  | .sign "*" | .sign "/" | .sign "%" | .sign "<<" | .sign ">>" | .sign "&" | .sign "&^" => 5
  | _ => 0

/-- How tightly a sign binds before a single operand. -/
def unaryPrecedence : Nat := 6

/-- How tightly a selector, index or call binds. -/
def highestPrecedence : Nat := 7

/-- Whether a line may end after a word of a kind, so that its end stands for a semicolon. -/
def Kind.mayEnd : Kind → Bool
  | .name | .integer | .decimalPoint | .imaginary | .character | .text => true
  | .keyword w => ["break", "continue", "fallthrough", "return"].contains w
  | .sign s => ["++", "--", ")", "]", "\x7d"].contains s
  | .stop _ | .finish => false

end YaccTables.Code
