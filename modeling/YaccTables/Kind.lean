import YaccTables.Text.Quoted

/-!
# Kinds of grammars

The kind of a grammar says how it is augmented when it is lowered: an `original` grammar gets a
start rule and an end terminal, an `eco` grammar has its implicit tokens woven in as well.
-/

namespace YaccTables

/-- How a grammar is augmented. -/
inductive Kind
  | original
  | eco
  /-- A kind known only by its number; it is treated as `original`. -/
  | other (code : Int)
  deriving DecidableEq, Repr

namespace Kind

/-- The kind with a number. -/
def ofCode : Int → Kind
  | 0 => .original
  | 1 => .eco
  | code => .other code

/-- The number of a kind. -/
def code : Kind → Int
  | .original => 0
  | .eco => 1
  | .other code => code

/-- The word for a kind. -/
def text : Kind → Bytes
  | .original => utf8 "original"
  | .eco => utf8 "eco"
  | .other code => utf8 "Kind(" ++ decimalInt code ++ utf8 ")"

/-- A text in lower case, as far as that can spell a kind: besides the capitals of ASCII, only
U+0130 has a lower-case form among the letters of the words for kinds. -/
def lowered (name : Bytes) : Bytes :=
  (Text.pieces name).flatMap fun
    | .scalar c => if c.toNat = 0x130 then utf8 "i" else (String.utf8EncodeChar c).map lowerByte
    | .stray b => [b]

/-- The kind that a word names in any case. No word at all means `original`. -/
def ofName? (name : Bytes) : Option Kind :=
  let word := lowered name
  if word = utf8 "original" ∨ word = [] then some .original
  else if word = utf8 "eco" then some .eco
  else none

/-- The complaint about a word that names no kind. -/
def unknownName (name : Bytes) : Bytes :=
  utf8 "unknown grammar kind " ++ Text.quote name ++ utf8 " (want original or eco)"

end Kind

end YaccTables
