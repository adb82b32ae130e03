import YaccTables.Numbering
import YaccTables.Text.Trim

/-!
# Identifiers for names

Every symbol of a grammar gets an identifier in the generated file. It is made of a common stem and
the letters and digits of the symbol's name; names that leave none, or one that is taken, are
numbered instead.
-/

namespace YaccTables

/-- Lower-cases every capital that follows another capital. -/
def dropCaps (afterCapital : Bool) : Bytes → Bytes
  | [] => []
  | b :: rest => (if afterCapital then lowerByte b else b) :: dropCaps (isUpper b) rest

/-- Bytes between words: underscore, blank, hyphen and dot. -/
def isWordGap (b : UInt8) : Bool :=
  b == ascii '_' || b == space || b == ascii '-' || b == ascii '.'

/-- The letters and digits of a text. A letter is a capital at the start of a word, which is after a
digit or if the byte before it is between words; `atStart` says so of the first. -/
def camelWords (atStart : Bool) : Bytes → Bytes
  | [] => []
  | b :: rest =>
    if isAlpha b then (if atStart then upperByte b else b) :: camelWords false rest
    else if isDecimal b then b :: camelWords true rest
    else camelWords (isWordGap b) rest

/-- A text in camel case: the letters and digits of its words, which begin with capitals. -/
def camelCase (text : Bytes) : Bytes := camelWords true (Text.trimStart text)

/-- The part of an identifier that a name gives, `camel` being what writes a text in camel case.
Runs of capitals are taken as one word, so that `EXPR` and `Expr` give the same. -/
def identWordWith (camel : Bytes → Bytes) (name : Name) : Bytes := camel (dropCaps false name)

/-- The part of an identifier that a name gives. Names without letters and digits give nothing. -/
def identWord : Name → Bytes := identWordWith camelCase

/-- Identifiers given out so far. -/
structure IdentTable where
  /-- What all identifiers of the table begin with. -/
  stem : Bytes
  taken : List Bytes
  /-- What writes a text in camel case. -/
  camel : Bytes → Bytes := camelCase

namespace IdentTable

/-- The first of a text, the text with one underscore and so on up to `limit` that is not taken. -/
def untakenWithin (taken : List Bytes) : Nat → Bytes → Bytes
  | 0, text => text
  | limit + 1, text =>
    if taken.contains text then untakenWithin taken limit (text ++ [ascii '_']) else text

/-- The first of a text, the text with one underscore, with two and so on that is not taken. One
more than there are taken texts are enough to try. -/
def untaken (taken : List Bytes) (text : Bytes) : Bytes :=
  untakenWithin taken (taken.length + 1) text

/-- The identifier of a numbered name. -/
def ident (t : IdentTable) (index : Int) (name : Name) : Bytes :=
  let named := t.stem ++ identWordWith t.camel name
  let text := if named = t.stem ∨ t.taken.contains named then t.stem ++ decimalInt index else named
  untaken t.taken text

/-- The identifiers of numbered names, given out in order. -/
def assign (t : IdentTable) : List (Int × Name) → List Bytes
  | [] => []
  | (index, name) :: rest =>
    let id := t.ident index name
    id :: assign { t with taken := id :: t.taken } rest

end IdentTable

end YaccTables
