import YaccTables.Bytes

/-!
# Precedence

A precedence is a level and an associativity. Later declarations have higher levels and bind
tighter.
-/

namespace YaccTables

/-- How operators of one level group. -/
inductive Assoc
  | left
  | right
  | nonassoc
  /-- An associativity known only by its number. -/
  | other (code : Int)
  deriving DecidableEq, Repr

/-- The associativity with a number. -/
def Assoc.ofCode : Int → Assoc
  | 0 => .left
  | 1 => .right
  | 2 => .nonassoc
  | code => .other code

/-- The word for an associativity. -/
def Assoc.text : Assoc → Bytes
  | .left => utf8 "left"
  | .right => utf8 "right"
  | .nonassoc => utf8 "nonassoc"
  | .other code => utf8 "AssocKind(" ++ decimalInt code ++ utf8 ")"

/-- The level and associativity declared for a symbol. -/
structure Precedence where
  level : Nat
  assoc : Assoc
  deriving DecidableEq, Repr

/-- A precedence in words, such as `left(1)`. -/
def Precedence.text (p : Precedence) : Bytes :=
  p.assoc.text ++ utf8 "(" ++ decimal p.level ++ utf8 ")"

/-- An optional precedence in words, empty if there is none. -/
def Precedence.textOf (p : Option Precedence) : Bytes := (p.map Precedence.text).getD []

end YaccTables
