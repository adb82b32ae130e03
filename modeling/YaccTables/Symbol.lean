import YaccTables.Bytes

/-!
# Indices and symbols

Terminals, nonterminals and productions are numbered each from zero. Their indices have types of
their own, so that one cannot stand where another is meant.
-/

namespace YaccTables

/-- The index of a terminal. -/
structure TermIdx where
  val : Nat
  deriving DecidableEq, Repr

/-- The index of a nonterminal. -/
structure NontermIdx where
  val : Nat
  deriving DecidableEq, Repr

/-- The index of a production. -/
structure ProdIdx where
  val : Nat
  deriving DecidableEq, Repr

/-- An index with a label for its sort. -/
def labelled (label : String) (n : Nat) : Bytes := utf8 label ++ utf8 "(" ++ decimal n ++ utf8 ")"

/-- The text of a terminal index. -/
def TermIdx.text (i : TermIdx) : Bytes := labelled "TIdx" i.val

/-- The text of a nonterminal index. -/
def NontermIdx.text (i : NontermIdx) : Bytes := labelled "NTIdx" i.val

/-- The text of a production index. -/
def ProdIdx.text (i : ProdIdx) : Bytes := labelled "PIdx" i.val

/-- What a production is made of. -/
inductive Symbol
  | terminal (i : TermIdx)
  | nonterminal (i : NontermIdx)
  deriving DecidableEq, Repr

namespace Symbol

/-- Whether the symbol is a terminal. -/
def isTerminal : Symbol → Bool
  | .terminal _ => true
  | .nonterminal _ => false

/-- The index of a terminal. -/
def terminal? : Symbol → Option TermIdx
  | .terminal i => some i
  | .nonterminal _ => none

/-- The index of a nonterminal. -/
def nonterminal? : Symbol → Option NontermIdx
  | .terminal _ => none
  | .nonterminal i => some i

/-- The number of the symbol among those of its sort. -/
def index : Symbol → Nat
  | .terminal i => i.val
  | .nonterminal i => i.val

/-- The text of a symbol. -/
def text : Symbol → Bytes
  | .terminal i => labelled "Term" i.val
  | .nonterminal i => labelled "NonTerm" i.val

/-- The text of a symbol that may be missing. -/
def textOf : Option Symbol → Bytes
  | some s => s.text
  | none => utf8 "Symbol(nil)"

end Symbol

end YaccTables
