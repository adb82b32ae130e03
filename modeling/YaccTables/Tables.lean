import YaccTables.Grammar

/-!
# Tables of a grammar

A snapshot of a grammar in plain numbers and texts, the form in which it is written out.
-/

namespace YaccTables

/-- A nonterminal and the numbers of its productions. -/
structure NontermEntry where
  name : Name
  prods : List Nat
  deriving DecidableEq, Repr

/-- A terminal and the text of its precedence, empty if it has none. -/
structure TermEntry where
  name : Name
  prec : Bytes
  deriving DecidableEq, Repr

/-- A symbol: whether it is a terminal, and its number. -/
structure SymbolEntry where
  isTerminal : Bool
  index : Nat
  deriving DecidableEq, Repr

/-- A production: the number of its nonterminal, its symbols and the text of its precedence. -/
structure ProdEntry where
  rule : Nat
  symbols : List SymbolEntry
  prec : Bytes
  deriving DecidableEq, Repr

/-- A snapshot of a grammar. -/
structure Tables where
  kind : Bytes
  nonterminals : List NontermEntry
  terminals : List TermEntry
  productions : List ProdEntry
  startProd : Nat
  endTerm : Nat
  /-- The number of the nonterminal that derives implicit tokens, or -1. -/
  implicitNonterm : Int
  deriving DecidableEq, Repr

namespace Grammar

/-- The entry of a symbol. -/
def symbolEntry (s : Symbol) : SymbolEntry := ⟨s.isTerminal, s.index⟩

/-- The tables of a grammar. -/
def tables (g : Grammar) : Tables where
  kind := g.kind.text
  nonterminals := g.nonterminals.map fun n => ⟨n.name, n.prods.map ProdIdx.val⟩
  terminals := g.terminals.map fun t => ⟨t.name, Precedence.textOf t.prec⟩
  productions := g.productions.map fun p =>
    ⟨p.rule.val, p.symbols.map symbolEntry, Precedence.textOf p.prec⟩
  startProd := g.startProd.val
  endTerm := g.endTerm.val
  implicitNonterm := match g.implicitNonterm with
    | some i => i.val
    | none => -1

end Grammar

end YaccTables
