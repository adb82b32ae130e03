import YaccTables.Kind
import YaccTables.Precedence
import YaccTables.Symbol
import YaccTables.Token

/-!
# Indexed grammars

A grammar ready for the construction of an LR automaton: terminals, nonterminals and productions
are numbered, a start rule and an end terminal have been added, and each production has its
precedence. Every accessor answers `none` exactly for an index that is out of range.
-/

namespace YaccTables

/-- A terminal. -/
structure Terminal where
  name : Name
  prec : Option Precedence
  deriving DecidableEq, Repr

/-- A nonterminal with its productions, in order of creation. -/
structure Nonterminal where
  name : Name
  prods : List ProdIdx
  deriving DecidableEq, Repr

/-- A production of a nonterminal. -/
structure IndexedProduction where
  rule : NontermIdx
  symbols : List Symbol
  prec : Option Precedence
  deriving DecidableEq, Repr

/-- A grammar over numbered symbols. -/
structure Grammar where
  kind : Kind
  nonterminals : List Nonterminal
  terminals : List Terminal
  productions : List IndexedProduction
  /-- The only production of the start rule. -/
  startProd : ProdIdx
  /-- The terminal that ends the input. -/
  endTerm : TermIdx
  /-- The nonterminal that derives implicit tokens, if there is one. -/
  implicitNonterm : Option NontermIdx
  deriving DecidableEq, Repr

namespace Grammar

/-- A terminal by its index. -/
def terminal? (g : Grammar) (i : TermIdx) : Option Terminal := g.terminals[i.val]?

/-- A nonterminal by its index. -/
def nonterminal? (g : Grammar) (i : NontermIdx) : Option Nonterminal := g.nonterminals[i.val]?

/-- A production by its index. -/
def production? (g : Grammar) (i : ProdIdx) : Option IndexedProduction := g.productions[i.val]?

/-- The indices of the terminals. -/
def termIdxs (g : Grammar) : List TermIdx := (List.range g.terminals.length).map TermIdx.mk

/-- The indices of the nonterminals. -/
def nontermIdxs (g : Grammar) : List NontermIdx :=
  (List.range g.nonterminals.length).map NontermIdx.mk

/-- The indices of the productions. -/
def prodIdxs (g : Grammar) : List ProdIdx := (List.range g.productions.length).map ProdIdx.mk

/-- The name of a terminal. -/
def termName? (g : Grammar) (i : TermIdx) : Option Name := (g.terminal? i).map Terminal.name

/-- The precedence of a terminal, which may have none. -/
def termPrec? (g : Grammar) (i : TermIdx) : Option (Option Precedence) :=
  (g.terminal? i).map Terminal.prec

/-- The name of a nonterminal. -/
def nontermName? (g : Grammar) (i : NontermIdx) : Option Name :=
  (g.nonterminal? i).map Nonterminal.name

/-- The productions of a nonterminal. -/
def nontermProds? (g : Grammar) (i : NontermIdx) : Option (List ProdIdx) :=
  (g.nonterminal? i).map Nonterminal.prods

/-- The symbols of a production. -/
def prodSymbols? (g : Grammar) (i : ProdIdx) : Option (List Symbol) :=
  (g.production? i).map IndexedProduction.symbols

/-- The nonterminal that a production belongs to. -/
def prodRule? (g : Grammar) (i : ProdIdx) : Option NontermIdx :=
  (g.production? i).map IndexedProduction.rule

/-- The name of the nonterminal that a production belongs to. -/
def prodRuleName? (g : Grammar) (i : ProdIdx) : Option Name :=
  (g.prodRule? i).bind g.nontermName?

/-- The precedence of a production, which may have none. -/
def prodPrec? (g : Grammar) (i : ProdIdx) : Option (Option Precedence) :=
  (g.production? i).map IndexedProduction.prec

/-- The terminal of a name. -/
def termIdx? (g : Grammar) (name : Name) : Option TermIdx :=
  (g.terminals.findIdx? (·.name == name)).map TermIdx.mk

/-- The nonterminal of a name. -/
def nontermIdx? (g : Grammar) (name : Name) : Option NontermIdx :=
  (g.nonterminals.findIdx? (·.name == name)).map NontermIdx.mk

/-- The start rule: what the start production belongs to. -/
def startRule (g : Grammar) : NontermIdx := (g.prodRule? g.startProd).getD ⟨0⟩

/-- The name of a symbol. -/
def symbolName? (g : Grammar) : Symbol → Option Name
  | .terminal i => g.termName? i
  | .nonterminal i => g.nontermName? i

/-- A symbol as it is written in a production: terminals between quotes. -/
def symbolText (g : Grammar) (s : Symbol) : Bytes :=
  let name := (g.symbolName? s).getD []
  if s.isTerminal then utf8 "'" ++ name ++ utf8 "'" else name

/-- A production in grammar text, such as `expr: expr '+' term;`. -/
def prodText? (g : Grammar) (i : ProdIdx) : Option Bytes := do
  let p ← g.production? i
  let rule ← g.nontermName? p.rule
  some (rule ++ utf8 ":" ++ (p.symbols.flatMap fun s => utf8 " " ++ g.symbolText s) ++ utf8 ";")

end Grammar

end YaccTables
