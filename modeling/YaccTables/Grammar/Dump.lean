import YaccTables.Grammar
import YaccTables.Outline
import YaccTables.Tables.Json

/-!
# Dumps

A grammar is dumped either as an outline of its terminals, nonterminals and productions or as the
JSON text of its tables.
-/

namespace YaccTables

namespace Grammar

/-- A line of an outline with the precedence at its end. -/
def withPrec (line : Bytes) : Option Precedence → Bytes
  | none => line
  | some prec => line ++ utf8 " " ++ prec.text

/-- The line for a numbered thing. -/
def numberedLine (n : Nat) (text : Bytes) : Bytes := decimal n ++ utf8 " " ++ text

/-- The line for a terminal. -/
def terminalLine (t : Terminal) (i : Nat) : Bytes := withPrec (numberedLine i t.name) t.prec

/-- The line for a production. -/
def productionLine (g : Grammar) (i : ProdIdx) : Bytes :=
  withPrec (numberedLine i.val ((g.prodText? i).getD [])) ((g.prodPrec? i).getD none)

/-- What is said of a nonterminal besides its name. -/
def remark (g : Grammar) (i : NontermIdx) : Bytes :=
  if i = g.startRule then utf8 " (start)"
  else if g.implicitNonterm = some i then utf8 " (implicit)"
  else []

/-- A nonterminal over its productions. -/
def nonterminalOutline (g : Grammar) (n : Nonterminal) (i : Nat) : Outline :=
  .node (numberedLine i n.name ++ g.remark ⟨i⟩) (n.prods.map fun p => .leaf (g.productionLine p))

/-- The outline of a grammar. -/
def outline (g : Grammar) : Outline :=
  .node (g.kind.text ++ utf8 " grammar") [
    .node (utf8 "terminals") (g.terminals.zipIdx.map fun (t, i) => .leaf (terminalLine t i)),
    .node (utf8 "nonterminals")
      (g.nonterminals.zipIdx.map fun (n, i) => g.nonterminalOutline n i)]

end Grammar

/-- How a grammar is dumped. -/
inductive DumpFormat
  | text
  | json
  deriving DecidableEq, Repr

namespace DumpFormat

/-- The format of a name. -/
def ofName? (name : Bytes) : Option DumpFormat :=
  if name = utf8 "text" then some .text
  else if name = utf8 "json" then some .json
  else none

/-- The complaint about a name that is none of a format. -/
def unknownName (name : Bytes) : Bytes :=
  utf8 "unknown dump format " ++ Text.quote name ++ utf8 " (want text or json)"

end DumpFormat

/-- The dump of a grammar. -/
def Grammar.dump (g : Grammar) : DumpFormat → Bytes
  | .text => g.outline.print
  | .json => g.tables.jsonText

end YaccTables
