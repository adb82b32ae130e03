import YaccTables.Listing.Identifier
import YaccTables.Tables.Fingerprint
import YaccTables.Text.Quoted

/-!
# Listings

A listing is what a generated file says about a grammar: an identifier for each terminal,
nonterminal and production, and the tables written with these identifiers.
-/

namespace YaccTables

/-- A terminal or nonterminal. -/
structure ListedSymbol where
  ident : Bytes
  name : Name
  index : Nat
  prec : Bytes := []
  deriving DecidableEq, Repr

/-- A symbol of a production. -/
structure ListedRef where
  isTerminal : Bool
  ident : Bytes
  deriving DecidableEq, Repr

/-- A production. -/
structure ListedProd where
  ident : Bytes
  /-- The identifier of its nonterminal. -/
  rule : Bytes
  symbols : List ListedRef
  prec : Bytes
  /-- The production in grammar text, fit for a comment. -/
  text : Bytes
  deriving DecidableEq, Repr

/-- What a generated file says. -/
structure Listing where
  commandLine : Bytes
  package : Bytes
  kind : Bytes
  fingerprint : Bytes
  terms : List ListedSymbol
  nonterms : List ListedSymbol
  prods : List ListedProd
  startProd : Bytes
  endTerm : Bytes
  /-- The identifier of the nonterminal that derives implicit tokens. -/
  implicitNonterm : Option Bytes
  deriving DecidableEq, Repr

/-- A piece of text within a comment that ends with its line. Graphic code points stay as they are,
others are escaped, and a stray byte becomes U+FFFD. -/
def commentPiece (isGraphic : Nat → Bool) : Text.Piece → Bytes
  | .stray _ => String.utf8EncodeChar '\ufffd'
  | .scalar c =>
    if isGraphic c.toNat then String.utf8EncodeChar c else Text.escapePoint c.toNat

/-- A text fit for a comment that ends with its line, by a table of graphic code points. -/
def commentTextWith (isGraphic : Nat → Bool) (text : Bytes) : Bytes :=
  (Text.pieces text).flatMap (commentPiece isGraphic)

/-- A text fit for a comment that ends with its line. -/
def commentText : Bytes → Bytes := commentTextWith Text.isGraphic

namespace Listing

/-- The names that a generated file declares in any case. -/
def reserved : List Bytes :=
  ["Term", "NonTerm", "Prod", "Symbol", "Production",
    "TermNames", "NonTermNames", "Productions", "TermPrecs",
    "Kind", "Fingerprint", "StartProd", "EndTerm", "ImplicitNonTerm", "HasImplicit"].map utf8

/-- How a listing spells what it takes from names: their camel case in identifiers, and which of
their code points are graphic in comments. -/
structure Spelling where
  camel : Bytes → Bytes
  isGraphic : Nat → Bool

/-- The spelling of listings. -/
def Spelling.standard : Spelling := { camel := camelCase, isGraphic := Text.isGraphic }

/-- The identifiers of names numbered from zero, which begin with a stem. -/
def idents (camel : Bytes → Bytes) (stem : String) (names : List Name) : List Bytes :=
  ({ stem := utf8 stem, taken := reserved, camel } : IdentTable).assign
    (names.zipIdx.map fun (name, i) => ((i : Int), name))

/-- The identifier of a production. -/
def prodIdent (i : Nat) : Bytes := utf8 "Prod" ++ decimal i

/-- An identifier by its number; out of range it is empty. -/
def identAt (ids : List Bytes) (i : Nat) : Bytes := ids[i]?.getD []

/-- The listing of a grammar in a package, with a spelling. The command line is for the reader of
the file. -/
def ofGrammarWith (sp : Spelling) (g : Grammar) (package commandLine : Bytes) : Listing :=
  let termIds := idents sp.camel "Term" (g.terminals.map Terminal.name)
  let nontermIds := idents sp.camel "NonTerm" (g.nonterminals.map Nonterminal.name)
  let ref : Symbol → ListedRef
    | .terminal i => ⟨true, identAt termIds i.val⟩
    | .nonterminal i => ⟨false, identAt nontermIds i.val⟩
  { commandLine
    package
    kind := g.kind.text
    fingerprint := g.tables.fingerprint
    terms := (g.terminals.zip termIds).zipIdx.map fun ((t, ident), index) =>
      { ident, name := t.name, index, prec := Precedence.textOf t.prec }
    nonterms := (g.nonterminals.zip nontermIds).zipIdx.map fun ((n, ident), index) =>
      { ident, name := n.name, index }
    prods := g.productions.zipIdx.map fun (p, i) =>
      { ident := prodIdent i
        rule := identAt nontermIds p.rule.val
        symbols := p.symbols.map ref
        prec := Precedence.textOf p.prec
        text := commentTextWith sp.isGraphic ((g.prodText? ⟨i⟩).getD []) }
    startProd := prodIdent g.startProd.val
    endTerm := identAt termIds g.endTerm.val
    implicitNonterm := g.implicitNonterm.map fun i => identAt nontermIds i.val }

/-- The listing of a grammar in a package. -/
def ofGrammar : Grammar → Bytes → Bytes → Listing := ofGrammarWith .standard

end Listing

end YaccTables
