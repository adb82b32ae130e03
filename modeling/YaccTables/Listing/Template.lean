import YaccTables.Listing

/-!
# The generated file, line by line

`Listing.raw` writes a listing as Go source, one line for each constant and each entry of a table.
Names stand only in quoted literals and in comments at the end of a line.
-/

namespace YaccTables.Listing

/-- A line behind a tab. -/
def indented (line : Bytes) : Bytes := tab :: line

/-- A text filled up with blanks to a width. -/
def padTo (width : Nat) (text : Bytes) : Bytes :=
  text ++ List.replicate (width - text.length) space

/-- The length of the longest text. -/
def widest (texts : List Bytes) : Nat := (texts.map List.length).foldl max 0

/-- A typed constant with a comment. -/
structure Constant where
  ident : Bytes
  type : Bytes
  value : Bytes
  comment : Bytes

/-- A typed constant with single blanks. -/
def Constant.line (c : Constant) : Bytes :=
  indented (c.ident ++ utf8 " " ++ c.type ++ utf8 " = " ++ c.value ++ utf8 " // " ++ c.comment)

/-- Definitions whose equal signs stand under each other. -/
def definitionLines (pairs : List (Bytes × Bytes)) : List Bytes :=
  let width := widest (pairs.map Prod.fst)
  pairs.map fun (name, value) => indented (padTo width name ++ utf8 " = " ++ value)

/-- A block of constants, with the blank line before it. -/
def constBlock (lines : List Bytes) : List Bytes :=
  [[], utf8 "const ("] ++ lines ++ [utf8 ")"]

/-- A table of entries, with the blank line before it. -/
def tableBlock (name type : String) (lines : List Bytes) : List Bytes :=
  [[], utf8 "var " ++ utf8 name ++ utf8 " = [...]" ++ utf8 type ++ utf8 "\x7b"] ++ lines
    ++ [utf8 "\x7d"]

/-- The first line of a file. -/
def headerLine (commandLine : Bytes) : Bytes :=
  utf8 "// Code generated by yaccgrm " ++ commandLine ++ utf8 ". DO NOT EDIT."

/-- The declarations of types, the same in every file. -/
def typeLines : List Bytes :=
  ["type (",
    "\tTerm    int",
    "\tNonTerm int",
    "\tProd    int",
    ")",
    "",
    "// Symbol is a terminal if IsTerm, else a nonterminal.",
    "type Symbol struct \x7b",
    "\tIsTerm bool",
    "\tIdx    int",
    "\x7d",
    "",
    "type Production struct \x7b",
    "\tRule    NonTerm",
    "\tSymbols []Symbol",
    "\t// Prec is the production's precedence, e.g. \"left(1)\", or \"\".",
    "\tPrec string",
    "\x7d"].map utf8

/-- The definitions of kind and fingerprint. -/
def identityPairs (l : Listing) : List (Bytes × Bytes) :=
  [(utf8 "Kind", Text.quote l.kind), (utf8 "Fingerprint", Text.quote l.fingerprint)]

/-- The constants of terminals. -/
def termConstants (l : Listing) : List Constant :=
  l.terms.map fun t => ⟨t.ident, utf8 "Term", decimal t.index, Text.quote t.name⟩

/-- The constants of nonterminals. -/
def nontermConstants (l : Listing) : List Constant :=
  l.nonterms.map fun n => ⟨n.ident, utf8 "NonTerm", decimal n.index, Text.quote n.name⟩

/-- The constants of productions. -/
def prodConstants (l : Listing) : List Constant :=
  l.prods.zipIdx.map fun (p, i) => ⟨p.ident, utf8 "Prod", decimal i, p.text⟩

/-- The definitions of the start production and the end terminal. -/
def boundaryPairs (l : Listing) : List (Bytes × Bytes) :=
  [(utf8 "StartProd", l.startProd), (utf8 "EndTerm", l.endTerm)]

/-- The definitions about the nonterminal that derives implicit tokens. -/
def implicitPairs (l : Listing) : List (Bytes × Bytes) :=
  match l.implicitNonterm with
  | some ident => [(utf8 "ImplicitNonTerm", ident), (utf8 "HasImplicit", utf8 "true")]
  | none => [(utf8 "ImplicitNonTerm", utf8 "NonTerm(-1)"), (utf8 "HasImplicit", utf8 "false")]

/-- The table of names of terminals: keys and values. -/
def termNames (l : Listing) : List (Bytes × Bytes) :=
  l.terms.map fun t => (t.ident, Text.quote t.name)

/-- The table of precedences of terminals. -/
def termPrecs (l : Listing) : List (Bytes × Bytes) :=
  l.terms.map fun t => (t.ident, Text.quote t.prec)

/-- The table of names of nonterminals. -/
def nontermNames (l : Listing) : List (Bytes × Bytes) :=
  l.nonterms.map fun n => (n.ident, Text.quote n.name)

/-- A symbol of a production as a literal. -/
def refLiteral (r : ListedRef) : Bytes :=
  utf8 "\x7bIsTerm: " ++ utf8 (if r.isTerminal then "true" else "false") ++ utf8 ", Idx: int("
    ++ r.ident ++ utf8 ")\x7d"

/-- A production as a literal, given the text of its symbols. -/
def prodLiteral (p : ListedProd) (symbols : Bytes) : Bytes :=
  utf8 "\x7bRule: " ++ p.rule ++ utf8 ", Symbols: []Symbol\x7b" ++ symbols ++ utf8 "\x7d, Prec: "
    ++ Text.quote p.prec ++ utf8 "\x7d"

/-- A production with a comma and a blank after each symbol. -/
def rawProd (p : ListedProd) : Bytes :=
  prodLiteral p (p.symbols.flatMap fun r => refLiteral r ++ utf8 ", ")

/-- An entry of a table with a single blank after the key. -/
def entryLine (entry : Bytes × Bytes) : Bytes :=
  indented (entry.1 ++ utf8 ": " ++ entry.2 ++ utf8 ",")

/-- The lines before the declarations. -/
def headLines (l : Listing) : List Bytes :=
  [headerLine l.commandLine, [], utf8 "package " ++ l.package, []]

/-- The lines of the generated file as they are first written. -/
def rawLines (l : Listing) : List Bytes :=
  l.headLines
    ++ typeLines
    ++ constBlock (definitionLines l.identityPairs)
    ++ constBlock (l.termConstants.map Constant.line)
    ++ constBlock (l.nontermConstants.map Constant.line)
    ++ constBlock (l.prodConstants.map Constant.line)
    ++ constBlock (definitionLines l.boundaryPairs ++ definitionLines l.implicitPairs)
    ++ tableBlock "TermNames" "string" (l.termNames.map entryLine)
    ++ tableBlock "TermPrecs" "string" (l.termPrecs.map entryLine)
    ++ tableBlock "NonTermNames" "string" (l.nontermNames.map entryLine)
    ++ tableBlock "Productions" "Production"
      (l.prods.map fun p => entryLine (p.ident, rawProd p))

/-- A text of lines, each ended by a line feed. -/
def fileText (lines : List Bytes) : Bytes := lines.flatMap (· ++ [lineFeed])

/-- The generated file as it is first written. -/
def raw (l : Listing) : Bytes := fileText l.rawLines

end YaccTables.Listing
