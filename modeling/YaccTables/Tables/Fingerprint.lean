import YaccTables.Digest.Md5
import YaccTables.Tables

/-!
# Fingerprints

The fingerprint of a grammar is the digest of its tables written out field by field: a record as
its fields in order of name between braces, a list between brackets, a text between quotes as it
is.
-/

namespace YaccTables.Tables

/-- A list between brackets. -/
def bracketed (items : List Bytes) : Bytes := utf8 "[" ++ (utf8 ",").intercalate items ++ utf8 "]"

/-- A record between braces. -/
def braced (fields : List (String × Bytes)) : Bytes :=
  utf8 "\x7b"
    ++ (utf8 ",").intercalate (fields.map fun (name, value) => utf8 name ++ utf8 ":" ++ value)
    ++ utf8 "\x7d"

/-- A text between quotes, without escapes. -/
def bareText (text : Bytes) : Bytes := utf8 "\"" ++ text ++ utf8 "\""

/-- The written form of a symbol. -/
def symbolForm (s : SymbolEntry) : Bytes :=
  braced [("Idx", decimal s.index), ("Term", utf8 (if s.isTerminal then "t" else "f"))]

/-- The written form of a nonterminal. -/
def nontermForm (n : NontermEntry) : Bytes :=
  braced [("Name", bareText n.name), ("Prods", bracketed (n.prods.map decimal))]

/-- The written form of a terminal. -/
def termForm (t : TermEntry) : Bytes :=
  braced [("Name", bareText t.name), ("Prec", bareText t.prec)]

/-- The written form of a production. -/
def prodForm (p : ProdEntry) : Bytes :=
  braced [("Prec", bareText p.prec), ("Rule", decimal p.rule),
    ("Symbols", bracketed (p.symbols.map symbolForm))]

/-- The text whose digest is the fingerprint. -/
def canonicalForm (t : Tables) : Bytes :=
  braced [
    ("EndTerm", decimal t.endTerm),
    ("ImplicitNonTerm", decimalInt t.implicitNonterm),
    ("Kind", bareText t.kind),
    ("NonTerminals", bracketed (t.nonterminals.map nontermForm)),
    ("Productions", bracketed (t.productions.map prodForm)),
    ("StartProd", decimal t.startProd),
    ("Terminals", bracketed (t.terminals.map termForm))]

/-- The fingerprint: the version of the form, then the digest in hexadecimal. -/
def fingerprint (t : Tables) : Bytes := utf8 "v1_" ++ hexBytes (Md5.digest t.canonicalForm)

end YaccTables.Tables
