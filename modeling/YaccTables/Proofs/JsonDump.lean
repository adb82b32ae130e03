import YaccTables.Grammar.Dump
import YaccTables.Proofs.Fingerprint
import YaccTables.Proofs.JsonReading

/-!
# Tables from a JSON dump

Tables are read from a JSON value by the names of their fields; a precedence that is left out is the
empty one. What `toJson` makes of tables is read as these tables (`Tables.ofJson?_toJson`), and the
text of a dump is read as that value, so that a dump loses nothing of a grammar whose names are
UTF-8 (`Grammar.jsonDump_determines_tables`). The other texts, of kinds and precedences, always are.

Names must be UTF-8, since a byte that is part of no code point is written as U+FFFD.
-/

namespace YaccTables

/-! ## Reading by the names of fields -/

namespace JsonValue

variable {α : Type}

def toBool? : JsonValue → Option Bool
  | .bool b => some b
  | _ => none

def toInt? : JsonValue → Option Int
  | .number n => some n
  | _ => none

def toNat? : JsonValue → Option Nat
  | .number (.ofNat n) => some n
  | _ => none

def toText? : JsonValue → Option Bytes
  | .text t => some t
  | _ => none

/-- The items of an array, each of which is read. -/
def toList? (read? : JsonValue → Option α) : JsonValue → Option (List α)
  | .array items => items.mapM read?
  | _ => none

/-- The value of a field. -/
def get? (name : String) : JsonValue → Option JsonValue
  | .object fields => fields.lookup name
  | _ => none

/-- A field that must be there. -/
def field? (name : String) (read? : JsonValue → Option α) (v : JsonValue) : Option α :=
  (v.get? name).bind read?

/-- A text that is empty if its field is left out. -/
def textField? (name : String) (v : JsonValue) : Option Bytes :=
  match v.get? name with
  | none => some []
  | some value => value.toText?

/-- An array is read back item by item. -/
theorem toList?_array {read? : JsonValue → Option α} {write : α → JsonValue}
    (h : ∀ x, read? (write x) = some x) (xs : List α) :
    toList? read? (.array (xs.map write)) = some xs := by
  refine mapM_eq_some_iff.mpr ?_
  rw [List.forall₂_map_left_iff, List.forall₂_same]
  exact fun x _ => h x

section Fields

variable {name other : String} {read? : JsonValue → Option α} {value : JsonValue}
  {fields : List (String × JsonValue)}

/-- The first field of a name counts. -/
theorem get?_cons_self : get? name (.object ((name, value) :: fields)) = some value :=
  List.lookup_cons_self

/-- A field of another name is passed over. -/
theorem get?_cons_ne (h : name ≠ other) :
    get? name (.object ((other, value) :: fields)) = get? name (.object fields) := by
  rw [get?, get?, List.lookup_cons, beq_false_of_ne h]

/-- The first field of a name is the one that is read. -/
theorem field?_cons_self : field? name read? (.object ((name, value) :: fields)) = read? value := by
  rw [field?, get?_cons_self, Option.bind_some]

/-- A field of another name is not read. -/
theorem field?_cons_ne (h : name ≠ other) :
    field? name read? (.object ((other, value) :: fields)) =
      field? name read? (.object fields) := by
  rw [field?, field?, get?_cons_ne h]

/-- A field of another name is no text of this one. -/
theorem textField?_cons_ne (h : name ≠ other) :
    textField? name (.object ((other, value) :: fields)) = textField? name (.object fields) := by
  rw [textField?, textField?, get?_cons_ne h]

end Fields

end JsonValue

namespace Tables

open JsonValue

def symbol? (v : JsonValue) : Option SymbolEntry := do
  let isTerminal ← v.field? "term" toBool?
  let index ← v.field? "idx" toNat?
  some ⟨isTerminal, index⟩

def nonterm? (v : JsonValue) : Option NontermEntry := do
  let name ← v.field? "name" toText?
  let prods ← v.field? "prods" (toList? toNat?)
  some ⟨name, prods⟩

def term? (v : JsonValue) : Option TermEntry := do
  let name ← v.field? "name" toText?
  let prec ← v.textField? "prec"
  some ⟨name, prec⟩

def prod? (v : JsonValue) : Option ProdEntry := do
  let rule ← v.field? "rule" toNat?
  let symbols ← v.field? "symbols" (toList? symbol?)
  let prec ← v.textField? "prec"
  some ⟨rule, symbols, prec⟩

/-- The tables that a JSON value gives the fields of. -/
def ofJson? (v : JsonValue) : Option Tables := do
  let kind ← v.field? "kind" toText?
  let nonterminals ← v.field? "nonterminals" (toList? nonterm?)
  let terminals ← v.field? "terminals" (toList? term?)
  let productions ← v.field? "productions" (toList? prod?)
  let startProd ← v.field? "start_prod" toNat?
  let endTerm ← v.field? "end_term" toNat?
  let implicitNonterm ← v.field? "implicit_nonterm" toInt?
  some { kind, nonterminals, terminals, productions, startProd, endTerm, implicitNonterm }

/-- The tables that JSON text gives the fields of. -/
def ofJsonText? (text : Bytes) : Option Tables := (ofText? text).bind ofJson?

/-- A precedence is read back, and also that there is none. -/
theorem textField?_precField (prec : Bytes) :
    textField? "prec" (.object (precField prec)) = some prec := by
  cases prec with
  | nil => rfl
  | cons b rest =>
    rw [textField?, precField, if_neg (List.cons_ne_nil b rest), get?_cons_self]
    rfl

/-- A symbol is read back. -/
theorem symbol?_toJson (s : SymbolEntry) :
    symbol? (.object [("term", .bool s.isTerminal), ("idx", indexValue s.index)]) = some s := by
  simp (disch := decide) only [symbol?, field?_cons_self, field?_cons_ne]
  rfl

theorem toNat?_indexValue (n : Nat) : toNat? (indexValue n) = some n := rfl

/-- A nonterminal is read back with the numbers of its productions. -/
theorem nonterm?_toJson (n : NontermEntry) :
    nonterm? (.object [("name", .text n.name), ("prods", .array (n.prods.map indexValue))])
      = some n := by
  have hprods : toList? toNat? (.array (n.prods.map indexValue)) = some n.prods :=
    toList?_array toNat?_indexValue n.prods
  simp (disch := decide) only [nonterm?, field?_cons_self, field?_cons_ne, hprods]
  rfl

/-- A terminal is read back with its precedence. -/
theorem term?_toJson (e : TermEntry) :
    term? (.object (("name", .text e.name) :: precField e.prec)) = some e := by
  simp (disch := decide) only [term?, field?_cons_self, textField?_cons_ne, textField?_precField]
  rfl

/-- A production is read back with its symbols and its precedence. -/
theorem prod?_toJson (p : ProdEntry) :
    prod? (.object ([("rule", indexValue p.rule),
      ("symbols", .array (p.symbols.map fun s =>
        .object [("term", .bool s.isTerminal), ("idx", indexValue s.index)]))]
      ++ precField p.prec)) = some p := by
  have hsymbols := toList?_array symbol?_toJson p.symbols
  simp (disch := decide) only [prod?, List.cons_append, List.nil_append, field?_cons_self,
    field?_cons_ne, textField?_cons_ne, textField?_precField, hsymbols]
  rfl

/-- Tables are read back from their JSON value. -/
theorem ofJson?_toJson (t : Tables) : ofJson? t.toJson = some t := by
  have hnonterms := toList?_array nonterm?_toJson t.nonterminals
  have hterms := toList?_array term?_toJson t.terminals
  have hprods := toList?_array prod?_toJson t.productions
  simp (disch := decide) only [ofJson?, toJson, field?_cons_self, field?_cons_ne, hnonterms, hterms,
    hprods]
  rfl

/-! ## Texts that are UTF-8 -/

open Text (isUtf8)

/-- All texts of the tables are UTF-8. -/
structure Encodable (t : Tables) : Prop where
  kind : isUtf8 t.kind = true
  nonterminals : ∀ n ∈ t.nonterminals, isUtf8 n.name = true
  terminals : ∀ e ∈ t.terminals, isUtf8 e.name = true ∧ isUtf8 e.prec = true
  productions : ∀ p ∈ t.productions, isUtf8 p.prec = true

open JsonReader (Encoded)

/-- A text in UTF-8 can be written. -/
theorem encoded_text {text : Bytes} (h : isUtf8 text = true) : Encoded (.text text) := by
  obtain ⟨cs, rfl⟩ := Text.isUtf8_iff.mp h
  exact .text cs

/-- An array can be written if its items can. -/
theorem encoded_array {α : Type} {write : α → JsonValue} {xs : List α}
    (h : ∀ x ∈ xs, Encoded (write x)) : Encoded (.array (xs.map write)) :=
  .array (List.forall_mem_map.mpr h)

/-- An object can be written if its fields can. -/
theorem encoded_object_cons {name : String} {value : JsonValue} {fields : List (String × JsonValue)}
    (hvalue : Encoded value) (hfields : Encoded (.object fields)) :
    Encoded (.object ((name, value) :: fields)) := by
  cases hfields with
  | object h => exact .object (List.forall_mem_cons.mpr ⟨hvalue, h⟩)

theorem encoded_object_nil : Encoded (.object []) := .object (fun _ h => absurd h List.not_mem_nil)

/-- A precedence in UTF-8 can be written. -/
theorem encoded_precField {prec : Bytes} (h : isUtf8 prec = true) :
    Encoded (.object (precField prec)) := by
  rw [precField]
  split
  · exact encoded_object_nil
  · exact encoded_object_cons (encoded_text h) encoded_object_nil

/-- Tables with names in UTF-8 can be written. -/
theorem Encodable.toJson {t : Tables} (ht : t.Encodable) : Encoded t.toJson := by
  have hindex (n : Nat) : Encoded (indexValue n) := .number n
  refine encoded_object_cons (encoded_text ht.kind) ?_
  refine encoded_object_cons (encoded_array fun n hn => ?_) ?_
  · exact encoded_object_cons (encoded_text (ht.nonterminals n hn))
      (encoded_object_cons (encoded_array fun i _ => hindex i) encoded_object_nil)
  refine encoded_object_cons (encoded_array fun e he => ?_) ?_
  · obtain ⟨hname, hprec⟩ := ht.terminals e he
    exact encoded_object_cons (encoded_text hname) (encoded_precField hprec)
  refine encoded_object_cons (encoded_array fun p hp => ?_) ?_
  · refine encoded_object_cons (hindex p.rule) (encoded_object_cons ?_
      (encoded_precField (ht.productions p hp)))
    exact encoded_array fun s _ => encoded_object_cons (.bool s.isTerminal)
      (encoded_object_cons (hindex s.index) encoded_object_nil)
  exact encoded_object_cons (hindex t.startProd) (encoded_object_cons (hindex t.endTerm)
    (encoded_object_cons (.number t.implicitNonterm) encoded_object_nil))

/-- Tables are read back from the text of their JSON value. -/
theorem ofJsonText?_jsonText {t : Tables} (ht : t.Encodable) :
    ofJsonText? t.jsonText = some t := by
  rw [ofJsonText?, jsonText, ofText?_render ht.toJson, Option.bind_some, ofJson?_toJson]

end Tables

/-! ## Kinds and precedences -/

theorem isUtf8_decimalInt (n : Int) : Text.isUtf8 (decimalInt n) = true := by
  obtain ⟨cs, hcs, -⟩ := JsonReader.spells_number n
  exact Text.isUtf8_iff.mpr ⟨cs, hcs⟩

/-- A word with a number in brackets is UTF-8. -/
theorem isUtf8_numbered (word : String) (n : Int) :
    Text.isUtf8 (utf8 word ++ decimalInt n ++ utf8 ")") = true :=
  Text.isUtf8_append (Text.isUtf8_append (Text.isUtf8_utf8 word) (isUtf8_decimalInt n))
    (Text.isUtf8_utf8 ")")

/-- The name of a kind is UTF-8. -/
theorem Kind.isUtf8_text (kind : Kind) : Text.isUtf8 kind.text = true := by
  cases kind with
  | original => exact Text.isUtf8_utf8 "original"
  | eco => exact Text.isUtf8_utf8 "eco"
  | other code => exact isUtf8_numbered "Kind(" code

/-- The name of an associativity is UTF-8. -/
theorem Assoc.isUtf8_text (assoc : Assoc) : Text.isUtf8 assoc.text = true := by
  cases assoc with
  | left => exact Text.isUtf8_utf8 "left"
  | right => exact Text.isUtf8_utf8 "right"
  | nonassoc => exact Text.isUtf8_utf8 "nonassoc"
  | other code => exact isUtf8_numbered "AssocKind(" code

/-- A precedence is written in UTF-8. -/
theorem Precedence.isUtf8_textOf (prec : Option Precedence) :
    Text.isUtf8 (Precedence.textOf prec) = true := by
  cases prec with
  | none => rfl
  | some p =>
    have hword := Text.isUtf8_append (Assoc.isUtf8_text p.assoc) (Text.isUtf8_utf8 "(")
    have hlevel := Text.isUtf8_append hword (isUtf8_decimalInt p.level)
    exact Text.isUtf8_append hlevel (Text.isUtf8_utf8 ")")

namespace Grammar

/-- All names of a grammar are UTF-8. -/
structure NamesEncodable (g : Grammar) : Prop where
  nonterminals : ∀ n ∈ g.nonterminals, Text.isUtf8 n.name = true
  terminals : ∀ t ∈ g.terminals, Text.isUtf8 t.name = true

/-- Tables can be written if the names of their grammar are UTF-8. -/
theorem NamesEncodable.tables {g : Grammar} (hg : g.NamesEncodable) : g.tables.Encodable where
  kind := g.kind.isUtf8_text
  nonterminals := List.forall_mem_map.mpr hg.nonterminals
  terminals :=
    List.forall_mem_map.mpr fun t ht => ⟨hg.terminals t ht, Precedence.isUtf8_textOf t.prec⟩
  productions := List.forall_mem_map.mpr fun p _ => Precedence.isUtf8_textOf p.prec

/-- **A JSON dump is read back as the tables that were dumped**, if all names are UTF-8. So grammars
with one dump have the same tables. -/
theorem jsonDump_determines_tables {g g' : Grammar} (hg : g.NamesEncodable)
    (hg' : g'.NamesEncodable) :
    Tables.ofJsonText? (g.dump .json) = some g.tables ∧
      (g.dump .json = g'.dump .json → g.tables = g'.tables) := by
  have hread : ∀ {g : Grammar}, g.NamesEncodable →
      Tables.ofJsonText? (g.dump .json) = some g.tables :=
    fun hg => Tables.ofJsonText?_jsonText hg.tables
  refine ⟨hread hg, fun hdump => ?_⟩
  have htables := hread hg
  rw [hdump, hread hg'] at htables
  exact (Option.some.inj htables).symm

/-- Names that need every sort of escape, one of which reads like the end of an entry and a
precedence. -/
def pretender : Source :=
  { text := utf8 "%left '<&>' %start s %% s: '<&>' | '\",\"prec\":\"left(0)' \"\\\x01\u2028'\";" }

/-- The same grammar in another layout. -/
def pretenderAgain : Source :=
  { text := utf8 "%start s\n%left \"<&>\" // first\n%%\ns: \"<&>\";\n"
      ++ utf8 "s: '\",\"prec\":\"left(0)' \"\\\x01\u2028'\";" }

theorem jsonDump_determines_tables_pretender : ∃ g g', ofSource .original pretender = .ok g ∧
    ofSource .original pretenderAgain = .ok g' ∧ g.NamesEncodable ∧ g'.NamesEncodable ∧
    Tables.ofJsonText? (g.dump .json) = some g.tables ∧ g.dump .json = g'.dump .json ∧
    g.tables = g'.tables := by
  let marked : Name := utf8 "<&>"
  let entry : Name := utf8 "\",\"prec\":\"left(0)"
  let control : Name := utf8 "\\\x01\u2028'"
  let a : Description :=
    { start := utf8 "s"
      tokens := [marked, entry, control]
      precs := [(marked, ⟨0, .left⟩)]
      nextLevel := 1
      rules := [⟨utf8 "s", [⟨[.token marked], []⟩, ⟨[.token entry, .token control], []⟩]⟩] }
  let groups : List (List Lowering.Body) :=
    [[⟨[.nonterminal ⟨1⟩], none⟩],
     [⟨[.terminal ⟨1⟩], some ⟨0, .left⟩⟩, ⟨[.terminal ⟨2⟩, .terminal ⟨3⟩], none⟩]]
  have hparse : Description.parse pretender = .ok a := by decide +kernel
  have hparse' : Description.parse pretenderAgain = .ok a := by decide +kernel
  have h := ofSource_of_listed .original groups hparse (by decide) (by decide) before_markers
    (by decide)
  have h' := ofSource_of_listed .original groups hparse' (by decide) (by decide) before_markers
    (by decide)
  have hnames : (Lowering.grammar .original (scopeOf .original a [utf8 "^", utf8 "s"])
      groups).NamesEncodable := ⟨by decide +kernel, by decide +kernel⟩
  obtain ⟨hread, htables⟩ := jsonDump_determines_tables hnames hnames
  exact ⟨_, _, h, h', hnames, hnames, hread, rfl, htables rfl⟩

end Grammar

end YaccTables
