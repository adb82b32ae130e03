import Mathlib.Data.List.Forall2
import YaccTables.Proofs.ListingTables
import YaccTables.Proofs.Literals
import YaccTables.Proofs.TextLines

/-!
# The lines of a generated file

No name breaks the lines of a generated file. `Listing.roles` says what each line of the file is
for, given nothing but the numbers of terminals, nonterminals and productions, and
`Listing.lineByLine_ofGrammar` says that the lines of the file fill these roles one by one. A line
has at most one place that a name gets into: the comment that it ends with, or a literal. The rest
of it is fixed text, numbers and identifiers (`Listing.Fills`).

Whatever fills a role is a single line (`Listing.Fills.onLine`), and this is why the text falls
apart into the lines that it was put together from.
-/

namespace YaccTables

/-- An identifier is on one line. -/
theorem IsIdentifier.onLine {text : Bytes} (h : IsIdentifier text) : lineFeed ∉ text := by
  cases text with
  | nil => exact h.elim
  | cons first rest =>
    intro hmem
    rcases List.mem_cons.mp hmem with rfl | hmem
    · exact absurd h.1 (by decide)
    · exact absurd (h.2 _ hmem) (by decide)

theorem lineFeed_notMem_decimal (n : Nat) : lineFeed ∉ decimal n :=
  fun hmem => absurd (isDecimal_of_mem_decimal hmem) (by decide)

namespace Listing

/-- A spelling that keeps identifiers and comments within their bounds. -/
structure Spelling.Legible (sp : Spelling) : Prop where
  camel : WritesWords sp.camel
  graphic : IsGraphicTable sp.isGraphic

/-- The spelling of listings is legible. -/
theorem Spelling.legible_standard : Spelling.standard.Legible where
  camel := writesWords_camelCase
  graphic := isGraphicTable_isGraphic

/-! ## What lines are made of -/

/-- The lines that begin and end blocks of constants and tables, those apart that name a table. -/
def marks : List String := ["const (", ")", "\x7d"]

/-- The tables with the types of their entries. -/
def tableTypes : List (String × String) :=
  [("TermNames", "string"), ("TermPrecs", "string"), ("NonTermNames", "string"),
    ("Productions", "Production")]

/-- The line that begins a table. -/
def tableStart (table : String × String) : Bytes :=
  utf8 "var " ++ utf8 table.1 ++ utf8 " = [...]" ++ utf8 table.2 ++ utf8 "\x7b"

/-- A line around the tables. -/
inductive IsFrame (package commandLine : Bytes) : Bytes → Prop
  | header : IsFrame package commandLine (headerLine commandLine)
  | package : IsFrame package commandLine (utf8 "package " ++ package)
  | empty : IsFrame package commandLine []
  | type {line : Bytes} (h : line ∈ typeLines) : IsFrame package commandLine line
  | mark {text : String} (h : text ∈ marks) : IsFrame package commandLine (utf8 text)
  | table {table : String × String} (h : table ∈ tableTypes) :
    IsFrame package commandLine (tableStart table)
  | definition {name value : Bytes} (width : Nat) (hname : name ∈ reserved)
    (hvalue : IsIdentifier value ∨ IsLiteral value ∨ value = utf8 "NonTerm(-1)") :
    IsFrame package commandLine (indented (padTo width name ++ utf8 " = " ++ value))

/-- A numbered constant with a text in the comment that its line ends with. -/
structure IsConstant (ident type : Bytes) (i : Nat) (text line : Bytes) : Prop where
  eq : line = tab :: (ident ++ utf8 " " ++ type ++ utf8 " = " ++ decimal i ++ utf8 " "
    ++ remark text)
  ident : IsIdentifier ident
  type : IsIdentifier type
  remark : IsRemark text

/-- An entry of a table with a literal as its value. -/
structure IsEntry (ident value line : Bytes) : Prop where
  eq : line = tab :: (ident ++ utf8 ": " ++ value ++ utf8 ",")
  ident : IsIdentifier ident
  literal : IsLiteral value

/-- An entry of the table of productions. -/
structure IsProdEntry (p : ListedProd) (line : Bytes) : Prop where
  eq : line = entryLine (p.ident, rawProd p)
  ident : IsIdentifier p.ident
  rule : IsIdentifier p.rule
  symbols : ∀ r ∈ p.symbols, IsIdentifier r.ident
  prec : IsLiteral (Text.quote p.prec)

section OnLine

variable {package commandLine ident type value text line : Bytes} {i : Nat} {p : ListedProd}

/-- Lines around the tables are single lines if package and command line are. -/
theorem IsFrame.onLine (hp : lineFeed ∉ package) (hc : lineFeed ∉ commandLine)
    (h : IsFrame package commandLine line) : lineFeed ∉ line := by
  cases h with
  | header =>
    exact List.not_mem_append (List.not_mem_append (by decide +kernel) hc) (by decide)
  | package => exact List.not_mem_append (by decide) hp
  | empty => exact List.not_mem_nil
  | type h =>
    have htypes : ∀ line ∈ typeLines, lineFeed ∉ line := by decide +kernel
    exact htypes line h
  | @mark text h =>
    have hmarks : ∀ text ∈ marks, lineFeed ∉ utf8 text := by decide +kernel
    exact hmarks text h
  | @table table h =>
    have htables : ∀ table ∈ tableTypes, lineFeed ∉ tableStart table := by decide +kernel
    exact htables table h
  | @definition name value width hname hvalue =>
    have hreserved : ∀ name ∈ reserved, lineFeed ∉ name := by decide +kernel
    have hpad : lineFeed ∉ List.replicate (width - name.length) space :=
      fun hmem => absurd (List.eq_of_mem_replicate hmem) (by decide)
    have hvalue : lineFeed ∉ value := by
      rcases hvalue with h | h | rfl
      · exact h.onLine
      · exact h.onLine
      · decide
    exact List.not_mem_cons_of_ne_of_not_mem (by decide) (List.not_mem_append
      (List.not_mem_append (List.not_mem_append (hreserved name hname) hpad) (by decide)) hvalue)

/-- A constant with its comment is on one line. -/
theorem IsConstant.onLine (h : IsConstant ident type i text line) : lineFeed ∉ line := by
  have hremark : lineFeed ∉ YaccTables.remark text :=
    List.not_mem_append (by decide) h.remark.onLine
  rw [h.eq]
  simp only [List.mem_cons, List.mem_append, not_or]
  exact ⟨by decide, ⟨⟨⟨⟨⟨h.ident.onLine, by decide⟩, h.type.onLine⟩, by decide⟩,
    lineFeed_notMem_decimal i⟩, by decide⟩, hremark⟩

/-- An entry with its literal is on one line. -/
theorem IsEntry.onLine (h : IsEntry ident value line) : lineFeed ∉ line := by
  rw [h.eq]
  simp only [List.mem_cons, List.mem_append, not_or]
  exact ⟨by decide, ⟨⟨h.ident.onLine, by decide⟩, h.literal.onLine⟩, by decide⟩

/-- A symbol of a production is on one line. -/
theorem lineFeed_notMem_refLiteral {r : ListedRef} (h : IsIdentifier r.ident) :
    lineFeed ∉ refLiteral r := by
  have hflag : lineFeed ∉ utf8 (if r.isTerminal then "true" else "false") := by
    split
    · decide
    · decide
  simp only [refLiteral, List.mem_append, not_or]
  exact ⟨⟨⟨⟨by decide, hflag⟩, by decide⟩, h.onLine⟩, by decide⟩

/-- An entry of the table of productions is on one line. -/
theorem IsProdEntry.onLine (h : IsProdEntry p line) : lineFeed ∉ line := by
  have hsymbols : lineFeed ∉ p.symbols.flatMap fun r => refLiteral r ++ utf8 ", " := by
    intro hmem
    obtain ⟨r, hr, hmem⟩ := List.mem_flatMap.mp hmem
    rcases List.mem_append.mp hmem with hmem | hmem
    · exact lineFeed_notMem_refLiteral (h.symbols r hr) hmem
    · exact absurd hmem (by decide)
  rw [h.eq]
  simp only [entryLine, rawProd, prodLiteral, indented, List.mem_cons, List.mem_append, not_or]
  exact ⟨by decide, ⟨⟨h.ident.onLine, by decide⟩, ⟨⟨⟨⟨⟨by decide, h.rule.onLine⟩,
    by decide +kernel⟩, hsymbols⟩, by decide⟩, h.prec.onLine⟩, by decide⟩, by decide⟩

end OnLine

/-! ## What lines are for -/

/-- What a line of the file is for. -/
inductive Role
  | frame
  | term (i : Nat)
  | nonterm (i : Nat)
  | prod (i : Nat)
  | termName (i : Nat)
  | termPrec (i : Nat)
  | nontermName (i : Nat)
  | production (i : Nat)
  deriving DecidableEq, Repr

/-- Two lines before some others and one behind them. -/
def block (inside : List Role) : List Role := [.frame, .frame] ++ inside ++ [.frame]

/-- What the lines of the file of a grammar are for, from the first to the last. -/
def roles (g : Grammar) : List Role :=
  let terms := List.range g.terminals.length
  let nonterms := List.range g.nonterminals.length
  let prods := List.range g.productions.length
  List.replicate 22 .frame
    ++ block (List.replicate 2 .frame)
    ++ block (terms.map .term)
    ++ block (nonterms.map .nonterm)
    ++ block (prods.map .prod)
    ++ block (List.replicate 4 .frame)
    ++ block (terms.map .termName)
    ++ block (terms.map .termPrec)
    ++ block (nonterms.map .nontermName)
    ++ block (prods.map .production)

/-- The number of lines, given the numbers of symbols and productions. -/
theorem length_roles (g : Grammar) : (roles g).length
    = 55 + 3 * g.terminals.length + 2 * g.nonterminals.length + 2 * g.productions.length := by
  simp only [roles, block, List.length_append, List.length_replicate, List.length_cons,
    List.length_nil, List.length_map, List.length_range]
  omega

/-- A production as it is listed. -/
def listedProd (sp : Spelling) (g : Grammar) (i : Nat) (p : IndexedProduction) : ListedProd :=
  { ident := prodIdent i
    rule := identAt (nontermIds sp g) p.rule.val
    symbols := p.symbols.map (listedRef sp g)
    prec := Precedence.textOf p.prec
    text := commentTextWith sp.isGraphic ((g.prodText? ⟨i⟩).getD []) }

/-- Whether a line does what it is for. -/
def Fills (sp : Spelling) (g : Grammar) (package commandLine : Bytes) : Role → Bytes → Prop
  | .frame, line => IsFrame package commandLine line
  | .term i, line => ∃ t, g.terminals[i]? = some t ∧
    IsConstant (identAt (termIds sp g) i) (utf8 "Term") i (Text.quote t.name) line
  | .nonterm i, line => ∃ n, g.nonterminals[i]? = some n ∧
    IsConstant (identAt (nontermIds sp g) i) (utf8 "NonTerm") i (Text.quote n.name) line
  | .prod i, line => ∃ text, g.prodText? ⟨i⟩ = some text ∧
    IsConstant (prodIdent i) (utf8 "Prod") i (commentTextWith sp.isGraphic text) line
  | .termName i, line => ∃ t, g.terminals[i]? = some t ∧
    IsEntry (identAt (termIds sp g) i) (Text.quote t.name) line
  | .termPrec i, line => ∃ t, g.terminals[i]? = some t ∧
    IsEntry (identAt (termIds sp g) i) (Text.quote (Precedence.textOf t.prec)) line
  | .nontermName i, line => ∃ n, g.nonterminals[i]? = some n ∧
    IsEntry (identAt (nontermIds sp g) i) (Text.quote n.name) line
  | .production i, line => ∃ p, g.productions[i]? = some p ∧ IsProdEntry (listedProd sp g i p) line

section Filling

variable {sp : Spelling} {g : Grammar} {package commandLine : Bytes}

/-- Whatever a line is for, it is a single line. -/
theorem Fills.onLine (hp : lineFeed ∉ package) (hc : lineFeed ∉ commandLine) {role : Role}
    {line : Bytes} (h : Fills sp g package commandLine role line) : lineFeed ∉ line := by
  cases role with
  | frame => exact IsFrame.onLine hp hc h
  | term i => exact h.choose_spec.2.onLine
  | nonterm i => exact h.choose_spec.2.onLine
  | prod i => exact h.choose_spec.2.onLine
  | termName i => exact h.choose_spec.2.onLine
  | termPrec i => exact h.choose_spec.2.onLine
  | nontermName i => exact h.choose_spec.2.onLine
  | production i => exact h.choose_spec.2.onLine

/-! ### Roles filled one by one -/

/-- Lines that all belong to the frame. -/
theorem forall₂_frames {R : Role → Bytes → Prop} {n : Nat} {ls : List Bytes} (hn : ls.length = n)
    (h : ∀ l ∈ ls, R .frame l) : List.Forall₂ R (List.replicate n .frame) ls := by
  subst hn
  induction ls with
  | nil => exact .nil
  | cons l ls ih =>
    obtain ⟨hl, hls⟩ := List.forall_mem_cons.mp h
    exact .cons hl (ih hls)

/-- One line for each of several numbered things. -/
theorem forall₂_numbered {α : Type} {R : Role → Bytes → Prop} {role : Nat → Role} {xs : List α}
    {line : α × Nat → Bytes} (h : ∀ i x, xs[i]? = some x → R (role i) (line (x, i))) :
    List.Forall₂ R ((List.range xs.length).map role) (xs.zipIdx.map line) := by
  rw [List.range_eq_range', ← List.zipIdx_map_snd 0 xs, List.map_map, List.forall₂_map_left_iff,
    List.forall₂_map_right_iff, List.forall₂_same]
  exact fun entry hentry => h entry.2 entry.1 (List.mk_mem_zipIdx_iff_getElem?.mp hentry)

/-- Two lines go before a block and one behind it. -/
theorem fills_block {start stop : Bytes} {inside : List Role} {ls : List Bytes}
    (hstart : IsFrame package commandLine start) (hstop : IsFrame package commandLine stop)
    (h : List.Forall₂ (Fills sp g package commandLine) inside ls) :
    List.Forall₂ (Fills sp g package commandLine) (block inside) ([[], start] ++ ls ++ [stop]) := by
  refine List.rel_append (List.rel_append (.cons ?_ (.cons ?_ .nil)) h) (.cons ?_ .nil)
  · exact IsFrame.empty
  · exact hstart
  · exact hstop

/-- A block of constants. -/
theorem fills_constBlock {inside : List Role} {ls : List Bytes}
    (h : List.Forall₂ (Fills sp g package commandLine) inside ls) :
    List.Forall₂ (Fills sp g package commandLine) (block inside) (constBlock ls) := by
  have hstart : IsFrame package commandLine (utf8 "const (") := .mark (by decide)
  have hstop : IsFrame package commandLine (utf8 ")") := .mark (by decide)
  exact fills_block hstart hstop h

/-- A block that is a table. -/
theorem fills_tableBlock {name type : String} {inside : List Role} {ls : List Bytes}
    (htable : (name, type) ∈ tableTypes)
    (h : List.Forall₂ (Fills sp g package commandLine) inside ls) :
    List.Forall₂ (Fills sp g package commandLine) (block inside) (tableBlock name type ls) := by
  have hstart : IsFrame package commandLine (tableStart (name, type)) := .table htable
  have hstop : IsFrame package commandLine (utf8 "\x7d") := .mark (by decide)
  exact fills_block hstart hstop h

/-- A name of the file with a value that no name of the grammar is in, except between quotes. -/
def IsDefinition (pair : Bytes × Bytes) : Prop :=
  pair.1 ∈ reserved ∧ (IsIdentifier pair.2 ∨ IsLiteral pair.2 ∨ pair.2 = utf8 "NonTerm(-1)")

/-- Definitions belong to the frame. -/
theorem isFrame_of_mem_definitionLines {pairs : List (Bytes × Bytes)}
    (h : ∀ pair ∈ pairs, IsDefinition pair) :
    ∀ line ∈ definitionLines pairs, IsFrame package commandLine line := by
  intro line hline
  obtain ⟨pair, hpair, rfl⟩ := List.mem_map.mp hline
  obtain ⟨hname, hvalue⟩ := h pair hpair
  exact .definition _ hname hvalue

/-- A constant is written with its comment at the end. -/
theorem isConstant_line {ident type text : Bytes} {i : Nat} (hident : IsIdentifier ident)
    (htype : IsIdentifier type) (hremark : IsRemark text) :
    IsConstant ident type i text (Constant.line ⟨ident, type, decimal i, text⟩) := by
  refine ⟨?_, hident, htype, hremark⟩
  rw [Constant.line, indented, remark, show utf8 " // " = utf8 " " ++ utf8 "// " from rfl]
  simp only [List.append_assoc]

/-- An entry is written with a quoted text as its value. -/
theorem isEntry_line {ident : Bytes} (hident : IsIdentifier ident) (text : Bytes) :
    IsEntry ident (Text.quote text) (entryLine (ident, Text.quote text)) :=
  ⟨rfl, hident, isLiteral_quote text⟩

/-! ### The identifiers of a grammar -/

/-- The identifier of a name in range is one. -/
theorem isIdentifier_identAt {camel : Bytes → Bytes} (hcamel : WritesWords camel) {stem : String}
    {names : List Name} {i : Nat} (hs : IsIdentifier (utf8 stem)) (hi : i < names.length) :
    IsIdentifier (identAt (idents camel stem names) i) := by
  have hi' : i < (idents camel stem names).length := by rwa [length_idents]
  rw [identAt, List.getElem?_eq_getElem hi', Option.getD_some]
  exact isIdentifier_of_mem_idents hcamel hs (List.getElem_mem hi')

/-- Every terminal has an identifier. -/
theorem isIdentifier_termId (hsp : sp.Legible) {i : Nat} (hi : i < g.terminals.length) :
    IsIdentifier (identAt (termIds sp g) i) :=
  isIdentifier_identAt hsp.camel (by decide +kernel) (by rwa [List.length_map])

/-- Every nonterminal has an identifier. -/
theorem isIdentifier_nontermId (hsp : sp.Legible) {i : Nat} (hi : i < g.nonterminals.length) :
    IsIdentifier (identAt (nontermIds sp g) i) :=
  isIdentifier_identAt hsp.camel (by decide +kernel) (by rwa [List.length_map])

/-- Every symbol of a production has an identifier. -/
theorem isIdentifier_listedRef (hsp : sp.Legible) {s : Symbol} (h : g.HasSymbol s) :
    IsIdentifier (listedRef sp g s).ident := by
  cases s with
  | terminal i => exact isIdentifier_termId hsp h
  | nonterminal i => exact isIdentifier_nontermId hsp h

/-! ### The tables of a grammar -/

variable (sp package commandLine)

/-- Lines for the terminals, one for each. -/
theorem terms_fill {role : Nat → Role} {line : ListedSymbol → Bytes}
    (h : ∀ i t, g.terminals[i]? = some t → Fills sp g package commandLine (role i)
      (line ⟨identAt (termIds sp g) i, t.name, i, Precedence.textOf t.prec⟩)) :
    List.Forall₂ (Fills sp g package commandLine) ((List.range g.terminals.length).map role)
      ((ofGrammarWith sp g package commandLine).terms.map line) := by
  rw [terms_ofGrammarWith, List.map_map]
  exact forall₂_numbered h

/-- Lines for the nonterminals, one for each. -/
theorem nonterms_fill {role : Nat → Role} {line : ListedSymbol → Bytes}
    (h : ∀ i n, g.nonterminals[i]? = some n → Fills sp g package commandLine (role i)
      (line { ident := identAt (nontermIds sp g) i, name := n.name, index := i })) :
    List.Forall₂ (Fills sp g package commandLine) ((List.range g.nonterminals.length).map role)
      ((ofGrammarWith sp g package commandLine).nonterms.map line) := by
  rw [nonterms_ofGrammarWith, List.map_map]
  exact forall₂_numbered h

/-- Lines for the productions, one for each. -/
theorem prods_fill {role : Nat → Role} {line : ListedProd × Nat → Bytes}
    (h : ∀ i p, g.productions[i]? = some p → Fills sp g package commandLine (role i)
      (line (listedProd sp g i p, i))) :
    List.Forall₂ (Fills sp g package commandLine) ((List.range g.productions.length).map role)
      ((ofGrammarWith sp g package commandLine).prods.zipIdx.map line) := by
  have hlines : (ofGrammarWith sp g package commandLine).prods.zipIdx.map line
      = g.productions.zipIdx.map fun entry => line (listedProd sp g entry.2 entry.1, entry.2) := by
    rw [listedProds_ofGrammarWith]
    refine List.ext_getElem? fun i => ?_
    simp only [List.getElem?_map, List.getElem?_zipIdx, Option.map_map]
    simp [Function.comp_def, listedProd]
  rw [hlines]
  exact forall₂_numbered h

/-- The constants of the terminals, with their names in comments. -/
theorem termConstants_fill (hsp : sp.Legible) :
    List.Forall₂ (Fills sp g package commandLine) ((List.range g.terminals.length).map .term)
      ((ofGrammarWith sp g package commandLine).termConstants.map Constant.line) := by
  rw [termConstants, List.map_map]
  refine terms_fill sp package commandLine fun i t ht => ⟨t, ht, ?_⟩
  exact isConstant_line (isIdentifier_termId hsp (List.getElem?_eq_some_iff.mp ht).1)
    (by decide +kernel) (isRemark_quote t.name)

/-- The constants of the nonterminals, with their names in comments. -/
theorem nontermConstants_fill (hsp : sp.Legible) :
    List.Forall₂ (Fills sp g package commandLine) ((List.range g.nonterminals.length).map .nonterm)
      ((ofGrammarWith sp g package commandLine).nontermConstants.map Constant.line) := by
  rw [nontermConstants, List.map_map]
  refine nonterms_fill sp package commandLine fun i n hn => ⟨n, hn, ?_⟩
  exact isConstant_line (isIdentifier_nontermId hsp (List.getElem?_eq_some_iff.mp hn).1)
    (by decide +kernel) (isRemark_quote n.name)

/-- The constants of the productions, with their texts in comments. -/
theorem prodConstants_fill (hsp : sp.Legible) (hg : g.Consistent) :
    List.Forall₂ (Fills sp g package commandLine) ((List.range g.productions.length).map .prod)
      ((ofGrammarWith sp g package commandLine).prodConstants.map Constant.line) := by
  rw [prodConstants, List.map_map]
  refine prods_fill sp package commandLine fun i p hp => ?_
  have hi : i < g.productions.length := (List.getElem?_eq_some_iff.mp hp).1
  obtain ⟨text, htext⟩ := Option.isSome_iff_exists.mp ((hg.answers.prodText ⟨i⟩).mpr hi)
  refine ⟨text, htext, ?_⟩
  rw [Function.comp_apply]
  show IsConstant _ _ i _ (Constant.line ⟨prodIdent i, utf8 "Prod", decimal i,
    commentTextWith sp.isGraphic ((g.prodText? ⟨i⟩).getD [])⟩)
  rw [htext]
  exact isConstant_line (isIdentifier_prodIdent i) (by decide +kernel)
    (isRemark_commentTextWith hsp.graphic text)

/-- The table of productions. -/
theorem productions_fill (hsp : sp.Legible) (hg : g.Consistent) :
    List.Forall₂ (Fills sp g package commandLine)
      ((List.range g.productions.length).map .production)
      ((ofGrammarWith sp g package commandLine).prods.map
        fun p => entryLine (p.ident, rawProd p)) := by
  rw [map_eq_zipIdx_map _ (ofGrammarWith sp g package commandLine).prods]
  refine prods_fill sp package commandLine ?_
  intro i p hp
  refine ⟨p, hp, ?_⟩
  have hmem : p ∈ g.productions := List.mem_of_getElem? hp
  constructor
  case eq => rfl
  case ident => exact isIdentifier_prodIdent i
  case rule => exact isIdentifier_nontermId hsp (hg.rule_lt hmem)
  case symbols =>
    intro r hr
    obtain ⟨s, hs, rfl⟩ := List.mem_map.mp hr
    exact isIdentifier_listedRef hsp (hg.hasSymbol hmem hs)
  case prec => exact isLiteral_quote _

/-- The table of names of terminals. -/
theorem termNames_fill (hsp : sp.Legible) :
    List.Forall₂ (Fills sp g package commandLine) ((List.range g.terminals.length).map .termName)
      ((ofGrammarWith sp g package commandLine).termNames.map entryLine) := by
  rw [termNames, List.map_map]
  refine terms_fill sp package commandLine fun i t ht => ⟨t, ht, ?_⟩
  exact isEntry_line (isIdentifier_termId hsp (List.getElem?_eq_some_iff.mp ht).1) t.name

/-- The table of precedences of terminals. -/
theorem termPrecs_fill (hsp : sp.Legible) :
    List.Forall₂ (Fills sp g package commandLine) ((List.range g.terminals.length).map .termPrec)
      ((ofGrammarWith sp g package commandLine).termPrecs.map entryLine) := by
  rw [termPrecs, List.map_map]
  refine terms_fill sp package commandLine fun i t ht => ⟨t, ht, ?_⟩
  exact isEntry_line (isIdentifier_termId hsp (List.getElem?_eq_some_iff.mp ht).1) _

/-- The table of names of nonterminals. -/
theorem nontermNames_fill (hsp : sp.Legible) :
    List.Forall₂ (Fills sp g package commandLine)
      ((List.range g.nonterminals.length).map .nontermName)
      ((ofGrammarWith sp g package commandLine).nontermNames.map entryLine) := by
  rw [nontermNames, List.map_map]
  refine nonterms_fill sp package commandLine fun i n hn => ⟨n, hn, ?_⟩
  exact isEntry_line (isIdentifier_nontermId hsp (List.getElem?_eq_some_iff.mp hn).1) n.name

/-- The lines before the constants. -/
theorem headLines_fill :
    List.Forall₂ (Fills sp g package commandLine) (List.replicate 22 .frame)
      ((ofGrammarWith sp g package commandLine).headLines ++ typeLines) := by
  refine forall₂_frames rfl (List.forall_mem_append.mpr ⟨?_, ?_⟩)
  · simp only [headLines, List.forall_mem_cons]
    exact ⟨.header, .empty, .package, .empty, by simp⟩
  · exact fun line hline => IsFrame.type hline

/-- The definitions of kind and fingerprint. -/
theorem identity_fill :
    List.Forall₂ (Fills sp g package commandLine) (List.replicate 2 .frame)
      (definitionLines (ofGrammarWith sp g package commandLine).identityPairs) := by
  refine forall₂_frames rfl (isFrame_of_mem_definitionLines ?_)
  simp only [identityPairs, List.forall_mem_cons]
  exact ⟨⟨List.mem_map_of_mem (by simp), .inr (.inl (isLiteral_quote _))⟩,
    ⟨List.mem_map_of_mem (by simp), .inr (.inl (isLiteral_quote _))⟩, by simp⟩

/-- The start production and the end of the input are given by their identifiers. -/
theorem boundaryPairs_defined (hsp : sp.Legible) (hg : g.Consistent) :
    ∀ pair ∈ (ofGrammarWith sp g package commandLine).boundaryPairs, IsDefinition pair := by
  have hstart : IsIdentifier (prodIdent g.startProd.val) := isIdentifier_prodIdent _
  have hend : IsIdentifier (identAt (termIds sp g) g.endTerm.val) :=
    isIdentifier_termId hsp hg.endTerm
  simp only [boundaryPairs, List.forall_mem_cons]
  refine ⟨⟨List.mem_map_of_mem (by simp), ?_⟩, ⟨List.mem_map_of_mem (by simp), ?_⟩, by simp⟩
  · exact .inl hstart
  · exact .inl hend

/-- The nonterminal for implicit tokens is given by its identifier, or by a number that is none. -/
theorem implicitPairs_defined (hsp : sp.Legible) (hg : g.Consistent) :
    ∀ pair ∈ (ofGrammarWith sp g package commandLine).implicitPairs, IsDefinition pair := by
  have hlisted : (ofGrammarWith sp g package commandLine).implicitNonterm
      = g.implicitNonterm.map fun n => identAt (nontermIds sp g) n.val := rfl
  rw [implicitPairs, hlisted]
  cases hn : g.implicitNonterm with
  | none =>
    simp only [Option.map_none, List.forall_mem_cons]
    refine ⟨⟨List.mem_map_of_mem (by simp), ?_⟩, ⟨List.mem_map_of_mem (by simp), ?_⟩, by simp⟩
    · exact .inr (.inr rfl)
    · exact .inl (by decide +kernel)
  | some n =>
    have hident := isIdentifier_nontermId hsp (hg.implicitNonterm n hn)
    simp only [Option.map_some, List.forall_mem_cons]
    refine ⟨⟨List.mem_map_of_mem (by simp), ?_⟩, ⟨List.mem_map_of_mem (by simp), ?_⟩, by simp⟩
    · exact .inl hident
    · exact .inl (by decide +kernel)

/-- The definitions of start production, end of input and implicit tokens. -/
theorem boundary_fill (hsp : sp.Legible) (hg : g.Consistent) :
    List.Forall₂ (Fills sp g package commandLine) (List.replicate 4 .frame)
      (definitionLines (ofGrammarWith sp g package commandLine).boundaryPairs
        ++ definitionLines (ofGrammarWith sp g package commandLine).implicitPairs) := by
  refine forall₂_frames ?_ (List.forall_mem_append.mpr ⟨?_, ?_⟩)
  · unfold implicitPairs
    split
    · rfl
    · rfl
  · exact isFrame_of_mem_definitionLines
      (boundaryPairs_defined sp package commandLine hsp hg)
  · exact isFrame_of_mem_definitionLines
      (implicitPairs_defined sp package commandLine hsp hg)

/-- The lines as they are written fill their roles. -/
theorem rawLines_fill (hsp : sp.Legible) (hg : g.Consistent) :
    List.Forall₂ (Fills sp g package commandLine) (roles g)
      (ofGrammarWith sp g package commandLine).rawLines := by
  -- blocks are put behind what is there already, so that the last one is taken off first
  refine List.rel_append ?_
    (fills_tableBlock (by decide) (productions_fill sp package commandLine hsp hg))
  refine List.rel_append ?_
    (fills_tableBlock (by decide) (nontermNames_fill sp package commandLine hsp))
  refine List.rel_append ?_
    (fills_tableBlock (by decide) (termPrecs_fill sp package commandLine hsp))
  refine List.rel_append ?_
    (fills_tableBlock (by decide) (termNames_fill sp package commandLine hsp))
  refine List.rel_append ?_ (fills_constBlock (boundary_fill sp package commandLine hsp hg))
  refine List.rel_append ?_ (fills_constBlock (prodConstants_fill sp package commandLine hsp hg))
  refine List.rel_append ?_ (fills_constBlock (nontermConstants_fill sp package commandLine hsp))
  refine List.rel_append ?_ (fills_constBlock (termConstants_fill sp package commandLine hsp))
  refine List.rel_append ?_ (fills_constBlock (identity_fill sp package commandLine))
  exact headLines_fill sp package commandLine

end Filling

/-- A text that is the file of a grammar, line by line. -/
structure LineByLine (sp : Spelling) (g : Grammar) (package commandLine text : Bytes) : Prop where
  /-- The number of lines is that of the tables, and 55 more. -/
  feeds : text.count lineFeed
    = 55 + 3 * g.terminals.length + 2 * g.nonterminals.length + 2 * g.productions.length
  /-- The lines are for what they should be, and nothing stands behind the last of them. -/
  lines : ∃ ls, lines text = ls ++ [[]] ∧ List.Forall₂ (Fills sp g package commandLine) (roles g) ls

/-- No name breaks the lines of a generated file, if it is spelled legibly. -/
theorem lineByLine_ofGrammarWith {sp : Spelling} (hsp : sp.Legible) {kind : Kind} {a : Description}
    {g : Grammar} {package commandLine : Bytes} (h : Grammar.ofDescription kind a = .ok g)
    (hp : lineFeed ∉ package) (hc : lineFeed ∉ commandLine) :
    LineByLine sp g package commandLine (ofGrammarWith sp g package commandLine).raw := by
  obtain ⟨tr⟩ := Lowering.exists_trace (Grammar.ofDescription_eq_ok_iff.mp h).2
  have hfill := rawLines_fill sp package commandLine hsp tr.consistent
  have honLine : ∀ line ∈ (ofGrammarWith sp g package commandLine).rawLines, lineFeed ∉ line := by
    intro line hline
    obtain ⟨role, -, hrole⟩ := exists_mem_of_forall₂ hfill.flip hline
    exact Fills.onLine hp hc hrole
  constructor
  case feeds =>
    rw [← length_roles, hfill.length_eq]
    exact count_endedLines honLine
  case lines =>
    refine ⟨_, ?_, hfill⟩
    have hlines := lines_ended_append honLine []
    rwa [List.append_nil] at hlines

/-- **No name breaks the lines of a generated file**: whatever the symbols of a grammar are called,
each line is for one thing, and names stand only in comments and literals. -/
theorem lineByLine_ofGrammar {kind : Kind} {a : Description} {g : Grammar}
    {package commandLine : Bytes} (h : Grammar.ofDescription kind a = .ok g)
    (hp : lineFeed ∉ package) (hc : lineFeed ∉ commandLine) :
    LineByLine .standard g package commandLine (ofGrammar g package commandLine).raw :=
  lineByLine_ofGrammarWith Spelling.legible_standard h hp hc

/-- A description whose names hold all that could end a line, a literal or a comment: line breaks,
quotes, NUL, marks of comments and a byte that is part of no code point. -/
def breakingNames : Description :=
  { start := utf8 "s\n\x7d"
    rules :=
      [⟨utf8 "s\n\x7d", [⟨[.token (utf8 "a\nb"), .token (utf8 "\","), .rule (utf8 "*/ \r")], []⟩,
        ⟨[], []⟩]⟩,
       ⟨utf8 "*/ \r", [⟨[.token (utf8 "// \\"), .token [0, 255]], []⟩]⟩]
    tokens := [utf8 "a\nb", utf8 "\",", utf8 "// \\", [0, 255]] }

theorem lineByLine_breakingNames : ∃ g, Grammar.ofDescription .original breakingNames = .ok g ∧
    LineByLine .standard g (utf8 "tables") (utf8 "gen -package tables")
      (ofGrammar g (utf8 "tables") (utf8 "gen -package tables")).raw := by
  obtain ⟨g, hg⟩ := (Grammar.exists_ofDescription_iff .original breakingNames).mpr
    ⟨(Description.problems_eq_nil_iff breakingNames).mp (by decide), by decide⟩
  exact ⟨g, hg, lineByLine_ofGrammar hg (by decide) (by decide)⟩

end Listing

end YaccTables
