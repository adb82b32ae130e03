import YaccTables.Proofs.Decimal
import YaccTables.Proofs.TokenNames
import YaccTables.Proofs.Tokenizing

/-!
# Printed productions

A rule name with the symbols of one production is printed as `rule: symbol 'token';`. Such lines are
scanned as definitions with one alternative each (`stream_lines`), so that text with a start symbol
and lines is the text of a document (`writtenIn_printedText`), whose rules have the productions in
the order of the lines (`printed_rules`).

What can be printed so are words for rules and, between single quotes, names of tokens that hold
neither that quote nor the end of a line. That is what names of a parsed text are, but for the quote
(`isWord_of_parse`, `isLine_of_parse`).
-/

namespace YaccTables

open Scan Scan.Pattern

/-! ## Names -/

/-- A name that can stand bare. -/
def IsWord (name : Name) : Prop := name ∈ identifier.matches'

/-- A name that can stand between quotes which it does not hold. -/
def IsLine (name : Name) : Prop := name ≠ [] ∧ lineFeed ∉ name ∧ carriageReturn ∉ name

/-- The lexeme of a token is one of its kind. -/
theorem TokenStream.matched_of_mem_scanned {text : Bytes} {t : Token}
    (ht : t ∈ (TokenStream.ofText text).scanned) :
    ∃ r, (some t.kind, r) ∈ patterns ∧ t.lexeme ∈ r.matches' := by
  obtain ⟨before, b, rest, more, rfl, hstep, heq⟩ := exists_step_of_mem_scanned ht
  rw [heq]
  exact (mem_of_token hstep).2

/-- An identifier that was scanned is a word. -/
theorem TokenStream.isWord_of_mem_scanned {text : Bytes} {t : Token}
    (ht : t ∈ (TokenStream.ofText text).scanned) (hk : t.kind = .identifier) : IsWord t.lexeme := by
  obtain ⟨r, hr, hlexeme⟩ := TokenStream.matched_of_mem_scanned ht
  rw [hk] at hr
  have hidentifier : r = identifier := by simpa [patterns] using hr
  rwa [hidentifier] at hlexeme

/-- A word is on one line. -/
theorem IsWord.isLine {name : Name} (h : IsWord name) : IsLine name := by
  obtain ⟨b, u, hb, rfl, hu⟩ := mem_identifier_iff.mp h
  have hend : ∀ c, isWordPart c = false → isWordStart c = false → c ∉ b :: u := by
    intro c hpart hstart hc
    rcases List.mem_cons.mp hc with rfl | hc
    · exact absurd (hb.symm.trans hstart) (by decide)
    · exact absurd ((hu c hc).symm.trans hpart) (by decide)
  exact ⟨List.cons_ne_nil b u, hend _ (by decide) (by decide), hend _ (by decide) (by decide)⟩

/-- What can be quoted is on one line. -/
theorem isLine_of_quotable {mark : UInt8} {name : Name} (hne : name ≠ [])
    (h : ∀ b ∈ name, isQuotable mark b = true) : IsLine name := by
  have hend : ∀ c, isQuotable mark c = false → c ∉ name := by
    intro c hc hmem
    exact absurd ((h c hmem).symm.trans hc) (by decide)
  exact ⟨hne, hend _ (by simp [isQuotable]), hend _ (by simp [isQuotable])⟩

/-- A symbol that was scanned is on one line. -/
theorem TokenStream.isLine_of_mem_scanned {text : Bytes} {t : Token} {w : Written}
    (ht : t ∈ (TokenStream.ofText text).scanned) (hw : WrittenForm t w) : IsLine w.name := by
  cases hw with
  | bare hk => exact (TokenStream.isWord_of_mem_scanned ht hk).isLine
  | quoted hk hname =>
    cases hname with
    | identifier hk' => exact absurd (hk.symm.trans hk') (by decide)
    | quoted _ hlexeme hne =>
      obtain ⟨r, hr, hmatch⟩ := TokenStream.matched_of_mem_scanned ht
      rw [hk] at hr
      obtain ⟨mark, rfl⟩ : ∃ mark, r = quoted mark := by
        have hquoted : r = quoted (ascii '\'') ∨ r = quoted (ascii '"') := by
          simpa [patterns] using hr
        exact hquoted.elim (fun h => ⟨_, h⟩) fun h => ⟨_, h⟩
      obtain ⟨u, hu, hquotable⟩ := mem_quoted_iff.mp hmatch
      -- the name is what stands between the quotes, whichever they are
      rw [hlexeme] at hu
      obtain ⟨rfl, -⟩ := List.append_inj' (List.cons.inj hu).2 rfl
      exact isLine_of_quotable hne hquotable

/-! ### Names of a document -/

/-- Each of several alternatives has tokens of its own. -/
theorem AlternativesForm.exists_alternative {ts : List Token} {alts : List Alternative}
    (h : AlternativesForm ts alts) {alt : Alternative} (halt : alt ∈ alts) :
    ∃ us, us ⊆ ts ∧ AlternativeForm us alt := by
  induction h with
  | @last us alt' t hus _ =>
    obtain rfl := List.mem_singleton.mp halt
    exact ⟨us, List.subset_append_left us [t], hus⟩
  | @more us vs alt' alts' t hus _ _ ih =>
    rcases List.mem_cons.mp halt with rfl | halt
    · exact ⟨us, List.subset_append_left us _, hus⟩
    · obtain ⟨ws, hws, hform⟩ := ih halt
      refine ⟨ws, fun u hu => ?_, hform⟩
      exact List.mem_append_right us (List.mem_cons_of_mem t (hws hu))

/-- Each symbol of an alternative has a token of its own. -/
theorem AlternativeForm.exists_token {ts : List Token} {alt : Alternative}
    (h : AlternativeForm ts alt) {w : Written} (hw : w ∈ alt.symbols) :
    ∃ t ∈ ts, WrittenForm t w := by
  cases h with
  | plain hts => exact exists_mem_of_forall₂ hts.flip hw
  | prec hts _ _ =>
    obtain ⟨t, ht, hform⟩ := exists_mem_of_forall₂ hts.flip hw
    exact ⟨t, List.mem_append_left _ ht, hform⟩

namespace Document

/-- A rule that is defined in a text is named by a word. -/
theorem WrittenIn.isWord_rule {doc : Document} {text : Bytes} (h : doc.WrittenIn text)
    {d : Definition} (hd : d ∈ doc.definitions) : IsWord d.rule := by
  obtain ⟨us, hus, hdef⟩ := h.exists_definition hd
  cases hdef with
  | mk ht _ _ =>
    have hscanned := hus _ List.mem_cons_self (by rw [ht]; decide)
    exact TokenStream.isWord_of_mem_scanned hscanned ht

/-- A symbol that is used in a text is named on one line. -/
theorem WrittenIn.isLine_symbol {doc : Document} {text : Bytes} (h : doc.WrittenIn text)
    {w : Written} (hw : w ∈ doc.symbols) : IsLine w.name := by
  obtain ⟨alt, halt, hw⟩ := List.mem_flatMap.mp hw
  obtain ⟨d, hd, halt⟩ := List.mem_flatMap.mp halt
  obtain ⟨us, hus, hdef⟩ := h.exists_definition hd
  cases hdef with
  | @mk t c vs alts _ _ halts =>
    obtain ⟨ws, hws, hform⟩ := halts.exists_alternative halt
    obtain ⟨u, hu, hwritten⟩ := hform.exists_token hw
    have hmem : u ∈ t :: c :: vs := List.mem_cons_of_mem t (List.mem_cons_of_mem c (hws hu))
    have hkind : u.kind ≠ .endOfInput := by
      cases hwritten with
      | bare hk => rw [hk]; decide
      | quoted hk _ => rw [hk]; decide
    exact TokenStream.isLine_of_mem_scanned (hus u hmem hkind) hwritten

end Document

namespace Description

variable {source : Source} {a : Description}

/-- Rules that are read are named by words. -/
theorem isWord_of_parse (h : parse source = .ok a) {name : Name} (hname : name ∈ a.ruleNames) :
    IsWord name := by
  obtain ⟨doc, hdoc, rfl⟩ := parse_eq_ok_iff.mp h
  rw [doc.description_ruleNames] at hname
  obtain ⟨d, hd, rfl⟩ := List.mem_map.mp (List.mem_eraseDups.mp hname)
  exact hdoc.isWord_rule hd

/-- Tokens that are read are named on one line. -/
theorem isLine_of_parse (h : parse source = .ok a) {r : Rule} (hr : r ∈ a.rules) {p : Production}
    (hp : p ∈ r.productions) {name : Name} (hname : .token name ∈ p.symbols) : IsLine name := by
  obtain ⟨doc, hdoc, rfl⟩ := parse_eq_ok_iff.mp h
  obtain ⟨w, hw, hresolve⟩ := Document.exists_written_of_ref hr hp hname
  rw [← Written.name_of_token? (Written.token?_eq_some_iff.mpr hresolve)]
  exact hdoc.isLine_symbol hw

end Description

/-! ## Lines -/

/-- A symbol as it is printed. -/
def SymbolRef.written : SymbolRef → Written
  | .token name => .quoted name
  | .rule name => .bare name
  | .other _ name => .bare name

/-- A symbol that is read back as it was printed. -/
def SymbolRef.Printable : SymbolRef → Prop
  | .rule name => IsWord name
  | .token name => IsLine name ∧ ascii '\'' ∉ name
  | .other _ _ => False

/-- A rule name with the symbols of one production. -/
structure PrintedLine where
  rule : Name
  symbols : List SymbolRef
  deriving DecidableEq, Repr

namespace PrintedLine

def text (line : PrintedLine) : Bytes :=
  line.rule ++ utf8 ":" ++ line.symbols.flatMap (fun ref => utf8 " " ++ ref.text) ++ utf8 ";"

def definition (line : PrintedLine) : Definition :=
  ⟨line.rule, [⟨line.symbols.map SymbolRef.written, none⟩]⟩

structure Printable (line : PrintedLine) : Prop where
  rule : IsWord line.rule
  symbols : ∀ ref ∈ line.symbols, ref.Printable

end PrintedLine

namespace Scan

variable {engine : Engine}

section Tokens

variable (offset : Nat) {name : Name} {b : UInt8} (rest : Bytes)

/-- A word ends at a byte that cannot be part of it. -/
theorem stream_word (hname : IsWord name) (hb : isWordPart b = false) :
    stream engine offset 0 (name ++ b :: rest) =
      .next ⟨.identifier, offset, name⟩ (stream engine (offset + name.length) 0 (b :: rest)) := by
  obtain ⟨c, u, hc, rfl, hu⟩ := mem_identifier_iff.mp hname
  have hgap : ¬ (isGap c = true) := by
    revert hc
    refine forall_byte (P := fun c => isWordStart c = true → ¬ (isGap c = true)) ?_ c
    decide +kernel
  have hstep : step c (u ++ b :: rest) = .token .identifier u.length := by
    rw [step, if_neg hgap, if_pos hc, run_eq hu hb]
  rw [List.cons_append, stream_token offset hstep, List.take_left, List.drop_left, List.length_cons,
    show offset + (u.length + 1) = offset + 1 + u.length by omega]

/-- A quoted name is scanned as one token. -/
theorem stream_quoted (hname : IsLine name) (hquote : ascii '\'' ∉ name) :
    ∃ t, stream engine offset 0 (utf8 "'" ++ name ++ utf8 "'" ++ rest) =
        .next t (stream engine (offset + name.length + 2) 0 rest) ∧
      WrittenForm t (.quoted name) := by
  obtain ⟨hne, hfeed, hreturn⟩ := hname
  have hquotable : ∀ b ∈ name, isQuotable (ascii '\'') b = true := by
    intro b hb
    simp only [isQuotable, Bool.and_eq_true, bne_iff_ne]
    exact ⟨⟨ne_of_mem_of_not_mem hb hquote, ne_of_mem_of_not_mem hb hfeed⟩,
      ne_of_mem_of_not_mem hb hreturn⟩
  have hrun : run (isQuotable (ascii '\'')) (name ++ ascii '\'' :: rest) = name.length :=
    run_eq hquotable (by decide)
  have hstep : step (ascii '\'') (name ++ ascii '\'' :: rest) =
      .token .quoted (name.length + 1) := by
    show quotation (ascii '\'') (name ++ ascii '\'' :: rest) = _
    rw [quotation, hrun, List.getElem?_append_right (Nat.le_refl _), Nat.sub_self]
    rfl
  have htext : utf8 "'" ++ name ++ utf8 "'" ++ rest =
      ascii '\'' :: (name ++ ascii '\'' :: rest) := by
    rw [List.append_assoc, List.append_assoc]
    rfl
  have htake : (name ++ ascii '\'' :: rest).take (name.length + 1) = name ++ [ascii '\''] := by
    rw [List.take_length_add_append]
    rfl
  have hdrop : (name ++ ascii '\'' :: rest).drop (name.length + 1) = rest := by
    rw [List.drop_length_add_append]
    rfl
  rw [htext, stream_token offset hstep, htake, hdrop,
    show offset + 1 + (name.length + 1) = offset + name.length + 2 by omega]
  exact ⟨_, rfl, .quoted rfl (.quoted rfl rfl hne)⟩

/-- A printed symbol is scanned as one token. -/
theorem stream_ref {ref : SymbolRef} (href : ref.Printable) (hb : isWordPart b = false) :
    ∃ t offset', stream engine offset 0 (ref.text ++ b :: rest) =
        .next t (stream engine offset' 0 (b :: rest)) ∧
      WrittenForm t ref.written := by
  cases ref with
  | rule name => exact ⟨_, _, stream_word offset rest href hb, .bare rfl⟩
  | token name =>
    obtain ⟨t, ht, hform⟩ := stream_quoted offset (b :: rest) href.1 href.2
    exact ⟨t, _, ht, hform⟩
  | other code name => exact absurd href id

end Tokens

/-- The symbols of a line, up to the semicolon. -/
theorem stream_symbols (offset : Nat) {refs : List SymbolRef} (hrefs : ∀ ref ∈ refs, ref.Printable)
    (rest : Bytes) :
    ∃ ts offset', stream engine offset 0
        (refs.flatMap (fun ref => utf8 " " ++ ref.text) ++ (utf8 ";" ++ rest)) =
        (stream engine offset' 0 (utf8 ";" ++ rest)).prepend ts ∧
      List.Forall₂ WrittenForm ts (refs.map SymbolRef.written) := by
  induction refs generalizing offset with
  | nil => exact ⟨[], offset, rfl, .nil⟩
  | cons ref refs ih =>
    have hmore := fun ref' hmem => hrefs ref' (List.mem_cons_of_mem ref hmem)
    -- a symbol ends at the blank before the next one, or at the semicolon
    have hend : ∃ b more, refs.flatMap (fun ref => utf8 " " ++ ref.text) ++ (utf8 ";" ++ rest) =
        b :: more ∧ isWordPart b = false := by
      cases refs with
      | nil => exact ⟨_, _, rfl, by decide⟩
      | cons next refs => exact ⟨_, _, rfl, by decide⟩
    obtain ⟨b, more, htext, hb⟩ := hend
    obtain ⟨t, offset₁, ht, hform⟩ := stream_ref (offset + 1) more (hrefs ref List.mem_cons_self) hb
    obtain ⟨ts, offset₂, hts, hforms⟩ := ih offset₁ hmore
    refine ⟨t :: ts, offset₂, ?_, .cons hform hforms⟩
    rw [List.flatMap_cons, List.append_assoc, List.append_assoc, htext]
    show stream engine offset 0 (space :: (ref.text ++ b :: more)) = _
    rw [stream_blank offset _ (by decide), ht, ← htext, hts]
    rfl

/-- A printed production is scanned as a definition of its rule. -/
theorem stream_line (offset : Nat) {line : PrintedLine} (hline : line.Printable) (rest : Bytes) :
    ∃ ts offset', stream engine offset 0 (line.text ++ rest) =
        (stream engine offset' 0 rest).prepend ts ∧
      DefinitionForm ts line.definition := by
  have hcolon : ∀ offset more, stream engine offset 0 (ascii ':' :: more) =
      .next ⟨.colon, offset, utf8 ":"⟩ (stream engine (offset + 1) 0 more) := by
    intro offset more
    have hstep : step (ascii ':') more = .token .colon 0 := rfl
    exact stream_token offset hstep
  have hsemicolon : ∀ offset more, stream engine offset 0 (utf8 ";" ++ more) =
      .next ⟨.semicolon, offset, utf8 ";"⟩ (stream engine (offset + 1) 0 more) := by
    intro offset more
    have hstep : step (ascii ';') more = .token .semicolon 0 := rfl
    exact stream_token offset hstep
  obtain ⟨ts, offset', hts, hforms⟩ := stream_symbols (offset + line.rule.length + 1) hline.symbols
    rest
  have htext : line.text ++ rest = line.rule ++ ascii ':' ::
      (line.symbols.flatMap (fun ref => utf8 " " ++ ref.text) ++ (utf8 ";" ++ rest)) := by
    rw [PrintedLine.text, List.append_assoc, List.append_assoc, List.append_assoc]
    rfl
  refine ⟨⟨.identifier, offset, line.rule⟩ :: ⟨.colon, offset + line.rule.length, utf8 ":"⟩ ::
    (ts ++ [⟨.semicolon, offset', utf8 ";"⟩]), offset' + 1, ?_, ?_⟩
  · rw [htext, stream_word offset _ hline.rule (by decide), hcolon, hts, hsemicolon]
    simp
  · exact .mk rfl rfl (.last (.plain hforms) rfl)

/-- The text is scanned to its end as these definitions, wherever it stands. -/
def Defines (text : Bytes) (defs : List Definition) : Prop :=
  ∀ offset, ∃ tss offset',
    stream .standard offset 0 text = (TokenStream.done offset').prepend tss.flatten ∧
      List.Forall₂ DefinitionForm tss defs

section Defines

variable {text : Bytes} {defs : List Definition}

/-- No text defines nothing. -/
theorem defines_nil : Defines [] [] := fun offset => ⟨[], offset, rfl, .nil⟩

/-- White space before definitions does not matter. -/
theorem Defines.blank {b : UInt8} (hb : isGap b = true) (h : Defines text defs) :
    Defines (b :: text) defs := by
  intro offset
  rw [stream_blank offset text hb]
  exact h (offset + 1)

/-- Any white space before definitions does not matter. -/
theorem Defines.blanks {gap : Bytes} (hgap : ∀ b ∈ gap, isGap b = true) (h : Defines text defs) :
    Defines (gap ++ text) defs := by
  induction gap with
  | nil => exact h
  | cons b gap ih =>
    have hb : isGap b = true := hgap b List.mem_cons_self
    exact (ih fun c hc => hgap c (List.mem_cons_of_mem b hc)).blank hb

/-- A printed production comes before other definitions. -/
theorem Defines.line {line : PrintedLine} (hline : line.Printable) (h : Defines text defs) :
    Defines (line.text ++ text) (line.definition :: defs) := by
  intro offset
  obtain ⟨ts, offset₁, hts, hform⟩ := stream_line offset hline text
  obtain ⟨tss, offset₂, htss, hforms⟩ := h offset₁
  refine ⟨ts :: tss, offset₂, ?_, .cons hform hforms⟩
  rw [hts, htss, List.flatten_cons, TokenStream.prepend_append]

/-- Lines are scanned as definitions. -/
theorem defines_lines {lines : List PrintedLine} (hlines : ∀ line ∈ lines, line.Printable) :
    Defines (joinLines (lines.map PrintedLine.text)) (lines.map PrintedLine.definition) := by
  -- all lines but the first come behind a line feed
  have hfurther : ∀ {lines : List PrintedLine}, (∀ line ∈ lines, line.Printable) →
      Defines ((lines.map PrintedLine.text).flatMap ([lineFeed] ++ ·))
        (lines.map PrintedLine.definition) := by
    intro lines hlines
    induction lines with
    | nil => exact defines_nil
    | cons line lines ih =>
      obtain ⟨hline, hmore⟩ := List.forall_mem_cons.mp hlines
      rw [List.map_cons, List.flatMap_cons, List.append_assoc]
      exact ((ih hmore).line hline).blank (by decide)
  cases lines with
  | nil => exact defines_nil
  | cons line lines =>
    obtain ⟨hline, hmore⟩ := List.forall_mem_cons.mp hlines
    rw [joinLines, List.map_cons, intercalate_cons]
    exact (hfurther hmore).line hline

end Defines

end Scan

/-! ## Printed documents -/

/-- A start symbol and lines, with blanks between them. -/
def printedText (start : Name) (gap : Bytes) (lines : List PrintedLine) : Bytes :=
  utf8 "%start " ++ start ++ utf8 " %%" ++ gap ++ joinLines (lines.map PrintedLine.text)

/-- The document that is printed so. -/
def printedDocument (start : Name) (lines : List PrintedLine) : Document :=
  ⟨[.start start], lines.map PrintedLine.definition⟩

section Printed

variable {start : Name} {gap : Bytes} {lines : List PrintedLine}

/-- Printed productions are read as a definition each. -/
theorem writtenIn_printedText (hstart : IsWord start) (hgap : ∀ b ∈ gap, isGap b = true)
    (hlines : ∀ line ∈ lines, line.Printable) :
    (printedDocument start lines).WrittenIn (printedText start gap lines) := by
  let body : Bytes := gap ++ joinLines (lines.map PrintedLine.text)
  have htext : printedText start gap lines = ascii '%' :: (utf8 "start" ++ space ::
      (start ++ space :: (ascii '%' :: ascii '%' :: body))) := by
    rw [printedText, List.append_assoc, List.append_assoc, List.append_assoc]
    rfl
  have hdirective : ∀ more, step (ascii '%') (utf8 "start" ++ space :: more) =
      .token .directive 5 := fun _ => rfl
  have hmark : step (ascii '%') (ascii '%' :: body) = .token .sections 1 := rfl
  have hblank : isGap space = true := by decide
  obtain ⟨tss, offset, htss, hforms⟩ := (defines_lines hlines).blanks hgap (7 + start.length + 3)
  let directive : Token := ⟨.directive, 0, utf8 "%start"⟩
  let name : Token := ⟨.identifier, 7, start⟩
  let mark : Token := ⟨.sections, 7 + start.length + 1, utf8 "%%"⟩
  have hstream : TokenStream.ofText (printedText start gap lines) =
      (TokenStream.done offset).prepend (directive :: name :: mark :: tss.flatten) := by
    rw [TokenStream.ofText, TokenStream.ofTextWith, htext, stream_token 0 (hdirective _)]
    show TokenStream.next directive (stream .standard 6 0 (space :: (start ++ space :: _))) = _
    rw [stream_blank 6 _ hblank, stream_word 7 _ hstart (by decide), stream_blank _ _ hblank,
      stream_token _ hmark]
    show TokenStream.next _ (.next _ (.next _ (stream .standard (7 + start.length + 3) 0 body))) = _
    rw [htss]
    rfl
  have hform : DocumentForm
      ([[directive, name]].flatten ++ mark :: (tss.flatten ++ [.endAt offset]))
      (printedDocument start lines) :=
    .mk (.cons (.start ⟨rfl, rfl⟩ rfl) .nil) rfl hforms (.inl rfl) (Nat.le_refl 1)
  refine ⟨_, [], ?_, hform⟩
  rw [hstream, TokenStream.tokens_prepend]
  simp [TokenStream.tokens]

/-! ### The rules of a printed document -/

/-- A printed symbol refers to what it was printed from. -/
theorem resolve_written {ref : SymbolRef} (h : ref.Printable) : ref.written.resolve [] = ref := by
  cases ref with
  | rule name => rfl
  | token name => rfl
  | other code name => exact absurd h id

/-- The symbols of the lines of a rule, line by line. -/
def symbolsOf (lines : List PrintedLine) (name : Name) : List (List SymbolRef) :=
  (lines.filter (·.rule = name)).map PrintedLine.symbols

/-- The printed productions of a rule are its alternatives. -/
theorem alternativesOf_printed (name : Name) :
    (printedDocument start lines).alternativesOf name =
      (symbolsOf lines name).map fun refs => ⟨refs.map SymbolRef.written, none⟩ := by
  rw [Document.alternativesOf, printedDocument, symbolsOf, List.filter_map, List.flatMap_map,
    List.map_map]
  exact List.flatMap_pure_eq_map _ _

/-- The rules of printed productions are put together again. -/
theorem printed_rules (hlines : ∀ line ∈ lines, line.Printable) :
    (printedDocument start lines).description.rules =
      Description.rulesOf (lines.map PrintedLine.rule).eraseDups fun name =>
        (symbolsOf lines name).map fun refs => { symbols := refs } := by
  have hnames : (printedDocument start lines).ruleNames =
      (lines.map PrintedLine.rule).eraseDups := by
    rw [Document.ruleNames, printedDocument, List.map_map]
    rfl
  rw [Document.description_rules, Document.rules, hnames, Description.rulesOf]
  refine List.map_congr_left fun name _ => ?_
  rw [alternativesOf_printed, List.map_map]
  refine congrArg _ (List.map_congr_left fun refs hrefs => ?_)
  -- nothing is declared, so that bare names are rules
  have hdeclared : (printedDocument start lines).declared = [] := rfl
  have hresolved : (refs.map SymbolRef.written).map (Written.resolve []) = refs := by
    obtain ⟨line, hline, rfl⟩ := List.mem_map.mp hrefs
    have hsymbols := (hlines line (List.mem_filter.mp hline).1).symbols
    rw [List.map_map]
    exact (List.map_congr_left fun ref href => resolve_written (hsymbols ref href)).trans
      (List.map_id _)
  rw [Function.comp_apply, hdeclared, hresolved]
  rfl

end Printed

end YaccTables
