import YaccTables.Proofs.Augmentation
import YaccTables.Proofs.Fingerprint
import YaccTables.Proofs.PrintedText

/-!
# Printing a grammar and reading it again

The productions of a grammar, printed one to a line behind the name of its start symbol, are grammar
text again. Read as such, the text gives back the start rule, the rule names and, rule by rule, the
symbols of all productions in their order (`Grammar.parse_reprint`), if no token has a single quote
in its name. Declarations are not printed: quotes tell tokens from rules, also where both have the
same name.

The productions stand in the order of the nonterminals, those of one nonterminal together and in
the order of the description (`Translates.forall₂_readsAs`). So the lines of a rule are its
productions (`symbolsOf_linesOf`), although the rules may come in another order.
-/

namespace YaccTables

/-! ## Lines of a description -/

namespace Description

variable {a : Description}

/-- The symbols of the productions of a rule. -/
def symbolsOf? (a : Description) (name : Name) : Option (List (List SymbolRef)) :=
  (a.rule? name).map fun r => r.productions.map Production.symbols

/-- The productions of some rules, one to a line. A name of no rule has none. -/
def linesOf (a : Description) (names : List Name) : List PrintedLine :=
  names.flatMap fun name => ((a.symbolsOf? name).getD []).map (PrintedLine.mk name)

/-- No rule is found for a name that none has. -/
theorem rule?_eq_none_iff {name : Name} : a.rule? name = none ↔ name ∉ a.ruleNames := by
  rw [rule?, List.find?_eq_none, ruleNames, List.mem_map]
  simp only [beq_iff_eq, not_exists, not_and]

/-- The symbols of a rule are those of its productions. -/
theorem symbolsOf?_of_mem (hnd : a.ruleNames.Nodup) {r : Rule} (hr : r ∈ a.rules) :
    a.symbolsOf? r.name = some (r.productions.map Production.symbols) := by
  rw [symbolsOf?, (rule?_eq_some_iff hnd).mpr ⟨hr, rfl⟩, Option.map_some]

/-- There are no symbols for a name that no rule has. -/
theorem symbolsOf?_of_notMem {name : Name} (h : name ∉ a.ruleNames) : a.symbolsOf? name = none := by
  rw [symbolsOf?, rule?_eq_none_iff.mpr h, Option.map_none]

theorem linesOf_cons (name : Name) (names : List Name) :
    a.linesOf (name :: names) =
      ((a.symbolsOf? name).getD []).map (PrintedLine.mk name) ++ a.linesOf names :=
  List.flatMap_cons

/-- A line is one of a production of a rule that is printed. -/
theorem mem_linesOf_iff {names : List Name} {line : PrintedLine} :
    line ∈ a.linesOf names ↔ line.rule ∈ names ∧ ∃ r, a.rule? line.rule = some r ∧
      ∃ p ∈ r.productions, p.symbols = line.symbols := by
  rw [linesOf, List.mem_flatMap]
  constructor
  · rintro ⟨name, hname, hline⟩
    obtain ⟨refs, hrefs, rfl⟩ := List.mem_map.mp hline
    cases hrule : a.rule? name with
    | none =>
      rw [symbolsOf?, hrule] at hrefs
      exact absurd hrefs List.not_mem_nil
    | some r =>
      rw [symbolsOf?, hrule] at hrefs
      exact ⟨hname, r, rfl, List.mem_map.mp hrefs⟩
  · rintro ⟨hname, r, hrule, hp⟩
    refine ⟨line.rule, hname, List.mem_map.mpr ⟨line.symbols, ?_, rfl⟩⟩
    rw [symbolsOf?, hrule]
    exact List.mem_map.mpr hp

/-- The lines of a rule are its productions, wherever it is listed. -/
theorem symbolsOf_linesOf {names : List Name} (hnd : names.Nodup) {name : Name}
    (hmem : name ∈ names) : symbolsOf (a.linesOf names) name = (a.symbolsOf? name).getD [] := by
  have hfilter : ∀ n refs, symbolsOf (List.map (PrintedLine.mk n) refs) name =
      if n = name then refs else [] := by
    intro n refs
    by_cases h : n = name
    · simp [symbolsOf, List.filter_map, Function.comp_def, h]
    · simp [symbolsOf, List.filter_map, Function.comp_def, h]
  have happend : ∀ lines lines', symbolsOf (lines ++ lines') name =
      symbolsOf lines name ++ symbolsOf lines' name := by
    intro lines lines'
    rw [symbolsOf, List.filter_append, List.map_append]
    rfl
  induction names with
  | nil => exact absurd hmem List.not_mem_nil
  | cons n names ih =>
    obtain ⟨hn, hnd⟩ := List.nodup_cons.mp hnd
    rw [linesOf_cons, happend, hfilter]
    rcases List.mem_cons.mp hmem with rfl | hmem
    · -- no other line is one of this rule
      have hnone : symbolsOf (a.linesOf names) name = [] := by
        rw [symbolsOf, List.map_eq_nil_iff, List.filter_eq_nil_iff]
        intro line hline hrule
        rw [← of_decide_eq_true hrule] at hn
        exact hn (mem_linesOf_iff.mp hline).1
      rw [if_pos rfl, hnone, List.append_nil]
    · have hne : n ≠ name := fun h => hn (h ▸ hmem)
      rw [if_neg hne, ih hnd hmem, List.nil_append]

/-! ### Lines read back -/

section Printed

variable {start : Name} {names : List Name}

/-- Every rule of a valid description has a line. -/
theorem mem_rule_linesOf_iff (hv : a.Valid) (hall : ∀ name ∈ a.ruleNames, name ∈ names)
    {name : Name} : name ∈ (a.linesOf names).map PrintedLine.rule ↔ name ∈ a.ruleNames := by
  rw [List.mem_map]
  constructor
  · rintro ⟨line, hline, rfl⟩
    obtain ⟨-, r, hrule, -⟩ := mem_linesOf_iff.mp hline
    obtain ⟨hr, hname⟩ := (rule?_eq_some_iff hv.ruleNames_nodup).mp hrule
    exact List.mem_map.mpr ⟨r, hr, hname⟩
  · intro hname
    obtain ⟨r, hr, rfl⟩ := List.mem_map.mp hname
    obtain ⟨p, hp⟩ := List.exists_mem_of_ne_nil _ (hv.productions_ne_nil r hr)
    have hrule : a.rule? r.name = some r := (rule?_eq_some_iff hv.ruleNames_nodup).mpr ⟨hr, rfl⟩
    exact ⟨⟨r.name, p.symbols⟩, mem_linesOf_iff.mpr ⟨hall _ hname, r, hrule, p, hp, rfl⟩, rfl⟩

/-- The rules that are read again are those that were printed. -/
theorem printed_ruleNames_perm (hv : a.Valid) (hall : ∀ name ∈ a.ruleNames, name ∈ names) :
    (printedDocument start (a.linesOf names)).description.ruleNames.Perm a.ruleNames := by
  have hnames : (printedDocument start (a.linesOf names)).description.ruleNames =
      ((a.linesOf names).map PrintedLine.rule).eraseDups := by
    rw [Document.description_ruleNames, Document.ruleNames, printedDocument, List.map_map]
    rfl
  rw [hnames, List.perm_ext_iff_of_nodup (nodup_eraseDups _) hv.ruleNames_nodup]
  intro name
  rw [List.mem_eraseDups, mem_rule_linesOf_iff hv hall]

/-- Rule by rule, printed lines are read as the productions that they print. -/
theorem printed_symbolsOf? (hv : a.Valid) (hall : ∀ name ∈ a.ruleNames, name ∈ names)
    (hnd : names.Nodup) (hlines : ∀ line ∈ a.linesOf names, line.Printable) (name : Name) :
    (printedDocument start (a.linesOf names)).description.symbolsOf? name = a.symbolsOf? name := by
  have hperm : (printedDocument start (a.linesOf names)).description.ruleNames.Perm a.ruleNames :=
    printed_ruleNames_perm hv hall
  by_cases hname : name ∈ a.ruleNames
  · let r : Rule := ⟨name, (symbolsOf (a.linesOf names) name).map fun refs => { symbols := refs }⟩
    have hr : r ∈ (printedDocument start (a.linesOf names)).description.rules := by
      rw [printed_rules hlines, rulesOf]
      refine List.mem_map.mpr ⟨name, List.mem_eraseDups.mpr ?_, rfl⟩
      exact (mem_rule_linesOf_iff hv hall).mpr hname
    have hsymbols : r.productions.map Production.symbols = (a.symbolsOf? name).getD [] := by
      rw [← symbolsOf_linesOf hnd (hall name hname), List.map_map]
      exact List.map_id _
    obtain ⟨r', hr', rfl⟩ := List.mem_map.mp hname
    have h := symbolsOf?_of_mem (hperm.nodup_iff.mpr hv.ruleNames_nodup) hr
    rw [hsymbols, symbolsOf?_of_mem hv.ruleNames_nodup hr'] at h
    rw [symbolsOf?_of_mem hv.ruleNames_nodup hr']
    exact h
  · rw [symbolsOf?_of_notMem hname, symbolsOf?_of_notMem fun h => hname (hperm.mem_iff.mp h)]

end Printed

end Description

/-! ## Lines of a grammar -/

namespace Grammar

variable {g : Grammar}

/-- A symbol is printed as the reference that it reads back as. -/
theorem symbolName?_of_ref? {s : Symbol} {ref : SymbolRef} (h : g.ref? s = some ref) :
    g.symbolName? s = some ref.name ∧ g.symbolText s = ref.text := by
  obtain ⟨name, hname, href⟩ := Option.map_eq_some_iff.mp h
  have htext : (g.symbolName? s).getD [] = name := by rw [hname, Option.getD_some]
  cases s with
  | terminal i =>
    obtain rfl : SymbolRef.token name = ref := href
    exact ⟨hname, by rw [symbolText, htext]; rfl⟩
  | nonterminal i =>
    obtain rfl : SymbolRef.rule name = ref := href
    exact ⟨hname, by rw [symbolText, htext]; rfl⟩

/-- A production is printed as the line of what it reads back as. -/
theorem ReadsAs.prodText?_eq {i : ProdIdx} {line : PrintedLine}
    (h : g.ReadsAs i line.rule line.symbols) : g.prodText? i = some line.text := by
  obtain ⟨n, hn, hname⟩ := Option.bind_eq_some_iff.mp h.1
  obtain ⟨p, hp, rfl⟩ := Option.map_eq_some_iff.mp hn
  obtain ⟨symbols, hsymbols, hrefs⟩ := Option.bind_eq_some_iff.mp h.2
  obtain ⟨p', hp', rfl⟩ := Option.map_eq_some_iff.mp hsymbols
  obtain rfl := Option.some.inj (hp.symm.trans hp')
  have htexts : ∀ {symbols refs}, List.Forall₂ (fun s ref => g.ref? s = some ref) symbols refs →
      symbols.flatMap (fun s => utf8 " " ++ g.symbolText s) =
        refs.flatMap fun ref => utf8 " " ++ ref.text := by
    intro symbols refs hall
    induction hall with
    | nil => rfl
    | cons href _ ih => rw [List.flatMap_cons, List.flatMap_cons, ih, (symbolName?_of_ref? href).2]
  rw [prodText?, hp]
  show (g.nontermName? p.rule).bind _ = _
  rw [hname, Option.bind_some, htexts (mapM_eq_some_iff.mp hrefs)]
  rfl

/-- The name of the start production's only symbol. -/
def startName? (g : Grammar) : Option Name :=
  match g.prodSymbols? g.startProd with
  | some [s] => g.symbolName? s
  | _ => none

/-- The start symbol and all productions but the start production, as grammar text. -/
def reprint? (g : Grammar) (gap : Bytes) : Option Bytes := do
  let start ← g.startName?
  let lines ← (g.prodIdxs.filter (· ≠ g.startProd)).mapM g.prodText?
  some (utf8 "%start " ++ start ++ utf8 " %%" ++ gap ++ joinLines lines)

/-- Every nonterminal is found by its name. -/
theorem exists_nontermIdx {n : Nonterminal} (hnd : (g.nonterminals.map Nonterminal.name).Nodup)
    (hn : n ∈ g.nonterminals) :
    ∃ i, g.nontermIdx? n.name = some i ∧ g.nontermProds? i = some n.prods := by
  obtain ⟨k, hk⟩ := List.getElem?_of_mem hn
  refine ⟨⟨k⟩, (nontermIdx?_eq_some_iff hnd).mpr ?_, ?_⟩
  · rw [nontermName?, nonterminal?, hk, Option.map_some]
  · rw [nontermProds?, nonterminal?, hk, Option.map_some]

/-- Lists that agree part by part agree when they are put together. -/
theorem forall₂_flatMap {α β γ : Type} {R : β → γ → Prop} {xs : List α} {f : α → List β}
    {f' : α → List γ} (h : ∀ x ∈ xs, List.Forall₂ R (f x) (f' x)) :
    List.Forall₂ R (xs.flatMap f) (xs.flatMap f') := by
  induction xs with
  | nil => exact .nil
  | cons x xs ih =>
    obtain ⟨hx, hxs⟩ := List.forall_mem_cons.mp h
    exact List.rel_append hx (ih hxs)

namespace Translates

variable {kind : Kind} {a : Description}

/-- Without implicit tokens the start production leads to the start rule of the user. -/
theorem startName?_eq (ht : g.Translates kind a) (hc : g.Consistent)
    (hw : (a.syntheticNames kind).woven = none) : g.startName? = some a.start := by
  have htarget : (a.syntheticNames kind).target a.start = a.start := by
    rw [SyntheticNames.target, hw]
  have hread := ht.start_prods
  rw [namedProds?, ht.startRule_eq, Option.bind_eq_bind, Option.bind_some, hc.startProd,
    htarget] at hread
  have hrefs : g.prodRefs? g.startProd = some [.rule a.start] := by
    cases mapM_eq_some_iff.mp hread with
    | cons h _ => exact h
  obtain ⟨symbols, hsymbols, hnames⟩ := Option.bind_eq_some_iff.mp hrefs
  obtain ⟨s, rest, hs, hrest, rfl⟩ := List.forall₂_cons_right_iff.mp (mapM_eq_some_iff.mp hnames)
  obtain rfl := List.forall₂_nil_right_iff.mp hrest
  rw [startName?, hsymbols]
  exact (symbolName?_of_ref? hs).1

/-- A production of the user is not the start production. -/
theorem ne_startProd (ht : g.Translates kind a) (hv : a.Valid) (hc : g.Consistent) {name : Name}
    (hname : name ∈ a.ruleNames) {n : NontermIdx} (hn : g.nontermIdx? name = some n) {i : ProdIdx}
    (hi : g.prodRule? i = some n) : i ≠ g.startProd := by
  intro hstart
  have hrule : g.nontermIdx? name = some g.startRule := by
    rw [hn, ← hi]
    exact (prodRule?_startRule_iff hc).mpr hstart
  have hsame : name = (a.syntheticNames kind).start := by
    have h := nontermName?_of_nontermIdx? hrule
    rw [nontermName?_of_nontermIdx? ht.startRule_eq] at h
    exact (Option.some.inj h).symm
  exact hv.start_notMem (hsame ▸ hname)

/-- The productions in order are the lines of the rules in the order of the nonterminals. -/
theorem forall₂_readsAs (ht : g.Translates kind a) (hv : a.Valid) (hc : g.Consistent)
    (hw : (a.syntheticNames kind).woven = none) :
    List.Forall₂ (fun i line => g.ReadsAs i line.rule line.symbols)
      (g.prodIdxs.filter (· ≠ g.startProd)) (a.linesOf (g.nonterminals.map Nonterminal.name)) := by
  rw [← ht.prods_listed, List.filter_flatMap, Description.linesOf, List.flatMap_map]
  refine forall₂_flatMap fun n hn => ?_
  obtain ⟨k, hk, hprods⟩ := exists_nontermIdx ht.names_nodup hn
  have howner : ∀ i ∈ n.prods, g.prodRule? i = some k :=
    fun i hi => (ht.prodRule?_iff i k).mpr ⟨n.prods, hprods, hi⟩
  by_cases huser : n.name ∈ a.ruleNames
  · obtain ⟨r, hr, hname⟩ := List.mem_map.mp huser
    have hkeep : n.prods.filter (· ≠ g.startProd) = n.prods := by
      refine List.filter_eq_self.mpr fun i hi => decide_eq_true ?_
      exact ht.ne_startProd hv hc huser hk (howner i hi)
    have hpadded : r.productions.map (Production.padded (a.syntheticNames kind).padding) =
        r.productions.map Production.symbols := by
      rw [SyntheticNames.padding, hw]
      exact List.map_congr_left fun p _ => padded_nil p
    have hread := ht.user_prods r hr
    rw [hname, namedProds?, hk, Option.bind_eq_bind, Option.bind_some, hprods, hpadded] at hread
    rw [hkeep, ← hname, Description.symbolsOf?_of_mem hv.ruleNames_nodup hr, Option.getD_some,
      List.forall₂_map_right_iff]
    show List.Forall₂ (fun i refs => g.prodRuleName? i = some r.name ∧ g.prodRefs? i = some refs)
      _ _
    refine (List.forall₂_and_left _ _).mpr ⟨fun i hi => ?_, mapM_eq_some_iff.mp hread⟩
    rw [hname]
    exact (ht.prodRuleName?_iff hk).mpr (howner i hi)
  · -- the only nonterminal that is not the user's has the start production and no lines
    have hstart : n.name = (a.syntheticNames kind).start := by
      have hmem := ht.nonterminal_names.mem_iff.mp (List.mem_map_of_mem hn)
      rw [SyntheticNames.nonterminals, hw] at hmem
      exact (List.mem_cons.mp hmem).resolve_right huser
    rw [hstart, ht.startRule_eq] at hk
    obtain rfl := Option.some.inj hk
    rw [Option.some.inj (hprods.symm.trans hc.startProd), Description.symbolsOf?_of_notMem huser]
    simp

/-- All lines can be read back, if no token has the quote of printed tokens in its name. -/
theorem printable_linesOf (ht : g.Translates kind a) (hv : a.Valid) {source : Source}
    (hparse : Description.parse source = .ok a)
    (hquote : ∀ t ∈ g.terminals, ascii '\'' ∉ t.name) {names : List Name} {line : PrintedLine}
    (hline : line ∈ a.linesOf names) : line.Printable := by
  obtain ⟨-, r, hrule, p, hp, hsymbols⟩ := Description.mem_linesOf_iff.mp hline
  obtain ⟨hr, hname⟩ := (Description.rule?_eq_some_iff hv.ruleNames_nodup).mp hrule
  constructor
  case rule =>
    rw [← hname]
    exact Description.isWord_of_parse hparse (List.mem_map_of_mem hr)
  case symbols =>
    intro ref href
    rw [← hsymbols] at href
    cases ref with
    | rule name => exact Description.isWord_of_parse hparse (hv.rule_mem r hr p hp name href)
    | token name =>
      have hterminal : name ∈ g.terminals.map Terminal.name := by
        rw [ht.terminal_names]
        exact List.mem_cons_of_mem _ (hv.token_mem r hr p hp name href)
      obtain ⟨t, ht, rfl⟩ := List.mem_map.mp hterminal
      exact ⟨Description.isLine_of_parse hparse hr hp href, hquote t ht⟩
    | other code name => exact Description.hasKnownKinds_of_parse hparse r hr p hp _ href

end Translates

/-- **A printed grammar is read as what it was printed from**: the same start rule, the same rule
names, and rule by rule the same productions in the same order. -/
theorem parse_reprint {source : Source} {g : Grammar} (h : ofSource .original source = .ok g)
    (hquote : ∀ t ∈ g.terminals, ascii '\'' ∉ t.name) (gap : Bytes)
    (hgap : ∀ b ∈ gap, Scan.isGap b = true) :
    ∃ a text a', Description.parse source = .ok a ∧ g.reprint? gap = some text ∧
      Description.parse { text := text } = .ok a' ∧ g.startName? = some a'.start ∧
      a'.ruleNames.Perm a.ruleNames ∧ ∀ name, a'.symbolsOf? name = a.symbolsOf? name := by
  obtain ⟨a, hparse, hg⟩ := exists_of_ofSource h
  obtain ⟨hv, hlower⟩ := ofDescription_eq_ok_iff.mp hg
  obtain ⟨tr⟩ := Lowering.exists_trace hlower
  have ht := tr.translates
  have hc := tr.consistent
  have hw : (a.syntheticNames .original).woven = none := rfl
  let names := g.nonterminals.map Nonterminal.name
  let lines := a.linesOf names
  have hlines : ∀ line ∈ lines, line.Printable := fun line => ht.printable_linesOf hv hparse hquote
  have hstart := ht.startName?_eq hc hw
  have htexts : (g.prodIdxs.filter (· ≠ g.startProd)).mapM g.prodText? =
      some (lines.map PrintedLine.text) := by
    refine mapM_eq_some_iff.mpr (List.forall₂_map_right_iff.mpr ?_)
    exact (ht.forall₂_readsAs hv hc hw).imp fun _ _ hread => hread.prodText?_eq
  have hreprint : g.reprint? gap = some (printedText a.start gap lines) := by
    rw [reprint?, hstart, htexts]
    rfl
  have hdoc := writtenIn_printedText (Description.isWord_of_parse hparse hv.start_mem) hgap hlines
  have hparse' : Description.parse { text := printedText a.start gap lines } =
      .ok (printedDocument a.start lines).description :=
    Description.parse_eq_ok_iff.mpr ⟨_, hdoc, rfl⟩
  have hstart' : (printedDocument a.start lines).description.start = a.start :=
    Document.description_start hdoc.countP_isStart_le
  have hall : ∀ name ∈ a.ruleNames, name ∈ names :=
    fun name hname => ht.nonterminal_names.mem_iff.mpr (List.mem_append_right _ hname)
  refine ⟨a, _, _, hparse, hreprint, hparse', ?_, ?_, ?_⟩
  · rw [hstart, hstart']
  · exact Description.printed_ruleNames_perm hv hall
  · exact Description.printed_symbolsOf? hv hall ht.names_nodup hlines

/-- Names of tokens with a blank, the mark of a comment, a double quote and a byte that is no UTF-8,
a token that is called like a rule, an empty production, and a rule that is defined twice. -/
def oddNames : Source :=
  { text := utf8 "%start s %% s: 'a b' t | \"// :%\" 's' ; t: ; s: t 'say \"' s '"
      ++ [0xff] ++ utf8 "';" }

theorem parse_reprint_oddNames : ∃ g, ofSource .original oddNames = .ok g ∧
    (∀ t ∈ g.terminals, ascii '\'' ∉ t.name) ∧ (∀ b ∈ [lineFeed], Scan.isGap b = true) ∧
    ∃ text a', g.reprint? [lineFeed] = some text ∧
      Description.parse { text := text } = .ok a' ∧ g.startName? = some a'.start ∧
      a'.ruleNames.Perm [utf8 "s", utf8 "t"] ∧
      a'.symbolsOf? (utf8 "s") = some [[.token (utf8 "a b"), .rule (utf8 "t")],
        [.token (utf8 "// :%"), .token (utf8 "s")],
        [.rule (utf8 "t"), .token (utf8 "say \""), .rule (utf8 "s"), .token [0xff]]] ∧
      a'.symbolsOf? (utf8 "t") = some [[]] := by
  let a : Description :=
    { start := utf8 "s"
      tokens := [utf8 "a b", utf8 "// :%", utf8 "s", utf8 "say \"", [0xff]]
      rules := [⟨utf8 "s", [⟨[.token (utf8 "a b"), .rule (utf8 "t")], []⟩,
        ⟨[.token (utf8 "// :%"), .token (utf8 "s")], []⟩,
        ⟨[.rule (utf8 "t"), .token (utf8 "say \""), .rule (utf8 "s"), .token [0xff]], []⟩]⟩,
        ⟨utf8 "t", [⟨[], []⟩]⟩] }
  have hparse : Description.parse oddNames = .ok a := by decide +kernel
  have hvalid : a.Valid := (Description.problems_eq_nil_iff a).mp (by decide)
  obtain ⟨g, hg⟩ := (exists_ofDescription_iff .original a).mpr ⟨hvalid, by decide⟩
  have hsource : ofSource .original oddNames = .ok g := by
    unfold ofSource
    rw [hparse]
    exact hg
  have hquote : ∀ t ∈ g.terminals, ascii '\'' ∉ t.name := by
    have hnames := (translates_of_lowerWith (ofDescription_eq_ok_iff.mp hg).2).terminal_names
    have hall : ∀ name ∈ g.terminals.map Terminal.name, ascii '\'' ∉ name := by
      rw [hnames]
      decide
    exact fun t ht => hall t.name (List.mem_map_of_mem ht)
  have hgap : ∀ b ∈ [lineFeed], Scan.isGap b = true := List.forall_mem_singleton.mpr (by decide)
  obtain ⟨a₁, text, a', hparse₁, htext, hparse', hstart, hperm, hsymbols⟩ :=
    parse_reprint hsource hquote [lineFeed] hgap
  obtain rfl : a = a₁ := Except.ok.inj (hparse.symm.trans hparse₁)
  refine ⟨g, hsource, hquote, hgap, text, a', htext, hparse', hstart, hperm, ?_, ?_⟩
  · rw [hsymbols]
    rfl
  · rw [hsymbols]
    rfl

end Grammar

end YaccTables
