import Mathlib.Data.List.Sort
import YaccTables.Proofs.Consistency
import YaccTables.Proofs.Identifiers

/-!
# Reading a listing back

A listing says in identifiers what the tables of a grammar say in numbers. Whoever compiles the
generated file resolves them again: `Listing.resolve?` looks for the one constant of a name, and
`Listing.tables?` puts the tables together from what the identifiers stand for. No number of the
grammar is used on the way but those that the listing itself gives to its constants.

`readsBack_ofGrammar` says that for a consistent grammar this ends in the tables of the grammar. It
takes two things:

* an identifier stands for one thing only (`resolve?_of_mem`), since no two constants share a name;
* every number that the tables of a consistent grammar mention has a constant, and the productions
  of a rule are those that name it as their rule (`Consistent.prods_eq`).
-/

namespace YaccTables

namespace Listing

/-! ## What identifiers stand for -/

/-- What a constant of the generated file is the number of. -/
inductive Denoted
  | term (i : Nat)
  | nonterm (i : Nat)
  | prod (i : Nat)
  deriving DecidableEq, Repr

/-- The constants of the generated file: terminals and nonterminals with the numbers that they are
listed with, productions with their positions. -/
def constants (l : Listing) : List (Bytes × Denoted) :=
  l.terms.map (fun t => (t.ident, .term t.index))
    ++ (l.nonterms.map (fun n => (n.ident, .nonterm n.index))
      ++ l.prods.zipIdx.map fun entry => (entry.1.ident, .prod entry.2))

/-- What an identifier stands for, if there is one constant of that name and no other. -/
def resolve? (l : Listing) (ident : Bytes) : Option Denoted :=
  match l.constants.filter (·.1 = ident) with
  | [constant] => some constant.2
  | _ => none

/-- The terminal that an identifier stands for. -/
def term? (l : Listing) (ident : Bytes) : Option Nat :=
  match l.resolve? ident with
  | some (.term i) => some i
  | _ => none

/-- The nonterminal that an identifier stands for. -/
def nonterm? (l : Listing) (ident : Bytes) : Option Nat :=
  match l.resolve? ident with
  | some (.nonterm i) => some i
  | _ => none

/-- The production that an identifier stands for. -/
def prod? (l : Listing) (ident : Bytes) : Option Nat :=
  match l.resolve? ident with
  | some (.prod i) => some i
  | _ => none

/-! ## The tables that a listing spells out -/

/-- The entry of a listed symbol. -/
def symbol? (l : Listing) (r : ListedRef) : Option SymbolEntry :=
  (if r.isTerminal then l.term? r.ident else l.nonterm? r.ident).map (⟨r.isTerminal, ·⟩)

/-- The entry of a listed production. -/
def production? (l : Listing) (p : ListedProd) : Option ProdEntry := do
  let rule ← l.nonterm? p.rule
  let symbols ← p.symbols.mapM l.symbol?
  some { rule, symbols, prec := p.prec }

/-- A terminal or nonterminal whose number is its position. -/
def inPlace? (entry : ListedSymbol × Nat) : Option ListedSymbol :=
  if entry.1.index = entry.2 then some entry.1 else none

/-- The number of the nonterminal that derives implicit tokens, or -1. -/
def implicit? (l : Listing) : Option Int :=
  match l.implicitNonterm with
  | none => some (-1)
  | some ident => (l.nonterm? ident).map Int.ofNat

/-- The numbers of the productions that name a rule. -/
def prodsOf (productions : List ProdEntry) (rule : Nat) : List Nat :=
  (productions.zipIdx.filter (·.1.rule = rule)).map Prod.snd

/-- The tables that a listing spells out. -/
def tables? (l : Listing) : Option Tables := do
  let terms ← l.terms.zipIdx.mapM inPlace?
  let nonterms ← l.nonterms.zipIdx.mapM inPlace?
  let productions ← l.prods.mapM l.production?
  let startProd ← l.prod? l.startProd
  let endTerm ← l.term? l.endTerm
  let implicitNonterm ← l.implicit?
  some
    { kind := l.kind
      nonterminals := nonterms.map fun n => ⟨n.name, prodsOf productions n.index⟩
      terminals := terms.map fun t => ⟨t.name, t.prec⟩
      productions
      startProd
      endTerm
      implicitNonterm }

/-- Symbols that are listed by their numbers stand in their places. -/
theorem mapM_inPlace? {α : Type} (xs : List α) {f : α × Nat → ListedSymbol}
    (hf : ∀ entry, (f entry).index = entry.2) :
    (xs.zipIdx.map f).zipIdx.mapM inPlace? = some (xs.zipIdx.map f) := by
  refine mapM_eq_some_iff.mpr (List.forall₂_iff_get.mpr ⟨by simp, ?_⟩)
  intro i _ hi
  have hindex : ((xs.zipIdx.map f)[i]).index = i := by
    rw [List.getElem_map, hf, List.getElem_zipIdx, Nat.zero_add]
  simp only [List.get_eq_getElem, List.getElem_zipIdx, Nat.zero_add, inPlace?]
  rw [if_pos hindex]

/-! ## An identifier stands for one thing -/

/-- Among pairs with different keys one has the key that is looked for. -/
theorem filter_eq_singleton {β : Type} {xs : List (Bytes × β)} (hnd : (xs.map Prod.fst).Nodup)
    {ident : Bytes} {b : β} (h : (ident, b) ∈ xs) : xs.filter (·.1 = ident) = [(ident, b)] := by
  induction xs with
  | nil => exact absurd h (by simp)
  | cons x xs ih =>
    rw [List.map_cons, List.nodup_cons] at hnd
    obtain ⟨hx, hnd⟩ := hnd
    rcases List.mem_cons.mp h with rfl | h
    · -- nothing behind it has the same key
      have hnone : xs.filter (·.1 = ident) = [] := by
        rw [List.filter_eq_nil_iff]
        intro y hy hkey
        exact hx (List.mem_map.mpr ⟨y, hy, of_decide_eq_true hkey⟩)
      rw [List.filter_cons_of_pos (by simp), hnone]
    · have hne : x.1 ≠ ident := by
        rintro rfl
        exact hx (List.mem_map.mpr ⟨_, h, rfl⟩)
      rw [List.filter_cons_of_neg (by simpa using hne), ih hnd h]

/-- The constants of a listing are its symbols and productions. -/
theorem map_fst_constants (l : Listing) :
    l.constants.map Prod.fst = l.terms.map ListedSymbol.ident
      ++ (l.nonterms.map ListedSymbol.ident ++ l.prods.map ListedProd.ident) := by
  have hprods : (l.prods.zipIdx.map fun entry => (entry.1.ident, Denoted.prod entry.2)).map Prod.fst
      = l.prods.map ListedProd.ident := by
    conv_rhs => rw [← List.zipIdx_map_fst 0 l.prods, List.map_map]
    rw [List.map_map]
    rfl
  rw [constants, List.map_append, List.map_append, hprods, List.map_map, List.map_map]
  rfl

/-- Among constants of different names each stands for what it was listed with. -/
theorem resolve?_of_mem {l : Listing} (hnd : (l.constants.map Prod.fst).Nodup) {ident : Bytes}
    {d : Denoted} (h : (ident, d) ∈ l.constants) : l.resolve? ident = some d := by
  rw [resolve?, filter_eq_singleton hnd h]

end Listing

/-! ## What a consistent grammar refers to -/

namespace Grammar.Consistent

variable {g : Grammar} (hg : g.Consistent)

theorem eq_mk_iff {n : NontermIdx} {i : Nat} : n = ⟨i⟩ ↔ n.val = i := by
  cases n with
  | mk val => rw [NontermIdx.mk.injEq]

include hg in
/-- Every production belongs to a nonterminal in range. -/
theorem rule_lt {p : IndexedProduction} (hp : p ∈ g.productions) :
    p.rule.val < g.nonterminals.length := by
  obtain ⟨i, hi⟩ := List.getElem?_of_mem hp
  have hrule : g.prodRule? ⟨i⟩ = some p.rule := by rw [prodRule?, production?, hi, Option.map_some]
  obtain ⟨prods, hprods, -⟩ := (hg.prodRule?_iff _ _).mp hrule
  exact (hg.answers.nontermProds p.rule).mp (by rw [hprods]; rfl)

include hg in
/-- Every symbol of a production is in range. -/
theorem hasSymbol {p : IndexedProduction} (hp : p ∈ g.productions) {s : Symbol}
    (hs : s ∈ p.symbols) : g.HasSymbol s := by
  obtain ⟨i, hi⟩ := List.getElem?_of_mem hp
  refine hg.symbols ⟨i⟩ p.symbols ?_ s hs
  rw [prodSymbols?, production?, hi, Option.map_some]

include hg in
/-- The start production is in range. -/
theorem startProd_lt : g.startProd.val < g.productions.length := by
  have hrule : g.prodRule? g.startProd = some g.startRule :=
    (hg.prodRule?_iff _ _).mpr ⟨_, hg.startProd, List.mem_singleton_self _⟩
  exact (hg.answers.prodRule g.startProd).mp (by rw [hrule]; rfl)

include hg in
/-- The productions of a rule are those that name it, in order: both lists go up, since one is part
of the numbers of all productions and the other a selection from them. -/
theorem prods_eq {i : Nat} {n : Nonterminal} (hn : g.nonterminals[i]? = some n) :
    n.prods.map ProdIdx.val = Listing.prodsOf g.tables.productions i := by
  have hprods : g.nontermProds? ⟨i⟩ = some n.prods := by
    rw [nontermProds?, nonterminal?, hn, Option.map_some]
  have hall : (g.nonterminals.map Nonterminal.prods).flatten = g.prodIdxs := by
    have horder := hg.prods_in_order
    rw [mapM_nontermProds?, Option.map_some] at horder
    exact Option.some.inj horder
  have hup : (n.prods.map ProdIdx.val).Pairwise (· < ·) := by
    have hsub : n.prods.Sublist g.prodIdxs := by
      rw [← hall]
      exact List.sublist_flatten_of_mem
        (List.mem_map.mpr ⟨n, List.mem_of_getElem? hn, rfl⟩)
    have hrange : g.prodIdxs.map ProdIdx.val = List.range g.productions.length := by
      rw [prodIdxs, List.map_map]
      exact List.map_id _
    exact List.pairwise_lt_range.sublist (hrange ▸ hsub.map ProdIdx.val)
  have hup' : (Listing.prodsOf g.tables.productions i).Pairwise (· < ·) := by
    have hsub : (Listing.prodsOf g.tables.productions i).Sublist
        (List.range g.tables.productions.length) := by
      rw [List.range_eq_range', ← List.zipIdx_map_snd 0 g.tables.productions]
      exact List.filter_sublist.map Prod.snd
    exact List.pairwise_lt_range.sublist hsub
  refine hup.eq_of_mem_iff hup' fun p => ?_
  have hleft : p ∈ n.prods.map ProdIdx.val ↔ g.prodRule? ⟨p⟩ = some ⟨i⟩ := by
    rw [hg.prodRule?_iff, hprods, List.mem_map]
    constructor
    · rintro ⟨q, hq, rfl⟩
      exact ⟨n.prods, rfl, hq⟩
    · rintro ⟨prods, heq, hp⟩
      exact ⟨⟨p⟩, Option.some.inj heq ▸ hp, rfl⟩
  have hright : p ∈ Listing.prodsOf g.tables.productions i ↔ g.prodRule? ⟨p⟩ = some ⟨i⟩ := by
    simp [Listing.prodsOf, List.mem_zipIdx_iff_getElem?, prodRule?, production?, tables,
      eq_mk_iff]
  rw [hleft, hright]

end Grammar.Consistent

/-! ## The listing of a grammar -/

namespace Listing

section OfGrammar

variable (sp : Spelling) (g : Grammar) (package commandLine : Bytes)

/-- The identifiers of the terminals of a grammar. -/
def termIds : List Bytes := idents sp.camel "Term" (g.terminals.map Terminal.name)

/-- The identifiers of the nonterminals of a grammar. -/
def nontermIds : List Bytes := idents sp.camel "NonTerm" (g.nonterminals.map Nonterminal.name)

/-- The symbol of a production as it is listed. -/
def listedRef : Symbol → ListedRef
  | .terminal i => ⟨true, identAt (termIds sp g) i.val⟩
  | .nonterminal i => ⟨false, identAt (nontermIds sp g) i.val⟩

/-- The symbols of one sort are listed by their numbers. -/
theorem listedSymbols_eq {α : Type} (name : α → Name) (prec : α → Bytes)
    (camel : Bytes → Bytes) (stem : String) (xs : List α) :
    ((xs.zip (idents camel stem (xs.map name))).zipIdx.map fun entry => ({
        ident := entry.1.2
        name := name entry.1.1
        index := entry.2
        prec := prec entry.1.1 } : ListedSymbol))
      = xs.zipIdx.map fun entry => ({
        ident := identAt (idents camel stem (xs.map name)) entry.2
        name := name entry.1
        index := entry.2
        prec := prec entry.1 } : ListedSymbol) := by
  have hlen : (idents camel stem (xs.map name)).length = xs.length := by
    rw [length_idents, List.length_map]
  refine List.ext_getElem? fun i => ?_
  by_cases hi : i < xs.length
  · have hi' : i < (idents camel stem (xs.map name)).length := hlen ▸ hi
    simp [hi, hi', identAt]
  · have hi' : ¬ i < (idents camel stem (xs.map name)).length := hlen ▸ hi
    rw [List.getElem?_eq_none (by simp; omega), List.getElem?_eq_none (by simp; omega)]

/-- Terminals are listed by their numbers. -/
theorem terms_ofGrammarWith : (ofGrammarWith sp g package commandLine).terms
    = g.terminals.zipIdx.map fun entry =>
      { ident := identAt (termIds sp g) entry.2
        name := entry.1.name
        index := entry.2
        prec := Precedence.textOf entry.1.prec } :=
  listedSymbols_eq Terminal.name (fun t => Precedence.textOf t.prec) sp.camel "Term" g.terminals

/-- Nonterminals are listed by their numbers. -/
theorem nonterms_ofGrammarWith : (ofGrammarWith sp g package commandLine).nonterms
    = g.nonterminals.zipIdx.map fun entry =>
      { ident := identAt (nontermIds sp g) entry.2
        name := entry.1.name
        index := entry.2 } :=
  listedSymbols_eq Nonterminal.name (fun _ => []) sp.camel "NonTerm" g.nonterminals

/-- Productions are listed by their numbers. -/
theorem listedProds_ofGrammarWith : (ofGrammarWith sp g package commandLine).prods
    = g.productions.zipIdx.map fun entry =>
      { ident := prodIdent entry.2
        rule := identAt (nontermIds sp g) entry.1.rule.val
        symbols := entry.1.symbols.map (listedRef sp g)
        prec := Precedence.textOf entry.1.prec
        text := commentTextWith sp.isGraphic ((g.prodText? ⟨entry.2⟩).getD []) } := rfl

/-- No constant is listed twice. -/
theorem constants_nodup :
    ((ofGrammarWith sp g package commandLine).constants.map Prod.fst).Nodup := by
  have hdeclared : (ofGrammarWith sp g package commandLine).declared.Nodup :=
    (declared_perm_allIdents sp g package commandLine).nodup_iff.mpr (allIdents_nodup sp g)
  rw [map_fst_constants]
  exact (List.nodup_append.mp ((declared_perm _).nodup_iff.mp hdeclared)).2.1

variable {sp g package commandLine}

/-- The identifier of a terminal resolves to its number. -/
theorem term?_ident {i : Nat} (hi : i < g.terminals.length) :
    (ofGrammarWith sp g package commandLine).term? (identAt (termIds sp g) i) = some i := by
  have hmem : (identAt (termIds sp g) i, Denoted.term i)
      ∈ (ofGrammarWith sp g package commandLine).constants := by
    unfold constants
    rw [terms_ofGrammarWith, List.map_map]
    refine List.mem_append_left _ (List.mem_map.mpr ⟨(g.terminals[i], i), ?_, rfl⟩)
    exact List.mk_mem_zipIdx_iff_getElem?.mpr (List.getElem?_eq_getElem hi)
  rw [term?, resolve?_of_mem (constants_nodup sp g package commandLine) hmem]

/-- The identifier of a nonterminal resolves to its number. -/
theorem nonterm?_ident {i : Nat} (hi : i < g.nonterminals.length) :
    (ofGrammarWith sp g package commandLine).nonterm? (identAt (nontermIds sp g) i) = some i := by
  have hmem : (identAt (nontermIds sp g) i, Denoted.nonterm i)
      ∈ (ofGrammarWith sp g package commandLine).constants := by
    unfold constants
    rw [nonterms_ofGrammarWith, List.map_map]
    refine List.mem_append_right _ (List.mem_append_left _
      (List.mem_map.mpr ⟨(g.nonterminals[i], i), ?_, rfl⟩))
    exact List.mk_mem_zipIdx_iff_getElem?.mpr (List.getElem?_eq_getElem hi)
  rw [nonterm?, resolve?_of_mem (constants_nodup sp g package commandLine) hmem]

/-- The identifier of a production resolves to its number. -/
theorem prod?_ident {i : Nat} (hi : i < g.productions.length) :
    (ofGrammarWith sp g package commandLine).prod? (prodIdent i) = some i := by
  have hlisted : ∃ p, ((ofGrammarWith sp g package commandLine).prods)[i]? = some p ∧
      p.ident = prodIdent i := by
    rw [listedProds_ofGrammarWith]
    simp [hi]
  obtain ⟨p, hp, hident⟩ := hlisted
  have hmem : (prodIdent i, Denoted.prod i)
      ∈ (ofGrammarWith sp g package commandLine).constants := by
    refine List.mem_append_right _ (List.mem_append_right _ (List.mem_map.mpr ⟨(p, i), ?_, ?_⟩))
    · exact List.mk_mem_zipIdx_iff_getElem?.mpr hp
    · rw [hident]
  rw [prod?, resolve?_of_mem (constants_nodup sp g package commandLine) hmem]

/-- A listed symbol resolves to the symbol. -/
theorem symbol?_listedRef {s : Symbol} (h : g.HasSymbol s) :
    (ofGrammarWith sp g package commandLine).symbol? (listedRef sp g s)
      = some (Grammar.symbolEntry s) := by
  cases s with
  | terminal i =>
    rw [listedRef, symbol?, if_pos rfl, term?_ident h]
    rfl
  | nonterminal i =>
    rw [listedRef, symbol?, if_neg (by simp), nonterm?_ident h]
    rfl

/-- A listed production resolves to its rule and symbols. -/
theorem production?_listed {p : IndexedProduction} (hrule : p.rule.val < g.nonterminals.length)
    (hsymbols : ∀ s ∈ p.symbols, g.HasSymbol s) (ident prec text : Bytes) :
    (ofGrammarWith sp g package commandLine).production?
        ⟨ident, identAt (nontermIds sp g) p.rule.val, p.symbols.map (listedRef sp g), prec, text⟩
      = some ⟨p.rule.val, p.symbols.map Grammar.symbolEntry, prec⟩ := by
  have hmapM : (p.symbols.map (listedRef sp g)).mapM
      (ofGrammarWith sp g package commandLine).symbol? = some (p.symbols.map Grammar.symbolEntry) := by
    rw [mapM_eq_some_iff, List.forall₂_map_left_iff, List.forall₂_map_right_iff,
      List.forall₂_same]
    exact fun s hs => symbol?_listedRef (hsymbols s hs)
  simp only [production?, nonterm?_ident hrule, hmapM, Option.bind_eq_bind, Option.bind_some]

variable (sp package commandLine)

/-- A table that is made entry by entry can be made from the entries with their numbers. -/
theorem map_eq_zipIdx_map {α β : Type} (f : α → β) (xs : List α) :
    xs.map f = xs.zipIdx.map fun entry => f entry.1 := by
  conv_lhs => rw [← List.zipIdx_map_fst 0 xs, List.map_map]
  rfl

/-- The listed productions resolve to the table of productions. -/
theorem mapM_production? (hg : g.Consistent) :
    (ofGrammarWith sp g package commandLine).prods.mapM
      (ofGrammarWith sp g package commandLine).production? = some g.tables.productions := by
  have htable : g.tables.productions = g.productions.zipIdx.map fun entry =>
      (⟨entry.1.rule.val, entry.1.symbols.map Grammar.symbolEntry,
        Precedence.textOf entry.1.prec⟩ : ProdEntry) := map_eq_zipIdx_map _ _
  rw [listedProds_ofGrammarWith, htable, mapM_eq_some_iff, List.forall₂_map_left_iff,
    List.forall₂_map_right_iff, List.forall₂_same]
  intro entry hentry
  have hp : entry.1 ∈ g.productions := List.fst_mem_of_mem_zipIdx hentry
  exact production?_listed (hg.rule_lt hp) (fun s hs => hg.hasSymbol hp hs) _ _ _

/-- The listed terminals have the names and precedences of the table. -/
theorem terms_map : (ofGrammarWith sp g package commandLine).terms.map
    (fun t => (⟨t.name, t.prec⟩ : TermEntry)) = g.tables.terminals := by
  have htable : g.tables.terminals = g.terminals.zipIdx.map fun entry =>
      (⟨entry.1.name, Precedence.textOf entry.1.prec⟩ : TermEntry) := map_eq_zipIdx_map _ _
  rw [terms_ofGrammarWith, htable, List.map_map]
  rfl

/-- The listed nonterminals have the names and productions of the table. -/
theorem nonterms_map (hg : g.Consistent) : (ofGrammarWith sp g package commandLine).nonterms.map
    (fun n => (⟨n.name, prodsOf g.tables.productions n.index⟩ : NontermEntry))
      = g.tables.nonterminals := by
  have htable : g.tables.nonterminals = g.nonterminals.zipIdx.map fun entry =>
      (⟨entry.1.name, entry.1.prods.map ProdIdx.val⟩ : NontermEntry) := map_eq_zipIdx_map _ _
  rw [nonterms_ofGrammarWith, htable, List.map_map]
  refine List.map_congr_left fun entry hentry => ?_
  have hprods := hg.prods_eq (List.mk_mem_zipIdx_iff_getElem?.mp hentry)
  rw [Function.comp_apply, hprods]

/-- The listed rule for implicit tokens resolves to that of the tables. -/
theorem implicit?_ofGrammarWith (hg : g.Consistent) :
    (ofGrammarWith sp g package commandLine).implicit? = some g.tables.implicitNonterm := by
  show (match g.implicitNonterm.map fun n => identAt (nontermIds sp g) n.val with
    | none => some (-1)
    | some ident => ((ofGrammarWith sp g package commandLine).nonterm? ident).map Int.ofNat)
      = some g.tables.implicitNonterm
  unfold Grammar.tables
  cases hn : g.implicitNonterm with
  | none => rfl
  | some n =>
    show ((ofGrammarWith sp g package commandLine).nonterm?
      (identAt (nontermIds sp g) n.val)).map Int.ofNat = some (n.val : Int)
    rw [nonterm?_ident (hg.implicitNonterm n hn)]
    rfl

/-- The listing of a consistent grammar resolves to its tables. -/
theorem tables?_of_consistent (hg : g.Consistent) :
    (ofGrammarWith sp g package commandLine).tables? = some g.tables := by
  have hterms : (ofGrammarWith sp g package commandLine).terms.zipIdx.mapM inPlace?
      = some (ofGrammarWith sp g package commandLine).terms := by
    rw [terms_ofGrammarWith]
    exact mapM_inPlace? g.terminals fun _ => rfl
  have hnonterms : (ofGrammarWith sp g package commandLine).nonterms.zipIdx.mapM inPlace?
      = some (ofGrammarWith sp g package commandLine).nonterms := by
    rw [nonterms_ofGrammarWith]
    exact mapM_inPlace? g.nonterminals fun _ => rfl
  have hstart : (ofGrammarWith sp g package commandLine).prod?
      (ofGrammarWith sp g package commandLine).startProd = some g.startProd.val :=
    prod?_ident hg.startProd_lt
  have hend : (ofGrammarWith sp g package commandLine).term?
      (ofGrammarWith sp g package commandLine).endTerm = some g.endTerm.val :=
    term?_ident hg.endTerm
  simp only [tables?, hterms, hnonterms, mapM_production? sp package commandLine hg, hstart, hend,
    implicit?_ofGrammarWith sp package commandLine hg, Option.bind_eq_bind, Option.bind_some,
    terms_map sp package commandLine, nonterms_map sp package commandLine hg]
  rfl

/-- The identifier for implicit tokens is empty exactly if there are none. -/
theorem implicitNonterm_empty_iff (hg : g.Consistent) :
    (ofGrammarWith sp g package commandLine).implicitNonterm.getD [] = []
      ↔ g.implicitNonterm = none := by
  show (g.implicitNonterm.map fun n => identAt (nontermIds sp g) n.val).getD [] = [] ↔ _
  cases hn : g.implicitNonterm with
  | none => simp
  | some n =>
    have hlt : n.val < (nontermIds sp g).length := by
      rw [nontermIds, length_idents, List.length_map]
      exact hg.implicitNonterm n hn
    have hmem : identAt (nontermIds sp g) n.val ∈ nontermIds sp g := by
      rw [identAt, List.getElem?_eq_getElem hlt, Option.getD_some]
      exact List.getElem_mem hlt
    have hne : identAt (nontermIds sp g) n.val ≠ [] := by
      obtain ⟨word, hword, -, heq⟩ := mem_idents_eq hmem
      rw [heq]
      exact List.append_ne_nil_of_right_ne_nil _ hword
    simpa using hne

end OfGrammar

/-- What a listing says in identifiers is what the tables of the grammar say in numbers. -/
structure ReadsBack (l : Listing) (g : Grammar) : Prop where
  /-- An identifier of the file stands for one thing and no other. -/
  resolves : ∀ ident denoted, (ident, denoted) ∈ l.constants → l.resolve? ident = some denoted
  /-- Terminals and nonterminals stand in the places of their numbers, and with the identifiers
  resolved the tables are those of the grammar. -/
  tables : l.tables? = some g.tables
  /-- The end of the input is the first terminal. -/
  endTerm : l.term? l.endTerm = some 0
  /-- The identifier for implicit tokens is missing where the grammar has none, and only there. -/
  implicitNonterm : l.implicitNonterm.getD [] = [] ↔ g.implicitNonterm = none

/-- The listing of a grammar says the same as its tables, however it spells names. -/
theorem readsBack_ofGrammarWith (sp : Spelling) {kind : Kind} {a : Description} {g : Grammar}
    (h : Grammar.ofDescription kind a = .ok g) (package commandLine : Bytes) :
    ReadsBack (ofGrammarWith sp g package commandLine) g := by
  obtain ⟨tr⟩ := Lowering.exists_trace (Grammar.ofDescription_eq_ok_iff.mp h).2
  have hg : g.Consistent := tr.consistent
  constructor
  case resolves =>
    exact fun _ _ hmem => resolve?_of_mem (constants_nodup sp g package commandLine) hmem
  case tables => exact tables?_of_consistent sp package commandLine hg
  case endTerm =>
    show (ofGrammarWith sp g package commandLine).term? (identAt (termIds sp g) g.endTerm.val)
      = some 0
    rw [term?_ident hg.endTerm, hg.endTerm_eq]
  case implicitNonterm => exact implicitNonterm_empty_iff sp package commandLine hg

/-- **The listing of a grammar says the same as its tables**, whatever its symbols are called. -/
theorem readsBack_ofGrammar {kind : Kind} {a : Description} {g : Grammar}
    (h : Grammar.ofDescription kind a = .ok g) (package commandLine : Bytes) :
    ReadsBack (ofGrammar g package commandLine) g :=
  readsBack_ofGrammarWith .standard h package commandLine

theorem readsBack_markerNames : ∃ g, Grammar.ofDescription .eco .markerNames = .ok g ∧
    ReadsBack (ofGrammar g (utf8 "tables") (utf8 "gen -package tables")) g := by
  obtain ⟨g, hg⟩ := Grammar.markerNames_accepted .eco
  exact ⟨g, hg, readsBack_ofGrammar hg _ _⟩

end Listing

end YaccTables
