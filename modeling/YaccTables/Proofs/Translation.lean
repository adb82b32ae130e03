import YaccTables.Grammar.Build
import YaccTables.Proofs.Assembly
import YaccTables.Proofs.Resolution

/-!
# Lowering translates a description faithfully

A lowered grammar is read back through its accessors: `Grammar.namedProds?` looks a nonterminal up
by name, lists its productions and gives every symbol of them its name again.
`Grammar.Translates g kind a` says that what is read back is what the description `a` states,
augmented as the kind asks, and nothing else; `translates_of_lowerWith` that lowering gives such a
grammar.

The way there follows the layout: `Lowering.Trace` keeps the scope and the productions that a
grammar was assembled from, and its lemmas say what each accessor answers in terms of these.
-/

namespace YaccTables

/-! ## Reading a grammar back -/

namespace Grammar

/-- The reference that a symbol stands for: its name, as a token or as a rule. -/
def ref? (g : Grammar) (s : Symbol) : Option SymbolRef :=
  (g.symbolName? s).map (if s.isTerminal then .token else .rule)

/-- The references that the symbols of a production stand for. -/
def prodRefs? (g : Grammar) (i : ProdIdx) : Option (List SymbolRef) := do
  let symbols ← g.prodSymbols? i
  symbols.mapM g.ref?

/-- The productions of the nonterminal of a name, read back. -/
def namedProds? (g : Grammar) (name : Name) : Option (List (List SymbolRef)) := do
  let i ← g.nontermIdx? name
  let prods ← g.nontermProds? i
  prods.mapM g.prodRefs?

/-- The grammar says what the description states, augmented as the kind asks, and nothing else. -/
structure Translates (g : Grammar) (kind : Kind) (a : Description) : Prop where
  /-- Implicit tokens are woven in exactly in an `eco` grammar that has some. -/
  woven_iff : (a.syntheticNames kind).woven.isSome ↔ kind = .eco ∧ a.implicitTokens ≠ []
  /-- The nonterminals are the synthetic ones and the user's rules, -/
  nonterminal_names : (g.nonterminals.map Nonterminal.name).Perm
    ((a.syntheticNames kind).nonterminals ++ a.ruleNames)
  /-- each under a name of its own. -/
  names_nodup : (g.nonterminals.map Nonterminal.name).Nodup
  /-- The terminals are the end of the input and the tokens in their order. -/
  terminal_names : g.terminals.map Terminal.name = (a.syntheticNames kind).endName :: a.tokens
  /-- A user's rule has its own productions in their order, each token followed by the padding. -/
  user_prods : ∀ r ∈ a.rules, g.namedProds? r.name
    = some (r.productions.map (Production.padded (a.syntheticNames kind).padding))
  /-- The start rule derives the user's start rule, behind implicit tokens if they are woven in. -/
  start_prods : g.namedProds? (a.syntheticNames kind).start
    = some [[.rule ((a.syntheticNames kind).target a.start)]]
  /-- The rule that puts an implicit token first. -/
  implicitStart_prods : ∀ woven, (a.syntheticNames kind).woven = some woven →
    g.namedProds? woven.implicitStart = some [[.rule woven.implicit, .rule a.start]]
  /-- The rule that derives each implicit token and then nothing. -/
  implicit_prods : ∀ woven, (a.syntheticNames kind).woven = some woven →
    g.namedProds? woven.implicit
      = some ((a.implicitTokens.map fun t => [SymbolRef.token t]) ++ [[]])
  /-- The nonterminals list every production once, -/
  prods_listed : g.nonterminals.flatMap Nonterminal.prods = g.prodIdxs
  /-- each production under the nonterminal that it belongs to. -/
  prodRule?_iff : ∀ i n,
    g.prodRule? i = some n ↔ ∃ prods, g.nontermProds? n = some prods ∧ i ∈ prods
  /-- The start rule and the implicit rule are the ones the grammar gives out as such. -/
  startRule_eq : g.nontermIdx? (a.syntheticNames kind).start = some g.startRule
  implicitNonterm_eq : g.implicitNonterm
    = (a.syntheticNames kind).woven.bind fun woven => g.nontermIdx? woven.implicit

/-! ## Names and numbers -/

section Lookup

variable {g : Grammar}

/-- A search by name among distinct names finds the place where the name stands. -/
theorem findIdx?_name_iff {α : Type} {key : α → Name} {xs : List α} (hnd : (xs.map key).Nodup)
    {name : Name} {i : Nat} :
    xs.findIdx? (key · == name) = some i ↔ xs[i]?.map key = some name := by
  rw [List.findIdx?_eq_some_iff_getElem]
  constructor
  · rintro ⟨hlt, hname, -⟩
    rw [List.getElem?_eq_getElem hlt, Option.map_some, eq_of_beq hname]
  · intro h
    obtain ⟨x, hx, rfl⟩ := Option.map_eq_some_iff.mp h
    obtain ⟨hlt, rfl⟩ := List.getElem?_eq_some_iff.mp hx
    refine ⟨hlt, beq_self_eq_true _, ?_⟩
    -- an earlier entry of the same name would be the same entry
    intro j hj hkey
    have hjlt : j < (xs.map key).length := by
      rw [List.length_map]
      omega
    have hsame : (xs.map key)[j]? = (xs.map key)[i]? := by
      rw [List.getElem?_map, List.getElem?_map, List.getElem?_eq_getElem (by omega), hx,
        Option.map_some, Option.map_some, eq_of_beq hkey]
    have hji := (List.getElem?_inj hjlt hnd).mp hsame
    omega

/-- Looking up terminals by name inverts naming them. -/
theorem termIdx?_eq_some_iff (hnd : (g.terminals.map Terminal.name).Nodup) {name : Name}
    {i : TermIdx} : g.termIdx? name = some i ↔ g.termName? i = some name := by
  unfold termIdx? termName? terminal?
  rw [← findIdx?_name_iff hnd, Option.map_eq_some_iff]
  constructor
  · rintro ⟨j, hj, rfl⟩
    exact hj
  · intro h
    exact ⟨i.val, h, rfl⟩

/-- Looking up nonterminals by name inverts naming them. -/
theorem nontermIdx?_eq_some_iff (hnd : (g.nonterminals.map Nonterminal.name).Nodup) {name : Name}
    {i : NontermIdx} : g.nontermIdx? name = some i ↔ g.nontermName? i = some name := by
  unfold nontermIdx? nontermName? nonterminal?
  rw [← findIdx?_name_iff hnd, Option.map_eq_some_iff]
  constructor
  · rintro ⟨j, hj, rfl⟩
    exact hj
  · intro h
    exact ⟨i.val, h, rfl⟩

end Lookup

end Grammar

namespace Lowering

/-! ## What a grammar was assembled from -/

/-- The scope and the productions from which lowering assembled a grammar. -/
structure Trace (kind : Kind) (a : Description) (g : Grammar) where
  sc : Scope
  groups : List (List Body)
  represents : sc.Represents kind a
  bodies_eq : List.Forall₂ (fun name found => bodies sc name = .ok found) sc.nonterms groups
  grammar_eq : grammar kind sc groups = g

/-- A lowered grammar has been put together from productions of all nonterminals. -/
theorem exists_trace {fold : Bytes → Bytes} {kind : Kind} {a : Description} {g : Grammar}
    (h : a.lowerWith fold kind = .ok g) : Nonempty (Trace kind a g) := by
  obtain ⟨sc, groups, hsc, hgroups, hg⟩ := Description.lowerWith_eq_ok_iff.mp h
  exact ⟨⟨sc, groups, scope_represents hsc, hgroups, hg⟩⟩

namespace Trace

variable {kind : Kind} {a : Description} {g : Grammar} (tr : Trace kind a g)

/-- There are productions for each nonterminal. -/
theorem length_eq : tr.sc.nonterms.length = tr.groups.length := tr.bodies_eq.length_eq

theorem nonterminals_eq : g.nonterminals = numberFrom 0 (tr.sc.nonterms.zip tr.groups) :=
  congrArg Grammar.nonterminals tr.grammar_eq.symm

theorem terminals_eq : g.terminals = terminals tr.sc.description tr.sc.terms :=
  congrArg Grammar.terminals tr.grammar_eq.symm

theorem productions_eq : g.productions = assemble tr.groups :=
  congrArg Grammar.productions tr.grammar_eq.symm

/-- The nonterminals of a grammar are those of the scope. -/
theorem nonterminal_names : g.nonterminals.map Nonterminal.name = tr.sc.nonterms := by
  rw [tr.nonterminals_eq, map_name_numberFrom 0 tr.length_eq]

/-- The terminals of a grammar are those of the scope. -/
theorem terminal_names : g.terminals.map Terminal.name = tr.sc.terms := by
  rw [tr.terminals_eq, map_name_terminals]

/-- A nonterminal is named as in the scope. -/
theorem nontermName?_eq (i : NontermIdx) : g.nontermName? i = tr.sc.nonterms[i.val]? := by
  rw [Grammar.nontermName?, Grammar.nonterminal?, ← List.getElem?_map, tr.nonterminal_names]

/-- A terminal is named as in the scope. -/
theorem termName?_eq (i : TermIdx) : g.termName? i = tr.sc.terms[i.val]? := by
  rw [Grammar.termName?, Grammar.terminal?, ← List.getElem?_map, tr.terminal_names]

/-- Symbols read back as in the scope. -/
theorem ref?_eq : g.ref? = tr.sc.ref? := by
  funext s
  cases s with
  | terminal i =>
    rw [Grammar.ref?, Grammar.symbolName?, tr.termName?_eq]
    rfl
  | nonterminal i =>
    rw [Grammar.ref?, Grammar.symbolName?, tr.nontermName?_eq]
    rfl

/-- A nonterminal is found at its place in the scope. -/
theorem nontermIdx?_eq {i : Nat} {name : Name} (hn : tr.sc.nonterms[i]? = some name) :
    g.nontermIdx? name = some ⟨i⟩ := by
  have hnd : (g.nonterminals.map Nonterminal.name).Nodup := by
    rw [tr.nonterminal_names]
    exact tr.represents.nonterms_nodup
  rw [Grammar.nontermIdx?_eq_some_iff hnd, tr.nontermName?_eq]
  exact hn

/-- Every nonterminal has a place and its productions there. -/
theorem exists_group {name : Name} (h : name ∈ tr.sc.nonterms) :
    ∃ (i : Nat) (found : List Body), tr.sc.nonterms[i]? = some name ∧
      tr.groups[i]? = some found ∧ bodies tr.sc name = .ok found := by
  obtain ⟨i, hlt, hget⟩ := List.mem_iff_getElem.mp h
  have hlt' : i < tr.groups.length := by
    rw [← tr.length_eq]
    exact hlt
  have hrel := (List.forall₂_iff_get.mp tr.bodies_eq).2 i hlt hlt'
  refine ⟨i, tr.groups[i], ?_, List.getElem?_eq_getElem hlt', ?_⟩
  · rw [List.getElem?_eq_getElem hlt, hget]
  · rw [List.get_eq_getElem, hget] at hrel
    exact hrel

/-! ### The productions of one nonterminal -/

section Group

variable {i : Nat} {found : List Body}

/-- The productions of a nonterminal are numbered from the first one of its group. -/
theorem nontermProds?_eq (hg : tr.groups[i]? = some found) :
    g.nontermProds? ⟨i⟩
      = some ((List.range' (firstProd tr.groups i) found.length).map ProdIdx.mk) := by
  have hlt : i < tr.sc.nonterms.length := by
    rw [tr.length_eq]
    exact (List.getElem?_eq_some_iff.mp hg).1
  rw [Grammar.nontermProds?, Grammar.nonterminal?, tr.nonterminals_eq,
    numberFrom_getElem? 0 (List.getElem?_eq_getElem hlt) hg, Nat.zero_add]
  rfl

/-- A production of a group is found by its number. -/
theorem production?_eq (hg : tr.groups[i]? = some found) {j : Nat} {b : Body}
    (hb : found[j]? = some b) :
    g.production? ⟨firstProd tr.groups i + j⟩ = some (b.ofRule i) := by
  rw [Grammar.production?, tr.productions_eq]
  exact assemble_getElem? hg hb

/-- The productions of a group are found by their numbers, in order. -/
theorem production?_group (hg : tr.groups[i]? = some found) :
    List.Forall₂ (fun p b => g.production? p = some (b.ofRule i))
      ((List.range' (firstProd tr.groups i) found.length).map ProdIdx.mk) found := by
  refine List.forall₂_iff_get.mpr ⟨by simp, ?_⟩
  intro j hj hj'
  have hb : found[j]? = some found[j] := List.getElem?_eq_getElem hj'
  simp only [List.get_eq_getElem, List.getElem_map, List.getElem_range', Nat.one_mul]
  exact tr.production?_eq hg hb

/-- A production of a group belongs to the nonterminal of the group. -/
theorem prodRule?_of_mem (hg : tr.groups[i]? = some found) {p : ProdIdx}
    (hp : p ∈ (List.range' (firstProd tr.groups i) found.length).map ProdIdx.mk) :
    g.prodRule? p = some ⟨i⟩ := by
  obtain ⟨b, -, hb⟩ := exists_mem_of_forall₂ (tr.production?_group hg) hp
  rw [Grammar.prodRule?, hb]
  rfl

/-- **The productions of a nonterminal read back as what was found for it.** -/
theorem namedProds?_eq {name : Name} (hn : tr.sc.nonterms[i]? = some name)
    (hg : tr.groups[i]? = some found) {named : List (List SymbolRef)}
    (hnamed : tr.sc.named? found = some named) : g.namedProds? name = some named := by
  have hrefs : List.Forall₂ (fun p refs => g.prodRefs? p = some refs)
      ((List.range' (firstProd tr.groups i) found.length).map ProdIdx.mk) named := by
    refine List.forall₂_iff_get.mpr ⟨?_, ?_⟩
    · rw [(tr.production?_group hg).length_eq, (Scope.named?_eq_some_iff.mp hnamed).length_eq]
    · intro j hj hj'
      -- at each place, the production looked up has the symbols whose names are known
      have hlen := (tr.production?_group hg).length_eq
      have hprod := (List.forall₂_iff_get.mp (tr.production?_group hg)).2 j hj (by omega)
      have hbody := (List.forall₂_iff_get.mp (Scope.named?_eq_some_iff.mp hnamed)).2 j
        (by omega) hj'
      rw [Grammar.prodRefs?, Grammar.prodSymbols?, hprod, tr.ref?_eq]
      exact hbody
  rw [Grammar.namedProds?, tr.nontermIdx?_eq hn, Option.bind_eq_bind, Option.bind_some,
    tr.nontermProds?_eq hg]
  exact mapM_eq_some_iff.mpr hrefs

end Group

/-! ### All productions -/

/-- Productions of a nonterminal are those of a group. -/
theorem exists_group_of_nontermProds? {n : NontermIdx} {prods : List ProdIdx}
    (h : g.nontermProds? n = some prods) :
    ∃ found, tr.groups[n.val]? = some found ∧
      prods = (List.range' (firstProd tr.groups n.val) found.length).map ProdIdx.mk := by
  have hlt : n.val < tr.groups.length := by
    obtain ⟨nt, hnt, -⟩ := Option.map_eq_some_iff.mp h
    rw [← tr.length_eq, ← tr.nonterminal_names, List.length_map]
    exact (List.getElem?_eq_some_iff.mp hnt).1
  have hg := List.getElem?_eq_getElem hlt
  rw [tr.nontermProds?_eq hg] at h
  exact ⟨_, hg, (Option.some.inj h).symm⟩

include tr in
/-- All productions are listed under nonterminals, in order. -/
theorem prods_listed : g.nonterminals.flatMap Nonterminal.prods = g.prodIdxs := by
  rw [tr.nonterminals_eq, flatMap_prods_numberFrom 0 tr.length_eq, Grammar.prodIdxs,
    tr.productions_eq, assemble_eq, assembleFrom_length, List.range_eq_range']

include tr in
/-- A production belongs to the nonterminal that lists it. -/
theorem prodRule?_iff (p : ProdIdx) (n : NontermIdx) :
    g.prodRule? p = some n ↔ ∃ prods, g.nontermProds? n = some prods ∧ p ∈ prods := by
  have hlisted : ∀ m prods, g.nontermProds? m = some prods → p ∈ prods →
      g.prodRule? p = some m := by
    intro m prods hprods hp
    obtain ⟨found, hg, rfl⟩ := tr.exists_group_of_nontermProds? hprods
    exact tr.prodRule?_of_mem hg hp
  constructor
  · intro h
    -- the production is in range, so some nonterminal lists it, and that can only be `n`
    obtain ⟨q, hq, -⟩ := Option.map_eq_some_iff.mp h
    have hlt : p.val < g.productions.length := (List.getElem?_eq_some_iff.mp hq).1
    have hmem : p ∈ g.nonterminals.flatMap Nonterminal.prods := by
      rw [tr.prods_listed, Grammar.prodIdxs]
      exact List.mem_map.mpr ⟨p.val, List.mem_range.mpr hlt, rfl⟩
    obtain ⟨nt, hnt, hp⟩ := List.mem_flatMap.mp hmem
    obtain ⟨i, hi, hget⟩ := List.mem_iff_getElem.mp hnt
    have hprods : g.nontermProds? ⟨i⟩ = some nt.prods := by
      rw [Grammar.nontermProds?, Grammar.nonterminal?, List.getElem?_eq_getElem hi, hget]
      rfl
    have hown := hlisted ⟨i⟩ nt.prods hprods hp
    rw [h] at hown
    obtain rfl := Option.some.inj hown
    exact ⟨nt.prods, hprods, hp⟩
  · rintro ⟨prods, hprods, hp⟩
    exact hlisted n prods hprods hp

/-! ### The start rule -/

/-- The start production is the first of the start rule. -/
theorem startProd_eq : g.startProd
    = ⟨firstProd tr.groups (tr.sc.nontermTable.number tr.sc.names.start)⟩ :=
  congrArg Grammar.startProd tr.grammar_eq.symm

/-- The implicit rule is looked up by its name. -/
theorem implicitNonterm_eq : g.implicitNonterm
    = tr.sc.names.woven.map fun woven => ⟨tr.sc.nontermTable.number woven.implicit⟩ :=
  congrArg Grammar.implicitNonterm tr.grammar_eq.symm

/-- A nonterminal stands at its number. -/
theorem nonterms_number {name : Name} (h : name ∈ tr.sc.nonterms) :
    tr.sc.nonterms[tr.sc.nontermTable.number name]? = some name :=
  Numbering.Table.getElem?_number h

/-- The start production belongs to the start rule. -/
theorem startProd_rule :
    g.prodRule? g.startProd = some ⟨tr.sc.nontermTable.number tr.sc.names.start⟩ := by
  obtain ⟨i, found, hn, hg, hfound⟩ := tr.exists_group tr.represents.start_mem
  have hi : i = tr.sc.nontermTable.number tr.sc.names.start := by
    have h1 := tr.nontermIdx?_eq hn
    rw [tr.nontermIdx?_eq (tr.nonterms_number tr.represents.start_mem)] at h1
    exact (NontermIdx.mk.inj (Option.some.inj h1)).symm
  -- the group of the start rule is not empty, so its first production is there
  obtain ⟨-, hne⟩ := bodies_start_iff.mp hfound
  obtain ⟨b, rest, rfl⟩ := List.exists_cons_of_ne_nil hne
  have hprod := tr.production?_eq (j := 0) (b := b) hg rfl
  rw [Grammar.prodRule?, tr.startProd_eq, ← hi]
  rw [Nat.add_zero] at hprod
  rw [hprod]
  rfl

include tr in
/-- **The end of the input is looked up and found at index 0.** -/
theorem endTerm_eq : g.endTerm = ⟨0⟩ := by
  have hlookup : g.endTerm = ⟨tr.sc.termTable.number tr.sc.names.endName⟩ :=
    congrArg Grammar.endTerm tr.grammar_eq.symm
  have hterms := tr.represents.terms_eq
  have hfirst : tr.sc.termTable.number? tr.sc.names.endName = some 0 := by
    rw [Numbering.Table.number?_eq_some_iff tr.represents.terms_nodup]
    rw [Scope.terms] at hterms
    rw [hterms]
    rfl
  rw [hlookup, Numbering.Table.number, hfirst, Option.getD_some]

/-- The start rule is looked up by its name. -/
theorem startRule_eq : g.startRule = ⟨tr.sc.nontermTable.number tr.sc.names.start⟩ := by
  rw [Grammar.startRule, tr.startProd_rule]
  rfl

include tr in
/-- **A lowered grammar translates its description.** -/
theorem translates : g.Translates kind a := by
  have hrep := tr.represents
  have hnames := hrep.names_eq
  -- whatever is found for a nonterminal is what its name reads back as
  have hread : ∀ {name : Name} {named : List (List SymbolRef)}, name ∈ tr.sc.nonterms →
      (∀ found, bodies tr.sc name = .ok found → tr.sc.named? found = some named) →
      g.namedProds? name = some named := by
    intro name named hmem hbodies
    obtain ⟨i, found, hn, hg, hfound⟩ := tr.exists_group hmem
    exact tr.namedProds?_eq hn hg (hbodies found hfound)
  constructor
  case woven_iff => rw [Description.woven_isSome_iff, Description.weaves_iff]
  case nonterminal_names =>
    rw [tr.nonterminal_names, ← hnames]
    exact hrep.nonterms_perm
  case names_nodup =>
    rw [tr.nonterminal_names]
    exact hrep.nonterms_nodup
  case terminal_names => rw [tr.terminal_names, hrep.terms_eq, hnames]
  case user_prods =>
    intro r hr
    rw [← hnames]
    exact hread (hrep.mem_nonterms_iff.mpr (.inr (List.mem_map_of_mem hr)))
      fun found hfound => hrep.user_named hr hfound
  case start_prods =>
    rw [← hnames]
    exact hread hrep.start_mem fun found hfound => hrep.start_named hfound
  case implicitStart_prods =>
    intro woven hw
    rw [← hnames] at hw
    exact hread (hrep.implicitStart_mem hw) fun found hfound => hrep.implicitStart_named hw hfound
  case implicit_prods =>
    intro woven hw
    rw [← hnames] at hw
    exact hread (hrep.implicit_mem hw) fun found hfound => hrep.implicit_named hw hfound
  case prods_listed => exact tr.prods_listed
  case prodRule?_iff => exact tr.prodRule?_iff
  case startRule_eq =>
    rw [← hnames, tr.nontermIdx?_eq (tr.nonterms_number hrep.start_mem), tr.startRule_eq]
  case implicitNonterm_eq =>
    rw [← hnames, tr.implicitNonterm_eq]
    cases hw : tr.sc.names.woven with
    | none => rfl
    | some woven =>
      rw [Option.map_some, Option.bind_some,
        tr.nontermIdx?_eq (tr.nonterms_number (hrep.implicit_mem hw))]

end Trace

end Lowering

/-! ## The grammar of a description -/

/-- A description whose rules and tokens are called like the markers that lowering would use: all
synthetic names have to be longer. Its rules are recursive, one of them derives itself and nothing,
and an implicit token stands in a production. -/
def Description.markerNames : Description :=
  { start := utf8 "^"
    rules :=
      [⟨utf8 "^", [⟨[.token (utf8 "x"), .rule (utf8 "~")], []⟩, ⟨[.rule (utf8 "^")], []⟩,
        ⟨[], []⟩]⟩,
       ⟨utf8 "~", [⟨[.rule (utf8 "^~"), .token (utf8 "$"), .token (utf8 "ws")], []⟩]⟩,
       ⟨utf8 "^~", [⟨[.rule (utf8 "^~")], []⟩]⟩]
    tokens := [utf8 "x", utf8 "ws", utf8 "$"]
    implicitTokens := [utf8 "ws"] }

namespace Grammar

/-- Lowering translates, however nonterminals are ordered. -/
theorem translates_of_lowerWith {fold : Bytes → Bytes} {kind : Kind} {a : Description}
    {g : Grammar} (h : a.lowerWith fold kind = .ok g) : g.Translates kind a := by
  obtain ⟨tr⟩ := Lowering.exists_trace h
  exact tr.translates

/-- A description without problems has the grammar that it is lowered to. -/
theorem ofDescription_eq_ok_iff {kind : Kind} {a : Description} {g : Grammar} :
    ofDescription kind a = .ok g ↔ a.Valid ∧ a.lower kind = .ok g := by
  rw [← Description.problems_eq_nil_iff, ofDescription]
  by_cases hp : a.problems = []
  · cases hl : a.lower kind with
    | error e => simp [hp]
    | ok g' => simp [hp]
  · simp [hp]

/-- Whether a description is accepted does not depend on the kind: all that validity leaves open is
whether there are references of unknown kinds. -/
theorem exists_ofDescription_iff (kind : Kind) (a : Description) :
    (∃ g, ofDescription kind a = .ok g) ↔ a.Valid ∧ a.HasKnownKinds := by
  simp only [ofDescription_eq_ok_iff, exists_and_left]
  exact and_congr_right fun hv => hv.exists_lowerWith_iff Text.foldCase kind

/-- **The grammar of a description says what the description states, and nothing else.** -/
theorem translates_of_ofDescription {kind : Kind} {a : Description} {g : Grammar}
    (h : ofDescription kind a = .ok g) : g.Translates kind a :=
  translates_of_lowerWith (ofDescription_eq_ok_iff.mp h).2

/-- The description whose names are markers is lowered. -/
theorem markerNames_accepted (kind : Kind) : ∃ g, ofDescription kind .markerNames = .ok g :=
  (exists_ofDescription_iff kind .markerNames).mpr
    ⟨(Description.problems_eq_nil_iff .markerNames).mp (by decide), by decide⟩

theorem translates_markerNames :
    ∃ g, ofDescription .eco .markerNames = .ok g ∧ g.Translates .eco .markerNames := by
  obtain ⟨g, hg⟩ := markerNames_accepted .eco
  exact ⟨g, hg, translates_of_ofDescription hg⟩

end Grammar

end YaccTables
