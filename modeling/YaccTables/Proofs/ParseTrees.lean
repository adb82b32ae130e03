import Mathlib.Data.Set.Subsingleton
import YaccTables.Proofs.Derivation

/-!
# Parse trees

A parse tree says how a word is derived: each node is a production over the trees of its symbols.
Trees are kept in rows, `ParseForest`, since it takes a row of them to parse the symbols of a
production; a parse tree of a word is a row for the start rule alone (`Grammar.parseTrees`).

* The words that have a parse tree are those of the language (`parseTrees_nonempty_iff`).
* Grammars whose numbers differ are compared by name. A production is found again by its *place*,
  the name of its rule and its position there (`place?_eq_some_iff`), and `Grows g refs f w` says
  of trees in `g` that they parse the word `w` from references by name (`mem_parseTrees_iff`).
-/

namespace YaccTables

/-- Parse trees in a row: a tree is a token, or a production over the trees of its symbols. -/
inductive ParseForest
  | nil
  | leaf (t : TermIdx) (rest : ParseForest)
  | node (p : ProdIdx) (children rest : ParseForest)
  deriving DecidableEq, Repr

namespace ParseForest

/-- The tokens of the trees, from left to right. -/
def yield : ParseForest → List TermIdx
  | .nil => []
  | .leaf t rest => t :: rest.yield
  | .node _ children rest => children.yield ++ rest.yield

/-- One row of trees behind another. -/
def append : ParseForest → ParseForest → ParseForest
  | .nil, g => g
  | .leaf t rest, g => .leaf t (rest.append g)
  | .node p children rest, g => .node p children (rest.append g)

/-- Nothing put behind trees leaves them as they are. -/
theorem append_nil (f : ParseForest) : f.append .nil = f := by
  induction f with
  | nil => rfl
  | leaf t rest ih => rw [append, ih]
  | node p children rest _ ih => rw [append, ih]

/-- Trees yield one after the other. -/
theorem yield_append (f g : ParseForest) : (f.append g).yield = f.yield ++ g.yield := by
  induction f with
  | nil => rfl
  | leaf t rest ih => rw [append, yield, ih, yield, List.cons_append]
  | node p children rest _ ih => rw [append, yield, ih, yield, List.append_assoc]

end ParseForest

namespace Grammar

/-- The trees parse the symbols: a token each terminal, and a production of its own each
nonterminal. -/
inductive Parses (g : Grammar) : List Symbol → ParseForest → Prop where
  | nil : Parses g [] .nil
  | leaf {t : TermIdx} {symbols : List Symbol} {rest : ParseForest} (h : Parses g symbols rest) :
      Parses g (.terminal t :: symbols) (.leaf t rest)
  | node {i : ProdIdx} {p : IndexedProduction} {symbols : List Symbol}
      {children rest : ParseForest} (hp : g.production? i = some p)
      (hchildren : Parses g p.symbols children) (h : Parses g symbols rest) :
      Parses g (.nonterminal p.rule :: symbols) (.node i children rest)

/-- The parse trees of a word. -/
def parseTrees (g : Grammar) (w : List Name) : Set ParseForest :=
  {f | g.Parses [.nonterminal g.startRule] f ∧ f.yield.mapM g.termName? = some w}

/-- No word has two parse trees. -/
def Unambiguous (g : Grammar) : Prop := ∀ w, (g.parseTrees w).Subsingleton

/-! ## Trees and derivations -/

section Derivations

variable {g : Grammar}

/-- Trees for two parts are trees for both together. -/
theorem Parses.append {u v : List Symbol} {f f' : ParseForest} (hu : g.Parses u f)
    (hv : g.Parses v f') : g.Parses (u ++ v) (f.append f') := by
  induction hu with
  | nil => exact hv
  | leaf _ ih => exact .leaf ih
  | node hp hchildren _ _ ih => exact .node hp hchildren ih

/-- Trees for two parts fall apart into trees for each. -/
theorem Parses.exists_of_append {u v : List Symbol} {f : ParseForest} (h : g.Parses (u ++ v) f) :
    ∃ f₁ f₂, f = f₁.append f₂ ∧ g.Parses u f₁ ∧ g.Parses v f₂ := by
  induction u generalizing f with
  | nil => exact ⟨.nil, f, rfl, .nil, h⟩
  | cons s u ih =>
    cases h with
    | @leaf t _ rest hrest =>
      obtain ⟨f₁, f₂, rfl, h₁, h₂⟩ := ih hrest
      exact ⟨.leaf t f₁, f₂, rfl, .leaf h₁, h₂⟩
    | @node i p _ children rest hp hchildren hrest =>
      obtain ⟨f₁, f₂, rfl, h₁, h₂⟩ := ih hrest
      exact ⟨.node i children f₁, f₂, rfl, .node hp hchildren h₁, h₂⟩

/-- Terminals are parsed as themselves. -/
theorem parses_terminals (ts : List TermIdx) :
    ∃ f, g.Parses (ts.map .terminal) f ∧ f.yield = ts := by
  induction ts with
  | nil => exact ⟨.nil, .nil, rfl⟩
  | cons t ts ih =>
    obtain ⟨f, hf, hyield⟩ := ih
    exact ⟨.leaf t f, .leaf hf, by rw [ParseForest.yield, hyield]⟩

/-- What has trees can be derived. -/
theorem Parses.derives {symbols : List Symbol} {f : ParseForest} (h : g.Parses symbols f) :
    g.Derives symbols (f.yield.map .terminal) := by
  induction h with
  | nil => exact Relation.ReflTransGen.refl
  | @leaf t _ _ _ ih =>
    exact Derives.append (u := [.terminal t]) Relation.ReflTransGen.refl ih
  | @node i p symbols children rest hp _ _ ihchildren ih =>
    rw [ParseForest.yield, List.map_append]
    exact Derives.append (u := [.nonterminal p.rule])
      (Derives.of_production (List.mem_of_getElem? hp) ihchildren) ih

/-- One step backwards: trees for its result become trees for what it started from, by one more
node over those of the production. -/
theorem exists_parses_of_produces {u v : List Symbol} (hstep : g.Produces u v) {f : ParseForest}
    (hf : g.Parses v f) : ∃ f', g.Parses u f' ∧ f'.yield = f.yield := by
  obtain ⟨p, hp, pre, post, rfl, rfl⟩ := hstep
  obtain ⟨front, behind, rfl, hfront, hbehind⟩ := hf.exists_of_append
  obtain ⟨before, children, rfl, hbefore, hchildren⟩ := hfront.exists_of_append
  obtain ⟨i, hlt, hget⟩ := List.mem_iff_getElem.mp hp
  have hi : g.production? ⟨i⟩ = some p := by rw [production?, List.getElem?_eq_getElem hlt, hget]
  refine ⟨(before.append (.node ⟨i⟩ children .nil)).append behind, ?_, ?_⟩
  · exact (hbefore.append (.node hi hchildren .nil)).append hbehind
  · simp [ParseForest.yield_append, ParseForest.yield]

/-- What can be derived has trees. -/
theorem exists_parses_of_derives {symbols : List Symbol} {ts : List TermIdx}
    (h : g.Derives symbols (ts.map .terminal)) : ∃ f, g.Parses symbols f ∧ f.yield = ts := by
  -- backwards from the last word of the derivation
  induction h using Relation.ReflTransGen.head_induction_on with
  | refl => exact parses_terminals ts
  | head hstep _ ih =>
    obtain ⟨f, hf, hyield⟩ := ih
    obtain ⟨f', hf', hyield'⟩ := exists_parses_of_produces hstep hf
    exact ⟨f', hf', hyield'.trans hyield⟩

/-- **A word has a parse tree exactly if it is in the language.** -/
theorem parseTrees_nonempty_iff {w : List Name} : (g.parseTrees w).Nonempty ↔ w ∈ g.language := by
  constructor
  · rintro ⟨f, hf, hw⟩
    exact ⟨f.yield, hf.derives, hw⟩
  · rintro ⟨ts, hder, hw⟩
    obtain ⟨f, hf, rfl⟩ := exists_parses_of_derives hder
    exact ⟨f, hf, hw⟩

end Derivations

/-! ## The place of a production -/

/-- The production at a position of the rule of a name. -/
def prodAt? (g : Grammar) (name : Name) (j : Nat) : Option ProdIdx := do
  let i ← g.nontermIdx? name
  let prods ← g.nontermProds? i
  prods[j]?

/-- A production by the name of its rule and its place there. -/
theorem prodAt?_eq_some_iff {g : Grammar} {name : Name} {j : Nat} {p : ProdIdx} :
    g.prodAt? name j = some p ↔ ∃ i, g.nontermIdx? name = some i ∧
      ∃ prods, g.nontermProds? i = some prods ∧ prods[j]? = some p := by
  simp only [prodAt?, Option.bind_eq_bind, Option.bind_eq_some_iff]

/-- The name of the rule of a production and its position there. -/
def place? (g : Grammar) (p : ProdIdx) : Option (Name × Nat) := do
  let i ← g.prodRule? p
  let name ← g.nontermName? i
  let prods ← g.nontermProds? i
  return (name, prods.idxOf p)

namespace Translates

variable {g : Grammar} {kind : Kind} {a : Description}

/-- No production is twice in a rule. -/
theorem prods_nodup (ht : g.Translates kind a) {n : NontermIdx} {prods : List ProdIdx}
    (h : g.nontermProds? n = some prods) : prods.Nodup := by
  obtain ⟨nt, hnt, rfl⟩ := Option.map_eq_some_iff.mp h
  have hall : (g.nonterminals.flatMap Nonterminal.prods).Nodup := by
    rw [ht.prods_listed, prodIdxs]
    exact List.nodup_range.map fun i j hij => ProdIdx.mk.inj hij
  exact (List.nodup_flatMap.mp hall).1 nt (List.mem_of_getElem? hnt)

/-- A nonterminal is found by its name. -/
theorem nontermIdx?_of_nontermName? (ht : g.Translates kind a) {n : NontermIdx} {name : Name}
    (h : g.nontermName? n = some name) : g.nontermIdx? name = some n :=
  (nontermIdx?_eq_some_iff ht.names_nodup).mpr h

/-- **A production is found at its place**, and at no other. -/
theorem place?_eq_some_iff (ht : g.Translates kind a) {p : ProdIdx} {name : Name} {j : Nat} :
    g.place? p = some (name, j) ↔ g.prodAt? name j = some p := by
  simp only [prodAt?_eq_some_iff, place?, Option.bind_eq_bind, Option.bind_eq_some_iff,
    Option.pure_def, Option.some.injEq, Prod.mk.injEq]
  constructor
  · rintro ⟨i, hi, n, hn, prods, hprods, rfl, rfl⟩
    refine ⟨i, ht.nontermIdx?_of_nontermName? hn, prods, hprods, ?_⟩
    obtain ⟨prods', hprods', hmem⟩ := (ht.prodRule?_iff p i).mp hi
    obtain rfl := Option.some.inj (hprods.symm.trans hprods')
    have hlt := List.idxOf_lt_length_of_mem hmem
    rw [List.getElem?_eq_getElem hlt, List.getElem_idxOf hlt]
  · rintro ⟨i, hi, prods, hprods, hp⟩
    have hmem := List.mem_of_getElem? hp
    refine ⟨i, (ht.prodRule?_iff p i).mpr ⟨prods, hprods, hmem⟩, name,
      nontermName?_of_nontermIdx? hi, prods, hprods, rfl, ?_⟩
    -- a rule lists none of its productions twice
    obtain ⟨hlt, hget⟩ := List.getElem?_eq_some_iff.mp hp
    rw [← hget]
    exact (ht.prods_nodup hprods).idxOf_getElem j hlt

end Translates

/-- The productions read back by name are those at the places of the rule. -/
theorem getElem?_namedProds? {g : Grammar} {name : Name} {named : List (List SymbolRef)}
    (h : g.namedProds? name = some named) (j : Nat) :
    named[j]? = (g.prodAt? name j).bind g.prodRefs? := by
  obtain ⟨i, hi, h⟩ := Option.bind_eq_some_iff.mp h
  obtain ⟨prods, hprods, h⟩ := Option.bind_eq_some_iff.mp h
  have hat : g.prodAt? name j = prods[j]? := by
    rw [prodAt?, hi, Option.bind_eq_bind, Option.bind_some, hprods]
    rfl
  rw [hat, getElem?_of_mapM_eq_some h]

/-- A rule that reads back as something has a first production. -/
theorem exists_prodAt?_zero {g : Grammar} {name : Name} {body : List SymbolRef}
    {named : List (List SymbolRef)} (h : g.namedProds? name = some (body :: named)) :
    ∃ p, g.prodAt? name 0 = some p := by
  have hplace := getElem?_namedProds? h 0
  rw [List.getElem?_cons_zero, eq_comm, Option.bind_eq_some_iff] at hplace
  obtain ⟨p, hp, -⟩ := hplace
  exact ⟨p, hp⟩

/-- A name that is no nonterminal has no productions. -/
theorem prodAt?_eq_none {g : Grammar} {name : Name}
    (h : name ∉ g.nonterminals.map Nonterminal.name) (j : Nat) : g.prodAt? name j = none := by
  have hidx : g.nontermIdx? name = none := by
    rw [nontermIdx?, Option.map_eq_none_iff, List.findIdx?_eq_none_iff]
    intro nt hnt
    rw [beq_eq_false_iff_ne]
    rintro rfl
    exact h (List.mem_map_of_mem hnt)
  rw [prodAt?, hidx]
  rfl

/-! ## Trees by name -/

/-- The trees parse the word from the references: the token of that name for each token, and for
each rule one of its productions. -/
inductive Grows (g : Grammar) : List SymbolRef → ParseForest → List Name → Prop where
  | nil : Grows g [] .nil []
  | leaf {t : TermIdx} {name : Name} {refs : List SymbolRef} {rest : ParseForest} {w : List Name}
      (ht : g.termName? t = some name) (h : Grows g refs rest w) :
      Grows g (.token name :: refs) (.leaf t rest) (name :: w)
  | node {p : ProdIdx} {name : Name} {j : Nat} {refs body : List SymbolRef}
      {children rest : ParseForest} {u v : List Name} (hp : g.prodAt? name j = some p)
      (hbody : g.prodRefs? p = some body) (hchildren : Grows g body children u)
      (h : Grows g refs rest v) : Grows g (.rule name :: refs) (.node p children rest) (u ++ v)

/-- The trees of a rule with a single production are that production over the trees of its body. -/
theorem grows_single_iff {g : Grammar} {name : Name} {body : List SymbolRef}
    (hnamed : g.namedProds? name = some [body]) {f : ParseForest} {w : List Name} :
    g.Grows [.rule name] f w ↔ ∃ p children, g.prodAt? name 0 = some p ∧
      f = .node p children .nil ∧ g.Grows body children w := by
  have hplaces := getElem?_namedProds? hnamed
  constructor
  · intro h
    cases h with
    | @node p _ j _ body' children _ u _ hp hbody hchildren hrest =>
      cases hrest
      have hj := hplaces j
      rw [hp, Option.bind_some, hbody] at hj
      obtain ⟨hlt, hget⟩ := List.getElem?_eq_some_iff.mp hj
      obtain rfl : j = 0 := by simpa using hlt
      obtain rfl : body = body' := by simpa using hget
      rw [List.append_nil]
      exact ⟨p, children, hp, rfl, hchildren⟩
  · rintro ⟨p, children, hp, rfl, hchildren⟩
    have hbody := hplaces 0
    rw [hp, Option.bind_some, List.getElem?_cons_zero] at hbody
    have hgrows := Grows.node hp hbody.symm hchildren .nil
    rwa [List.append_nil] at hgrows

namespace Translates

variable {g : Grammar} {kind : Kind} {a : Description}

/-- A production of a user's rule stands where the user wrote it. -/
theorem exists_written (ht : g.Translates kind a) {name : Name} (hname : name ∈ a.ruleNames)
    {j : Nat} {p : ProdIdx} {body : List SymbolRef} (hp : g.prodAt? name j = some p)
    (hbody : g.prodRefs? p = some body) :
    ∃ r ∈ a.rules, r.name = name ∧ ∃ prod, r.productions[j]? = some prod := by
  obtain ⟨r, hr, rfl⟩ := List.mem_map.mp hname
  have hplace := getElem?_namedProds? (ht.user_prods r hr) j
  rw [hp, Option.bind_some, hbody, List.getElem?_map, Option.map_eq_some_iff] at hplace
  obtain ⟨prod, hj, -⟩ := hplace
  exact ⟨r, hr, rfl, prod, hj⟩

/-- Terminals are named after the end of the input and the tokens. -/
theorem termName?_eq (ht : g.Translates kind a) (t : TermIdx) :
    g.termName? t = ((a.syntheticNames kind).endName :: a.tokens)[t.val]? := by
  rw [termName?, terminal?, ← List.getElem?_map, ht.terminal_names]

/-- Terminals of one name are the same. -/
theorem termIdx_unique (ht : g.Translates kind a) (hnd : a.tokens.Nodup) {t t' : TermIdx}
    {name : Name} (h : g.termName? t = some name) (h' : g.termName? t' = some name) : t = t' := by
  rw [ht.termName?_eq] at h h'
  have hnames : ((a.syntheticNames kind).endName :: a.tokens).Nodup :=
    List.nodup_cons.mpr ⟨a.endName_notMem kind, hnd⟩
  have hlt := (List.getElem?_eq_some_iff.mp h).1
  exact congrArg TermIdx.mk ((List.getElem?_inj hlt hnames).mp (h.trans h'.symm))

/-- Trees of a grammar, read by names, grow in it. -/
theorem grows_of_parses (ht : g.Translates kind a) {symbols : List Symbol} {f : ParseForest}
    (h : g.Parses symbols f) {refs : List SymbolRef} (hrefs : symbols.mapM g.ref? = some refs)
    {w : List Name} (hw : f.yield.mapM g.termName? = some w) : g.Grows refs f w := by
  induction h generalizing refs w with
  | nil =>
    obtain rfl := List.forall₂_nil_left_iff.mp (mapM_eq_some_iff.mp hrefs)
    obtain rfl := List.forall₂_nil_left_iff.mp (mapM_eq_some_iff.mp hw)
    exact .nil
  | @leaf t symbols rest _ ih =>
    obtain ⟨ref, behind, href, hbehind, rfl⟩ :=
      List.forall₂_cons_left_iff.mp (mapM_eq_some_iff.mp hrefs)
    obtain ⟨name, v, hname, hv, rfl⟩ := List.forall₂_cons_left_iff.mp (mapM_eq_some_iff.mp hw)
    rw [ref?, symbolName?, hname] at href
    obtain rfl := Option.some.inj href
    exact .leaf hname (ih (mapM_eq_some_iff.mpr hbehind) (mapM_eq_some_iff.mpr hv))
  | @node i p symbols children rest hp _ _ ihchildren ih =>
    obtain ⟨ref, behind, href, hbehind, rfl⟩ :=
      List.forall₂_cons_left_iff.mp (mapM_eq_some_iff.mp hrefs)
    rw [ParseForest.yield, List.mapM_append] at hw
    simp only [Option.bind_eq_bind, Option.bind_eq_some_iff, Option.pure_def,
      Option.some.injEq] at hw
    obtain ⟨u, hu, v, hv, rfl⟩ := hw
    obtain ⟨name, body, hname, hbody, -⟩ := ht.exists_hasRule (List.mem_of_getElem? hp)
    rw [ref?, symbolName?, hname] at href
    obtain rfl := Option.some.inj href
    -- the production stands at some place of its rule
    have hrule : g.prodRule? i = some p.rule := by
      rw [prodRule?, hp]
      rfl
    obtain ⟨prods, hprods, -⟩ := (ht.prodRule?_iff i p.rule).mp hrule
    have hplace : g.place? i = some (name, prods.idxOf i) := by
      rw [place?, hrule, Option.bind_eq_bind, Option.bind_some, hname, Option.bind_eq_bind,
        Option.bind_some, hprods]
      rfl
    have hbody' : g.prodRefs? i = some body := by
      rw [prodRefs?, prodSymbols?, hp]
      exact hbody
    exact .node (ht.place?_eq_some_iff.mp hplace) hbody' (ihchildren hbody hu)
      (ih (mapM_eq_some_iff.mpr hbehind) hv)

/-- What grows by names are trees of the grammar. -/
theorem parses_of_grows (ht : g.Translates kind a) (hnd : a.tokens.Nodup)
    {refs : List SymbolRef} {f : ParseForest} {w : List Name} (h : g.Grows refs f w)
    {symbols : List Symbol} (hrefs : symbols.mapM g.ref? = some refs) :
    g.Parses symbols f ∧ f.yield.mapM g.termName? = some w := by
  induction h generalizing symbols with
  | nil =>
    obtain rfl := List.forall₂_nil_right_iff.mp (mapM_eq_some_iff.mp hrefs)
    exact ⟨.nil, rfl⟩
  | @leaf t name refs rest w hname _ ih =>
    obtain ⟨s, behind, hs, hbehind, rfl⟩ :=
      List.forall₂_cons_right_iff.mp (mapM_eq_some_iff.mp hrefs)
    obtain ⟨t', rfl, ht'⟩ := eq_terminal_of_ref? hs
    obtain ⟨hrest, hw⟩ := ih (mapM_eq_some_iff.mpr hbehind)
    obtain rfl : t' = t := ht.termIdx_unique hnd ht' hname
    refine ⟨.leaf hrest, ?_⟩
    rw [ParseForest.yield, List.mapM_cons, hname, hw]
    rfl
  | @node i name j refs body children rest u v hp hbody _ _ ihchildren ih =>
    obtain ⟨s, behind, hs, hbehind, rfl⟩ :=
      List.forall₂_cons_right_iff.mp (mapM_eq_some_iff.mp hrefs)
    obtain ⟨n, rfl, hn⟩ := eq_nonterminal_of_ref? hs
    obtain ⟨_, hsymbols, hbody⟩ := Option.bind_eq_some_iff.mp hbody
    obtain ⟨p, hprod, rfl⟩ := Option.map_eq_some_iff.mp hsymbols
    -- the rule of the production is the nonterminal of that name
    obtain rfl : p.rule = n := by
      obtain ⟨m, hm, prods, hprods, hj⟩ := prodAt?_eq_some_iff.mp hp
      have hrule := (ht.prodRule?_iff i m).mpr ⟨prods, hprods, List.mem_of_getElem? hj⟩
      rw [prodRule?, hprod, Option.map_some, Option.some.injEq] at hrule
      rw [hrule]
      exact ht.nontermIdx_unique (nontermName?_of_nontermIdx? hm) hn
    obtain ⟨hkids, hu⟩ := ihchildren hbody
    obtain ⟨hrest, hv⟩ := ih (mapM_eq_some_iff.mpr hbehind)
    refine ⟨.node hprod hkids hrest, ?_⟩
    rw [ParseForest.yield, List.mapM_append, hu, hv]
    rfl

/-- **The parse trees of a word, by name.** -/
theorem mem_parseTrees_iff (ht : g.Translates kind a) (hnd : a.tokens.Nodup) {f : ParseForest}
    {w : List Name} : f ∈ g.parseTrees w ↔ g.Grows [.rule (a.syntheticNames kind).start] f w := by
  constructor
  · rintro ⟨hf, hw⟩
    exact ht.grows_of_parses hf ht.mapM_ref?_startRule hw
  · intro h
    exact ht.parses_of_grows hnd h ht.mapM_ref?_startRule

end Translates

end Grammar

end YaccTables
