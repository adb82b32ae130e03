import Mathlib.Data.Set.Function
import YaccTables.Proofs.ParseTrees
import YaccTables.Proofs.Weaving

/-!
# Weaving in implicit tokens introduces no ambiguity

If no production mentions an implicit token, the parse trees of a word in the `eco` grammar are in
bijection with the parse trees, in the `original` grammar, of the word without its implicit tokens.
The bijection is `Grammar.unweave`: it takes the implicit tokens out of a tree and puts the
`original` production in the place of each `eco` one.

`WovenPair.Matches` relates the trees of both grammars step by step. A token of an `eco` tree has
behind it a tree of the implicit rule, its *gap* (`WovenPair.IsGap`), which is determined by what
stands in the word: an implicit token or none. Since a token that is not implicit comes next, or
none at all (`Clear`), the word can be read off in one way only (`Matches.unique`).
-/

namespace YaccTables

/-! ## Taking implicit tokens out of a tree -/

/-- The trees without the tokens that are not kept. A production is replaced by its counterpart, and
one that has none gives way to the trees under it. -/
def ParseForest.prune (keep : TermIdx → Bool) (counterpart : ProdIdx → Option ProdIdx) :
    ParseForest → ParseForest
  | .nil => .nil
  | .leaf t rest =>
    if keep t then .leaf t (rest.prune keep counterpart) else rest.prune keep counterpart
  | .node p children rest =>
    match counterpart p with
    | some q => .node q (children.prune keep counterpart) (rest.prune keep counterpart)
    | none => (children.prune keep counterpart).append (rest.prune keep counterpart)

namespace Grammar

/-- The production of another grammar at the same place. -/
def counterpart? (g g' : Grammar) (p : ProdIdx) : Option ProdIdx :=
  (g.place? p).bind fun place => g'.prodAt? place.1 place.2

/-- The trees of a grammar without implicit tokens, as trees of another grammar that has none. -/
def unweave (g g' : Grammar) (implicit : List Name) : ParseForest → ParseForest :=
  ParseForest.prune (fun t => (g.termName? t).all fun name => !implicit.contains name)
    (g.counterpart? g')

section Unweave

variable {g g' : Grammar} {implicit : List Name} {t : TermIdx} {name : Name} {p q : ProdIdx}
  {children rest : ParseForest}

/-- A leaf of an implicit token is dropped. -/
theorem unweave_leaf_of_mem (ht : g.termName? t = some name) (h : name ∈ implicit) :
    g.unweave g' implicit (.leaf t rest) = g.unweave g' implicit rest := by
  rw [unweave, ParseForest.prune, ht]
  simp [h]

/-- A leaf of any other token is kept. -/
theorem unweave_leaf_of_notMem (ht : g.termName? t = some name) (h : name ∉ implicit) :
    g.unweave g' implicit (.leaf t rest) = .leaf t (g.unweave g' implicit rest) := by
  rw [unweave, ParseForest.prune, ht]
  simp [h]

/-- A node of a production of the user becomes one of its counterpart. -/
theorem unweave_node_of_some (h : g.counterpart? g' p = some q) :
    g.unweave g' implicit (.node p children rest)
      = .node q (g.unweave g' implicit children) (g.unweave g' implicit rest) := by
  rw [unweave, ParseForest.prune, h]

/-- A node of any other production gives way to what is below it. -/
theorem unweave_node_of_none (h : g.counterpart? g' p = none) :
    g.unweave g' implicit (.node p children rest)
      = (g.unweave g' implicit children).append (g.unweave g' implicit rest) := by
  rw [unweave, ParseForest.prune, h]

end Unweave

end Grammar

/-! ## Words in which implicit tokens stand only in gaps -/

/-- The word does not start with an implicit token. -/
def Clear (implicit w : List Name) : Prop := ∀ t ∈ w.head?, t ∉ implicit

theorem clear_nil (implicit : List Name) : Clear implicit [] := by simp [Clear]

theorem clear_cons {implicit : List Name} {t : Name} (h : t ∉ implicit) (w : List Name) :
    Clear implicit (t :: w) := by
  simpa [Clear] using h

/-- A gap in front of a clear word can be told from the word. -/
theorem gap_append_inj {implicit v v' : List Name} {gap gap' : Option Name}
    (hgap : ∀ i ∈ gap, i ∈ implicit) (hgap' : ∀ i ∈ gap', i ∈ implicit) (hv : Clear implicit v)
    (hv' : Clear implicit v') (h : gap.toList ++ v = gap'.toList ++ v') : gap = gap' ∧ v = v' := by
  cases gap with
  | none =>
    cases gap' with
    | none => exact ⟨rfl, h⟩
    | some i =>
      obtain rfl : v = i :: v' := h
      exact absurd (hgap' i rfl) (hv i rfl)
  | some i =>
    cases gap' with
    | none =>
      obtain rfl : i :: v = v' := h
      exact absurd (hgap i rfl) (hv' i rfl)
    | some i' =>
      obtain ⟨rfl, rfl⟩ := List.cons.inj h
      exact ⟨rfl, rfl⟩

/-- No implicit token is left of a gap. -/
theorem filter_gap {implicit : List Name} {gap : Option Name} (hgap : ∀ i ∈ gap, i ∈ implicit) :
    gap.toList.filter (· ∉ implicit) = [] := by
  rw [List.filter_eq_nil_iff]
  intro i hi
  simpa using hgap i (Option.mem_toList.mp hi)

/-- Without implicit tokens, spread tokens are what they were. -/
theorem Spread.filter_eq {implicit ts w : List Name} (h : Spread implicit ts w)
    (hts : ∀ t ∈ ts, t ∉ implicit) : w.filter (· ∉ implicit) = ts := by
  induction h with
  | nil => rfl
  | @cons t gap ts w hgap _ ih =>
    rw [List.forall_mem_cons] at hts
    rw [List.filter_cons_of_pos (by simpa using hts.1), List.filter_append, filter_gap hgap,
      List.nil_append, ih hts.2]

theorem Spread.refl (implicit ts : List Name) : Spread implicit ts ts := by
  induction ts with
  | nil => exact .nil
  | cons t ts ih => exact .cons t none (by simp) ih

theorem Interleaves.refl (implicit ts : List Name) : Interleaves implicit ts ts :=
  ⟨none, ts, by simp, Spread.refl implicit ts, rfl⟩

/-- Without implicit tokens, an interleaving is the word that it came from. -/
theorem Interleaves.filter_eq {implicit ts w : List Name} (h : Interleaves implicit ts w)
    (hts : ∀ t ∈ ts, t ∉ implicit) : w.filter (· ∉ implicit) = ts := by
  obtain ⟨first, rest, hfirst, hspread, rfl⟩ := h
  rw [List.filter_append, filter_gap hfirst, List.nil_append, hspread.filter_eq hts]

/-! ## Productions without implicit tokens -/

namespace Description

/-- No production mentions an implicit token. -/
def ImplicitUnmentioned (a : Description) : Prop :=
  ∀ r ∈ a.rules, ∀ p ∈ r.productions, ∀ t ∈ a.implicitTokens, SymbolRef.token t ∉ p.symbols

instance (a : Description) : Decidable a.ImplicitUnmentioned :=
  inferInstanceAs (Decidable (∀ r ∈ a.rules, ∀ p ∈ r.productions, ∀ t ∈ a.implicitTokens,
    SymbolRef.token t ∉ p.symbols))

/-- The references are to rules of the description and to tokens that are not implicit. -/
def Plain (a : Description) (refs : List SymbolRef) : Prop :=
  a.Refers refs ∧ ∀ t ∈ a.implicitTokens, SymbolRef.token t ∉ refs

variable {a : Description} {refs : List SymbolRef}

/-- Symbols behind the first are as plain as all. -/
theorem Plain.tail {ref : SymbolRef} (h : a.Plain (ref :: refs)) : a.Plain refs :=
  ⟨h.1.tail, fun t ht hmem => h.2 t ht (List.mem_cons_of_mem ref hmem)⟩

/-- A plain token is not implicit. -/
theorem Plain.token_notMem {name : Name} (h : a.Plain (.token name :: refs)) :
    name ∉ a.implicitTokens :=
  fun hmem => h.2 name hmem List.mem_cons_self

/-- The start rule is plain. -/
theorem Valid.plain_start (hv : a.Valid) : a.Plain [.rule a.start] :=
  ⟨hv.refers_start, by simp⟩

/-- Productions that mention no implicit tokens are plain. -/
theorem Plain.of_production (hv : a.Valid) (hu : a.ImplicitUnmentioned) {r : Rule}
    (hr : r ∈ a.rules) {p : Production} (hp : p ∈ r.productions) : a.Plain p.symbols :=
  ⟨hv.refers hr hp, hu r hr p hp⟩

/-- What the user's rules yield then has no implicit tokens. -/
theorem Plain.notMem_of_yields (hv : a.Valid) (hu : a.ImplicitUnmentioned) {ts : List Name}
    (h : Yields a.UserRule refs ts) (hrefs : a.Plain refs) : ∀ t ∈ ts, t ∉ a.implicitTokens := by
  induction h with
  | nil => simp
  | token _ ih => exact List.forall_mem_cons.mpr ⟨hrefs.token_notMem, ih hrefs.tail⟩
  | rule hrule _ _ ihbody ih =>
    obtain ⟨r, hr, rfl, p, hp, rfl⟩ := hrule
    exact List.forall_mem_append.mpr ⟨ihbody (.of_production hv hu hr hp), ih hrefs.tail⟩

end Description

/-! ## Both grammars of one description -/

/-- The `eco` and the `original` grammar of a description with implicit tokens that no production
mentions. -/
structure WovenPair (a : Description) (gE gO : Grammar) where
  woven : ImplicitNames
  woven_eq : (a.syntheticNames .eco).woven = some woven
  valid : a.Valid
  unmentioned : a.ImplicitUnmentioned
  eco : gE.Translates .eco a
  original : gO.Translates .original a

namespace WovenPair

variable {a : Description} {gE gO : Grammar} (π : WovenPair a gE gO)

/-- The references as they stand in the `eco` grammar. -/
def pad (refs : List SymbolRef) : List SymbolRef :=
  refs.flatMap (SymbolRef.padded [.rule π.woven.implicit])

include π in
/-- Nothing is woven into a grammar of the original kind. -/
theorem original_woven : (a.syntheticNames .original).woven = none := by
  rw [← Option.not_isSome_iff_eq_none, π.original.woven_iff]
  exact fun h => absurd h.1 (by decide)

include π in
/-- Both grammars name their terminals alike. -/
theorem termName?_eq (t : TermIdx) : gE.termName? t = gO.termName? t := by
  rw [π.eco.termName?_eq, π.original.termName?_eq]
  rfl

include π in
/-- The counterpart of a production has the same place in the rule of the same name. -/
theorem counterpart?_eq {name : Name} {j : Nat} {p : ProdIdx} (h : gE.prodAt? name j = some p) :
    gE.counterpart? gO p = gO.prodAt? name j := by
  rw [Grammar.counterpart?, π.eco.place?_eq_some_iff.mpr h]
  rfl

/-- The rules that weaving adds have no counterpart. -/
theorem counterpart?_woven {name : Name} {j : Nat} {p : ProdIdx}
    (hname : name = π.woven.implicit ∨ name = π.woven.implicitStart)
    (h : gE.prodAt? name j = some p) : gE.counterpart? gO p = none := by
  rw [π.counterpart?_eq h]
  refine Grammar.prodAt?_eq_none ?_ j
  have hnd := a.syntheticNames_nodup .eco π.valid.ruleNames_nodup
  simp only [SyntheticNames.nonterminals, π.woven_eq, List.cons_append, List.nil_append,
    List.nodup_cons, List.mem_cons, not_or] at hnd
  obtain ⟨⟨hstart, hstart', -⟩, ⟨-, himplicit⟩, hfirst, -⟩ := hnd
  -- the start rule is called the same in both grammars
  have hnames : name ∉ (a.syntheticNames .original).nonterminals ++ a.ruleNames := by
    rw [SyntheticNames.nonterminals, π.original_woven]
    have hsame : (a.syntheticNames .original).start = (a.syntheticNames .eco).start := rfl
    rcases hname with rfl | rfl
    · simp [hsame, Ne.symm hstart, himplicit]
    · simp [hsame, Ne.symm hstart', hfirst]
  exact fun hmem => hnames (π.original.nonterminal_names.mem_iff.mp hmem)

/-! ### Productions at the same place -/

/-- A production of the user, as it stands in both grammars. -/
structure SameProduction (name : Name) (p q : ProdIdx) (body : List SymbolRef) : Prop where
  counterpart : gE.counterpart? gO p = some q
  place : ∃ j, gE.prodAt? name j = some p ∧ gO.prodAt? name j = some q
  eco_refs : gE.prodRefs? p = some (π.pad body)
  original_refs : gO.prodRefs? q = some body
  plain : a.Plain body

/-- A production of the user stands at the same place in both grammars. -/
theorem sameProduction_at {r : Rule} (hr : r ∈ a.rules) {j : Nat} {prod : Production}
    (hj : r.productions[j]? = some prod) :
    ∃ p q, gE.prodAt? r.name j = some p ∧ gO.prodAt? r.name j = some q ∧
      π.SameProduction r.name p q prod.symbols := by
  -- both grammars list the productions of the rule in the user's order
  have hE := Grammar.getElem?_namedProds? (π.eco.user_prods r hr) j
  have hO := Grammar.getElem?_namedProds? (π.original.user_prods r hr) j
  rw [List.getElem?_map, hj, Option.map_some, eq_comm, Option.bind_eq_some_iff] at hE hO
  obtain ⟨p, hp, hprefs⟩ := hE
  obtain ⟨q, hq, hqrefs⟩ := hO
  rw [Grammar.Translates.padding_woven π.woven_eq] at hprefs
  rw [SyntheticNames.padding, π.original_woven, Grammar.Translates.padded_nil] at hqrefs
  exact ⟨p, q, hp, hq,
    { counterpart := (π.counterpart?_eq hp).trans hq
      place := ⟨j, hp, hq⟩
      eco_refs := hprefs
      original_refs := hqrefs
      plain := .of_production π.valid π.unmentioned hr (List.mem_of_getElem? hj) }⟩

/-- A production of the woven grammar has its counterpart. -/
theorem sameProduction_of_eco {name : Name} (hname : name ∈ a.ruleNames) {j : Nat} {p : ProdIdx}
    {body : List SymbolRef} (hp : gE.prodAt? name j = some p)
    (hbody : gE.prodRefs? p = some body) :
    ∃ q body', body = π.pad body' ∧ π.SameProduction name p q body' := by
  obtain ⟨r, hr, rfl, prod, hj⟩ := π.eco.exists_written hname hp hbody
  obtain ⟨p', q, hp', -, hsame⟩ := π.sameProduction_at hr hj
  obtain rfl := Option.some.inj (hp.symm.trans hp')
  exact ⟨q, prod.symbols, Option.some.inj (hbody.symm.trans hsame.eco_refs), hsame⟩

/-- A production of the plain grammar is the counterpart of one. -/
theorem sameProduction_of_original {name : Name} (hname : name ∈ a.ruleNames) {j : Nat}
    {q : ProdIdx} {body : List SymbolRef} (hq : gO.prodAt? name j = some q)
    (hbody : gO.prodRefs? q = some body) : ∃ p, π.SameProduction name p q body := by
  obtain ⟨r, hr, rfl, prod, hj⟩ := π.original.exists_written hname hq hbody
  obtain ⟨p, q', -, hq', hsame⟩ := π.sameProduction_at hr hj
  obtain rfl := Option.some.inj (hq.symm.trans hq')
  obtain rfl := Option.some.inj (hbody.symm.trans hsame.original_refs)
  exact ⟨p, hsame⟩

variable {π} in
/-- A production is the counterpart of one only. -/
theorem SameProduction.unique {name : Name} {p p' q : ProdIdx} {body body' : List SymbolRef}
    (h : π.SameProduction name p q body) (h' : π.SameProduction name p' q body') :
    p = p' ∧ body = body' := by
  obtain ⟨j, hp, hq⟩ := h.place
  obtain ⟨j', hp', hq'⟩ := h'.place
  -- the `original` production has one place, and there stands one `eco` production
  have hplace := (π.original.place?_eq_some_iff.mpr hq).symm.trans
    (π.original.place?_eq_some_iff.mpr hq')
  obtain rfl : j = j' := (Prod.mk.inj (Option.some.inj hplace)).2
  exact ⟨Option.some.inj (hp.symm.trans hp'),
    Option.some.inj (h.original_refs.symm.trans h'.original_refs)⟩

/-! ### Gaps -/

/-- A tree of the implicit rule, over the implicit token that it stands for or over nothing. -/
structure IsGap (p : ProdIdx) (children : ParseForest) (gap : Option Name) : Prop where
  place : ∃ j, gE.prodAt? π.woven.implicit j = some p
  refs : gE.prodRefs? p = some (gap.toList.map .token)
  grows : gE.Grows (gap.toList.map .token) children gap.toList
  implicit : ∀ i ∈ gap, i ∈ a.implicitTokens

/-- The implicit rule derives one implicit token or nothing. -/
theorem mem_implicit_prods {refs : List SymbolRef} :
    refs ∈ (a.implicitTokens.map fun t => [SymbolRef.token t]) ++ [[]] ↔
      ∃ gap : Option Name, (∀ i ∈ gap, i ∈ a.implicitTokens) ∧ refs = gap.toList.map .token := by
  simp only [List.mem_append, List.mem_map, List.mem_singleton]
  constructor
  · rintro (⟨t, ht, rfl⟩ | rfl)
    · exact ⟨some t, by simpa using ht, rfl⟩
    · exact ⟨none, by simp, rfl⟩
  · rintro ⟨gap, hgap, rfl⟩
    cases gap with
    | none => exact .inr rfl
    | some t => exact .inl ⟨t, hgap t rfl, rfl⟩

/-- A gap grows into its own word. -/
theorem word_of_tokens {g : Grammar} {gap : Option Name} {f : ParseForest} {w : List Name}
    (h : g.Grows (gap.toList.map .token) f w) : w = gap.toList := by
  cases gap with
  | none =>
    cases h
    rfl
  | some t =>
    cases h with
    | leaf _ hrest =>
      cases hrest
      rfl

/-- Whatever the implicit rule grows into is a gap. -/
theorem exists_isGap_of_grows {refs : List SymbolRef} {p : ProdIdx} {j : Nat}
    {children : ParseForest} {u : List Name} (hp : gE.prodAt? π.woven.implicit j = some p)
    (hrefs : gE.prodRefs? p = some refs) (h : gE.Grows refs children u) :
    ∃ gap, u = gap.toList ∧ π.IsGap p children gap := by
  have hE := Grammar.getElem?_namedProds? (π.eco.implicit_prods π.woven π.woven_eq) j
  rw [hp, Option.bind_some, hrefs] at hE
  obtain ⟨gap, hgap, rfl⟩ := mem_implicit_prods.mp (List.mem_of_getElem? hE)
  obtain rfl := word_of_tokens h
  exact ⟨gap, rfl, ⟨j, hp⟩, hrefs, h, hgap⟩

/-- Every gap has a tree. -/
theorem exists_isGap {gap : Option Name} (hgap : ∀ i ∈ gap, i ∈ a.implicitTokens) :
    ∃ p children, π.IsGap p children gap := by
  obtain ⟨j, hj⟩ := List.mem_iff_getElem?.mp (mem_implicit_prods.mpr ⟨gap, hgap, rfl⟩)
  rw [Grammar.getElem?_namedProds? (π.eco.implicit_prods π.woven π.woven_eq) j,
    Option.bind_eq_some_iff] at hj
  obtain ⟨p, hp, hrefs⟩ := hj
  have hgrows : ∃ children, gE.Grows (gap.toList.map .token) children gap.toList := by
    cases gap with
    | none => exact ⟨.nil, .nil⟩
    | some i =>
      -- an implicit token is a token, so it has a number
      have hmem : i ∈ (a.syntheticNames .eco).endName :: a.tokens :=
        List.mem_cons_of_mem _ (π.valid.implicit_mem i (hgap i rfl))
      obtain ⟨t, ht⟩ := List.mem_iff_getElem?.mp hmem
      exact ⟨.leaf ⟨t⟩ .nil, .leaf ((π.eco.termName?_eq ⟨t⟩).trans ht) .nil⟩
  obtain ⟨children, hchildren⟩ := hgrows
  exact ⟨p, children, ⟨j, hp⟩, hrefs, hchildren, hgap⟩

include π in
/-- No two productions of the implicit rule are alike. -/
theorem implicit_prods_nodup :
    ((a.implicitTokens.map fun t => [SymbolRef.token t]) ++ [[]]).Nodup := by
  have htokens : (a.implicitTokens.map fun t => [SymbolRef.token t]).Nodup := by
    refine π.valid.implicit_nodup.map ?_
    intro t t' h
    simpa using h
  refine htokens.append (List.nodup_singleton []) ?_
  simp

variable {π} in
/-- A gap has one tree. -/
theorem IsGap.unique {p p' : ProdIdx} {children children' : ParseForest} {gap : Option Name}
    (h : π.IsGap p children gap) (h' : π.IsGap p' children' gap) :
    p = p' ∧ children = children' := by
  obtain ⟨j, hp⟩ := h.place
  obtain ⟨j', hp'⟩ := h'.place
  constructor
  · -- the implicit rule has each of its productions once, since no implicit token is declared twice
    have hE := Grammar.getElem?_namedProds? (π.eco.implicit_prods π.woven π.woven_eq)
    have hj := hE j
    have hj' := hE j'
    rw [hp, Option.bind_some, h.refs] at hj
    rw [hp', Option.bind_some, h'.refs] at hj'
    have hlt := (List.getElem?_eq_some_iff.mp hj).1
    obtain rfl := (List.getElem?_inj hlt π.implicit_prods_nodup).mp (hj.trans hj'.symm)
    exact Option.some.inj (hp.symm.trans hp')
  · have hgrows := h.grows
    have hgrows' := h'.grows
    cases gap with
    | none =>
      cases hgrows
      cases hgrows'
      rfl
    | some i =>
      cases hgrows with
      | leaf ht hrest =>
        cases hgrows' with
        | leaf ht' hrest' =>
          cases hrest
          cases hrest'
          rw [π.eco.termIdx_unique π.valid.tokens_nodup ht ht']

variable {π} in
/-- A gap is unwoven into nothing. -/
theorem IsGap.unweave {p : ProdIdx} {children : ParseForest} {gap : Option Name}
    (h : π.IsGap p children gap) (rest : ParseForest) :
    gE.unweave gO a.implicitTokens (.node p children rest)
      = gE.unweave gO a.implicitTokens rest := by
  obtain ⟨j, hp⟩ := h.place
  rw [Grammar.unweave_node_of_none (π.counterpart?_woven (.inl rfl) hp)]
  have hgrows := h.grows
  cases gap with
  | none =>
    cases hgrows
    rfl
  | some i =>
    cases hgrows with
    | leaf ht hrest =>
      cases hrest
      rw [Grammar.unweave_leaf_of_mem ht (h.implicit i rfl)]
      rfl

/-! ### Trees that match -/

/-- The first trees parse the word in the `eco` grammar, the second ones parse it without its gaps
in the `original` grammar, and apart from the gaps they are the same. -/
inductive Matches : List SymbolRef → ParseForest → List Name → ParseForest → Prop where
  | nil : Matches [] .nil [] .nil
  | token {t : TermIdx} {name : Name} {p : ProdIdx} {children rest rest' : ParseForest}
      {gap : Option Name} {refs : List SymbolRef} {w : List Name}
      (hname : name ∉ a.implicitTokens) (ht : gE.termName? t = some name)
      (hgap : π.IsGap p children gap) (h : Matches refs rest w rest') :
      Matches (.token name :: refs) (.leaf t (.node p children rest))
        (name :: (gap.toList ++ w)) (.leaf t rest')
  | rule {name : Name} {p q : ProdIdx} {body refs : List SymbolRef}
      {children children' rest rest' : ParseForest} {u v : List Name}
      (hname : name ∈ a.ruleNames) (hsame : π.SameProduction name p q body)
      (hchildren : Matches body children u children') (h : Matches refs rest v rest') :
      Matches (.rule name :: refs) (.node p children rest) (u ++ v) (.node q children' rest')

namespace Matches

variable {π : WovenPair a gE gO} {refs : List SymbolRef} {f f' : ParseForest} {w : List Name}

/-- Trees that match something grow in the woven grammar. -/
theorem grows (h : π.Matches refs f w f') : gE.Grows (π.pad refs) f w := by
  induction h with
  | nil => exact .nil
  | token _ ht hgap _ ih =>
    obtain ⟨j, hp⟩ := hgap.place
    exact .leaf ht (.node hp hgap.refs hgap.grows ih)
  | rule _ hsame _ _ ihchildren ih =>
    obtain ⟨j, hp, -⟩ := hsame.place
    exact .node hp hsame.eco_refs ihchildren ih

/-- Trees that match something are unwoven into it. -/
theorem unweave_eq (h : π.Matches refs f w f') : gE.unweave gO a.implicitTokens f = f' := by
  induction h with
  | nil => rfl
  | token hname ht hgap _ ih => rw [Grammar.unweave_leaf_of_notMem ht hname, hgap.unweave, ih]
  | rule _ hsame _ _ ihchildren ih =>
    rw [Grammar.unweave_node_of_some hsame.counterpart, ihchildren, ih]

/-- What is matched grows in the plain grammar into the word without implicit tokens. -/
theorem grows_original (h : π.Matches refs f w f') :
    gO.Grows refs f' (w.filter (· ∉ a.implicitTokens)) := by
  induction h with
  | nil => exact .nil
  | @token t name p children rest rest' gap refs w hname ht hgap _ ih =>
    rw [List.filter_cons_of_pos (by simpa using hname), List.filter_append,
      filter_gap hgap.implicit, List.nil_append]
    exact .leaf ((π.termName?_eq t).symm.trans ht) ih
  | rule _ hsame _ _ ihchildren ih =>
    obtain ⟨j, -, hq⟩ := hsame.place
    rw [List.filter_append]
    exact .node hq hsame.original_refs ihchildren ih

/-- Behind a matched word, too, a word that starts with no implicit token gives one that does not. -/
theorem clear (h : π.Matches refs f w f') {v : List Name} (hv : Clear a.implicitTokens v) :
    Clear a.implicitTokens (w ++ v) := by
  induction h generalizing v with
  | nil => exact hv
  | token hname _ _ _ _ => exact clear_cons hname _
  | rule _ _ _ _ ihchildren ih =>
    rw [List.append_assoc]
    exact ihchildren (ih hv)

/-- **The gaps can be read off the word.** Trees that match the same trees and parse the same word,
up to what follows it, are the same. -/
theorem unique (h : π.Matches refs f w f') {g : ParseForest} {x v v' : List Name}
    (h' : π.Matches refs g x f') (hv : Clear a.implicitTokens v)
    (hv' : Clear a.implicitTokens v') (heq : w ++ v = x ++ v') : f = g ∧ w = x := by
  induction h generalizing g x v v' with
  | nil =>
    cases h'
    exact ⟨rfl, rfl⟩
  | @token t name p children rest rest' gap refs w _ _ hgap h ih =>
    cases h' with
    | @token _ _ p₂ children₂ rest₂ _ gap₂ _ w₂ _ _ hgap₂ h₂ =>
      -- what follows both gaps starts with no implicit token, so the gaps are the same
      have hrest : gap.toList ++ (w ++ v) = gap₂.toList ++ (w₂ ++ v') := by
        simpa using heq
      obtain ⟨rfl, htail⟩ := gap_append_inj hgap.implicit hgap₂.implicit (h.clear hv)
        (h₂.clear hv') hrest
      obtain ⟨rfl, rfl⟩ := hgap.unique hgap₂
      obtain ⟨rfl, rfl⟩ := ih h₂ hv hv' htail
      exact ⟨rfl, rfl⟩
  | @rule name p q body refs children children' rest rest' u w _ hsame hchildren h ihchildren ih =>
    cases h' with
    | @rule _ p₂ _ body₂ _ children₂ _ rest₂ _ u₂ w₂ _ hsame₂ hchildren₂ h₂ =>
      obtain ⟨rfl, rfl⟩ := hsame.unique hsame₂
      rw [List.append_assoc, List.append_assoc] at heq
      obtain ⟨rfl, rfl⟩ := ihchildren hchildren₂ (h.clear hv) (h₂.clear hv') heq
      obtain ⟨rfl, rfl⟩ := ih h₂ hv hv' (List.append_cancel_left heq)
      exact ⟨rfl, rfl⟩

end Matches

/-- **Every row of `eco` trees matches one of `original` trees.** A token and the implicit rule
behind it are two steps of growing, so the statement has a second half for references that the
implicit rule stands before. -/
theorem exists_matches_of_eco {symbols : List SymbolRef} {f : ParseForest} {w : List Name}
    (h : gE.Grows symbols f w) :
    (∀ refs, a.Plain refs → symbols = π.pad refs → ∃ f', π.Matches refs f w f') ∧
      ∀ refs, a.Plain refs → symbols = .rule π.woven.implicit :: π.pad refs →
        ∃ p children gap rest v f', f = .node p children rest ∧ w = gap.toList ++ v ∧
          π.IsGap p children gap ∧ π.Matches refs rest v f' := by
  induction h with
  | nil =>
    refine ⟨?_, ?_⟩
    · intro refs _ hsymbols
      cases refs with
      | nil => exact ⟨.nil, .nil⟩
      | cons ref refs => cases ref <;> simp [pad] at hsymbols
    · intro refs _ hsymbols
      simp at hsymbols
  | @leaf t name symbols rest w ht _ ih =>
    refine ⟨?_, ?_⟩
    · intro refs hrefs hsymbols
      cases refs with
      | nil => simp [pad] at hsymbols
      | cons ref refs =>
        cases ref with
        | rule n => simp [pad] at hsymbols
        | other code n => simp [pad] at hsymbols
        | token n =>
          simp only [pad, SymbolRef.padded_token, List.flatMap_cons, List.cons_append,
            List.nil_append, List.cons.injEq, SymbolRef.token.injEq] at hsymbols
          obtain ⟨rfl, hrest⟩ := hsymbols
          obtain ⟨p, children, gap, rest', v, f', rfl, rfl, hgap, hmatches⟩ :=
            ih.2 refs hrefs.tail hrest
          exact ⟨.leaf t f', .token hrefs.token_notMem ht hgap hmatches⟩
    · intro refs _ hsymbols
      simp at hsymbols
  | @node p name j symbols body children rest u v hp hbody hchildren _ ihchildren ih =>
    refine ⟨?_, ?_⟩
    · intro refs hrefs hsymbols
      cases refs with
      | nil => simp [pad] at hsymbols
      | cons ref refs =>
        cases ref with
        | token n => simp [pad] at hsymbols
        | other code n => simp [pad] at hsymbols
        | rule n =>
          simp only [pad, SymbolRef.padded_rule, List.flatMap_cons, List.cons_append,
            List.nil_append, List.cons.injEq, SymbolRef.rule.injEq] at hsymbols
          obtain ⟨rfl, hrest⟩ := hsymbols
          obtain ⟨q, body', rfl, hsame⟩ := π.sameProduction_of_eco hrefs.1.head hp hbody
          obtain ⟨children', hmatches⟩ := ihchildren.1 body' hsame.plain rfl
          obtain ⟨rest', hmatches'⟩ := ih.1 refs hrefs.tail hrest
          exact ⟨.node q children' rest', .rule hrefs.1.head hsame hmatches hmatches'⟩
    · intro refs hrefs hsymbols
      -- here the rule is the implicit one
      simp only [List.cons.injEq, SymbolRef.rule.injEq] at hsymbols
      obtain ⟨rfl, hrest⟩ := hsymbols
      obtain ⟨gap, rfl, hgap⟩ := π.exists_isGap_of_grows hp hbody hchildren
      obtain ⟨f', hmatches⟩ := ih.1 refs hrefs hrest
      exact ⟨p, children, gap, rest, v, f', rfl, rfl, hgap, hmatches⟩

/-- **Every row of `original` trees is matched over every spread of its word.** -/
theorem exists_matches_of_original {refs : List SymbolRef} {f' : ParseForest} {ts w : List Name}
    (h : gO.Grows refs f' ts) (hrefs : a.Plain refs) (hspread : Spread a.implicitTokens ts w) :
    ∃ f, π.Matches refs f w f' := by
  induction h generalizing w with
  | nil =>
    cases hspread
    exact ⟨.nil, .nil⟩
  | @leaf t name refs rest' ts ht _ ih =>
    cases hspread with
    | cons _ gap hgap hrest =>
      obtain ⟨rest, hmatches⟩ := ih hrefs.tail hrest
      obtain ⟨p, children, hisGap⟩ := π.exists_isGap hgap
      exact ⟨_, .token hrefs.token_notMem ((π.termName?_eq t).trans ht) hisGap hmatches⟩
  | @node q name j refs body children' rest' us vs hq hbody _ _ ihchildren ih =>
    obtain ⟨u, v, rfl, hu, hv⟩ := hspread.exists_of_append
    obtain ⟨p, hsame⟩ := π.sameProduction_of_original hrefs.1.head hq hbody
    obtain ⟨children, hmatches⟩ := ihchildren hsame.plain hu
    obtain ⟨rest, hmatches'⟩ := ih hrefs.tail hv
    exact ⟨_, .rule hrefs.1.head hsame hmatches hmatches'⟩

/-! ### Parse trees that match -/

/-- The same for the parse trees of a word. Above the user's start rule the `eco` grammar has one
node more, and a gap before the first token. -/
inductive TreeMatches : ParseForest → List Name → ParseForest → Prop where
  | intro {s i s' p : ProdIdx} {children rest rest' : ParseForest} {gap : Option Name}
      {v : List Name} (hs : gE.prodAt? (a.syntheticNames .eco).start 0 = some s)
      (hi : gE.prodAt? π.woven.implicitStart 0 = some i)
      (hs' : gO.prodAt? (a.syntheticNames .original).start 0 = some s')
      (hgap : π.IsGap p children gap) (h : π.Matches [.rule a.start] rest v rest') :
      TreeMatches (.node s (.node i (.node p children rest) .nil) .nil) (gap.toList ++ v)
        (.node s' rest' .nil)

/-- A parse tree of the woven grammar: an initial gap and what the start rule grows into. -/
theorem mem_eco_iff {f : ParseForest} {w : List Name} :
    f ∈ gE.parseTrees w ↔ ∃ s i body, gE.prodAt? (a.syntheticNames .eco).start 0 = some s ∧
      gE.prodAt? π.woven.implicitStart 0 = some i ∧ f = .node s (.node i body .nil) .nil ∧
      gE.Grows (.rule π.woven.implicit :: π.pad [.rule a.start]) body w := by
  have htarget : (a.syntheticNames .eco).target a.start = π.woven.implicitStart := by
    rw [SyntheticNames.target, π.woven_eq]
  have hstart := π.eco.start_prods
  rw [htarget] at hstart
  rw [π.eco.mem_parseTrees_iff π.valid.tokens_nodup, Grammar.grows_single_iff hstart]
  simp only [Grammar.grows_single_iff (π.eco.implicitStart_prods π.woven π.woven_eq)]
  constructor
  · rintro ⟨s, _, hs, rfl, i, body, hi, rfl, hbody⟩
    exact ⟨s, i, body, hs, hi, rfl, hbody⟩
  · rintro ⟨s, i, body, hs, hi, rfl, hbody⟩
    exact ⟨s, _, hs, rfl, i, body, hi, rfl, hbody⟩

include π in
/-- A parse tree of the plain grammar: what the start rule grows into. -/
theorem mem_original_iff {f : ParseForest} {w : List Name} :
    f ∈ gO.parseTrees w ↔ ∃ s body, gO.prodAt? (a.syntheticNames .original).start 0 = some s ∧
      f = .node s body .nil ∧ gO.Grows [.rule a.start] body w := by
  have htarget : (a.syntheticNames .original).target a.start = a.start := by
    rw [SyntheticNames.target, π.original_woven]
  have hstart := π.original.start_prods
  rw [htarget] at hstart
  rw [π.original.mem_parseTrees_iff π.valid.tokens_nodup, Grammar.grows_single_iff hstart]

/-- Every tree of the woven grammar matches one of the plain grammar. -/
theorem exists_treeMatches_of_eco {f : ParseForest} {w : List Name} (h : f ∈ gE.parseTrees w) :
    ∃ f', π.TreeMatches f w f' := by
  obtain ⟨s, i, body, hs, hi, rfl, hbody⟩ := π.mem_eco_iff.mp h
  obtain ⟨p, children, gap, rest, v, rest', rfl, rfl, hgap, hmatches⟩ :=
    (π.exists_matches_of_eco hbody).2 [.rule a.start] π.valid.plain_start rfl
  obtain ⟨s', hs'⟩ := Grammar.exists_prodAt?_zero π.original.start_prods
  exact ⟨_, .intro hs hi hs' hgap hmatches⟩

/-- Every tree of the plain grammar is matched by one for each interleaving. -/
theorem exists_treeMatches_of_original {f' : ParseForest} {ts w : List Name}
    (h : f' ∈ gO.parseTrees ts) (hw : Interleaves a.implicitTokens ts w) :
    ∃ f, π.TreeMatches f w f' := by
  obtain ⟨s', body, hs', rfl, hbody⟩ := π.mem_original_iff.mp h
  obtain ⟨gap, v, hgap, hspread, rfl⟩ := hw
  obtain ⟨rest, hmatches⟩ := π.exists_matches_of_original hbody π.valid.plain_start hspread
  obtain ⟨p, children, hisGap⟩ := π.exists_isGap hgap
  obtain ⟨s, hs⟩ := Grammar.exists_prodAt?_zero π.eco.start_prods
  obtain ⟨i, hi⟩ :=
    Grammar.exists_prodAt?_zero (π.eco.implicitStart_prods π.woven π.woven_eq)
  exact ⟨_, .intro hs hi hs' hisGap hmatches⟩

namespace TreeMatches

variable {π : WovenPair a gE gO} {f f' : ParseForest} {w : List Name}

/-- A tree that matches is one of the woven grammar. -/
theorem mem_eco (h : π.TreeMatches f w f') : f ∈ gE.parseTrees w := by
  cases h with
  | intro hs hi _ hgap h =>
    obtain ⟨j, hp⟩ := hgap.place
    exact π.mem_eco_iff.mpr ⟨_, _, _, hs, hi, rfl, .node hp hgap.refs hgap.grows h.grows⟩

/-- A tree that is matched is one of the plain grammar. -/
theorem mem_original (h : π.TreeMatches f w f') :
    f' ∈ gO.parseTrees (w.filter (· ∉ a.implicitTokens)) := by
  cases h with
  | @intro _ _ _ _ _ _ _ gap _ _ _ hs' hgap h =>
    rw [List.filter_append, filter_gap hgap.implicit, List.nil_append]
    exact π.mem_original_iff.mpr ⟨_, _, hs', rfl, h.grows_original⟩

/-- A tree that matches is unwoven into the one that is matched. -/
theorem unweave_eq (h : π.TreeMatches f w f') : gE.unweave gO a.implicitTokens f = f' := by
  cases h with
  | intro hs hi hs' hgap h =>
    -- the start rule is called the same in both grammars
    have hstart := (π.counterpart?_eq hs).trans hs'
    rw [Grammar.unweave_node_of_some hstart,
      Grammar.unweave_node_of_none (π.counterpart?_woven (.inr rfl) hi), hgap.unweave,
      h.unweave_eq]
    exact congrArg (fun body => ParseForest.node _ body .nil) (ParseForest.append_nil _)

/-- A tree is matched by one tree for each word. -/
theorem unique (h : π.TreeMatches f w f') {g : ParseForest} (h' : π.TreeMatches g w f') :
    f = g := by
  cases h with
  | @intro s i _ p children rest _ gap v hs hi _ hgap h =>
    generalize hw : gap.toList ++ v = w at h'
    cases h' with
    | @intro s₂ i₂ _ p₂ children₂ rest₂ _ gap₂ v₂ hs₂ hi₂ _ hgap₂ h₂ =>
      obtain rfl := Option.some.inj (hs.symm.trans hs₂)
      obtain rfl := Option.some.inj (hi.symm.trans hi₂)
      have hclear := h.clear (clear_nil a.implicitTokens)
      have hclear₂ := h₂.clear (clear_nil a.implicitTokens)
      rw [List.append_nil] at hclear hclear₂
      obtain ⟨rfl, rfl⟩ := gap_append_inj hgap.implicit hgap₂.implicit hclear hclear₂ hw
      obtain ⟨rfl, rfl⟩ := hgap.unique hgap₂
      obtain ⟨rfl, -⟩ := h.unique h₂ (clear_nil _) (clear_nil _) rfl
      rfl

end TreeMatches

/-! ### The bijection -/

include π in
/-- A word of the `eco` grammar is its other tokens with implicit tokens interleaved. -/
theorem interleaves_filter {w : List Name} (hw : w ∈ gE.language) :
    Interleaves a.implicitTokens (w.filter (· ∉ a.implicitTokens)) w := by
  obtain ⟨ts, hts, hinterleaves⟩ := (π.eco.mem_language_woven_iff π.valid π.woven_eq w).mp hw
  have hclear := π.valid.plain_start.notMem_of_yields π.valid π.unmentioned hts
  rw [hinterleaves.filter_eq hclear]
  exact hinterleaves

include π in
/-- Unweaving the trees of a word is one to one, and reaches all. -/
theorem unweave_bijOn {w : List Name} (hw : w ∈ gE.language) :
    Set.BijOn (gE.unweave gO a.implicitTokens) (gE.parseTrees w)
      (gO.parseTrees (w.filter (· ∉ a.implicitTokens))) := by
  refine ⟨?_, ?_, ?_⟩
  · intro f hf
    obtain ⟨f', hmatches⟩ := π.exists_treeMatches_of_eco hf
    rw [hmatches.unweave_eq]
    exact hmatches.mem_original
  · intro f hf g hg heq
    obtain ⟨f', hmatches⟩ := π.exists_treeMatches_of_eco hf
    obtain ⟨g', hmatches'⟩ := π.exists_treeMatches_of_eco hg
    rw [hmatches.unweave_eq, hmatches'.unweave_eq] at heq
    subst heq
    exact hmatches.unique hmatches'
  · intro f' hf'
    obtain ⟨f, hmatches⟩ := π.exists_treeMatches_of_original hf' (π.interleaves_filter hw)
    exact ⟨f, hmatches.mem_eco, hmatches.unweave_eq⟩

include π in
/-- One grammar is ambiguous exactly if the other is. -/
theorem unambiguous_iff : gE.Unambiguous ↔ gO.Unambiguous := by
  constructor
  · intro hE ts f' hf' g' hg'
    -- a word of the `original` grammar is one of the `eco` grammar as well, with all gaps empty
    obtain ⟨f, hf⟩ := π.exists_treeMatches_of_original hf' (.refl a.implicitTokens ts)
    obtain ⟨g, hg⟩ := π.exists_treeMatches_of_original hg' (.refl a.implicitTokens ts)
    rw [← hf.unweave_eq, ← hg.unweave_eq, hE ts hf.mem_eco hg.mem_eco]
  · intro hO w f hf g hg
    have hbij := π.unweave_bijOn (Grammar.parseTrees_nonempty_iff.mp ⟨f, hf⟩)
    exact hbij.injOn hf hg (hO _ (hbij.mapsTo hf) (hbij.mapsTo hg))

end WovenPair

/-! ## The grammars of one description -/

/-- A description with two implicit tokens that no production mentions. Its rules are called like
the markers that lowering would use; one is ambiguous, one derives itself, and one has no words. -/
def Description.ambiguousMarkers : Description :=
  { start := utf8 "^"
    rules :=
      [⟨utf8 "^", [⟨[.rule (utf8 "^"), .token (utf8 "+"), .rule (utf8 "^")], []⟩,
        ⟨[.rule (utf8 "~")], []⟩, ⟨[.rule (utf8 "^~")], []⟩]⟩,
       ⟨utf8 "~", [⟨[.rule (utf8 "~")], []⟩, ⟨[.token (utf8 "x")], []⟩, ⟨[], []⟩]⟩,
       ⟨utf8 "^~", [⟨[.token (utf8 "x"), .rule (utf8 "^~")], []⟩]⟩]
    tokens := [utf8 "x", utf8 "ws", utf8 "+", utf8 "nl"]
    implicitTokens := [utf8 "nl", utf8 "ws"] }

namespace Grammar

/-- A description with unmentioned implicit tokens gives a pair of grammars. -/
theorem exists_wovenPair {kind : Kind} {a : Description} {g : Grammar}
    (h : ofDescription kind a = .ok g) (himplicit : a.implicitTokens ≠ [])
    (hunmentioned : a.ImplicitUnmentioned) :
    ∃ gE gO, ofDescription .eco a = .ok gE ∧ ofDescription .original a = .ok gO ∧
      Nonempty (WovenPair a gE gO) := by
  have haccepted := (exists_ofDescription_iff kind a).mp ⟨g, h⟩
  obtain ⟨gE, hE⟩ := (exists_ofDescription_iff .eco a).mpr haccepted
  obtain ⟨gO, hO⟩ := (exists_ofDescription_iff .original a).mpr haccepted
  have htE := translates_of_lowerWith (ofDescription_eq_ok_iff.mp hE).2
  have htO := translates_of_lowerWith (ofDescription_eq_ok_iff.mp hO).2
  obtain ⟨woven, hw⟩ := Option.isSome_iff_exists.mp (htE.woven_iff.mpr ⟨rfl, himplicit⟩)
  exact ⟨gE, gO, hE, hO, ⟨⟨woven, hw, haccepted.1, hunmentioned, htE, htO⟩⟩⟩

/-- **Weaving in implicit tokens introduces no ambiguity.** If no production mentions an implicit
token, taking the implicit tokens out of a tree is a bijection between the parse trees of a word in
the `eco` grammar and those, in the `original` grammar, of the word without its implicit tokens. So
one grammar is unambiguous exactly if the other is. -/
theorem eco_parseTrees_bijOn {kind : Kind} {a : Description} {g : Grammar}
    (h : ofDescription kind a = .ok g) (himplicit : a.implicitTokens ≠ [])
    (hunmentioned : a.ImplicitUnmentioned) :
    ∃ gE gO, ofDescription .eco a = .ok gE ∧ ofDescription .original a = .ok gO ∧
      (∀ w ∈ gE.language, Set.BijOn (gE.unweave gO a.implicitTokens) (gE.parseTrees w)
        (gO.parseTrees (w.filter (· ∉ a.implicitTokens)))) ∧
      (gE.Unambiguous ↔ gO.Unambiguous) := by
  obtain ⟨gE, gO, hE, hO, ⟨π⟩⟩ := exists_wovenPair h himplicit hunmentioned
  exact ⟨gE, gO, hE, hO, fun w hw => π.unweave_bijOn hw, π.unambiguous_iff⟩

/-- Its rules yield the sum of `x` and nothing. -/
theorem ambiguousMarkers_yields :
    Yields Description.ambiguousMarkers.UserRule [.rule (utf8 "^")] [utf8 "x", utf8 "+"] := by
  have hx : Yields Description.ambiguousMarkers.UserRule [.rule (utf8 "^")] [utf8 "x"] :=
    Yields.rule_iff.mpr ⟨[.rule (utf8 "~")], by decide,
      Yields.rule_iff.mpr ⟨[.token (utf8 "x")], by decide, .token .nil⟩⟩
  have hnothing : Yields Description.ambiguousMarkers.UserRule [.rule (utf8 "^")] [] :=
    Yields.rule_iff.mpr ⟨[.rule (utf8 "~")], by decide,
      Yields.rule_iff.mpr ⟨[], by decide, .nil⟩⟩
  exact Yields.rule_iff.mpr ⟨[.rule (utf8 "^"), .token (utf8 "+"), .rule (utf8 "^")], by decide,
    hx.append (.token hnothing)⟩

theorem eco_parseTrees_ambiguousMarkers :
    Description.ambiguousMarkers.implicitTokens ≠ [] ∧
    Description.ambiguousMarkers.ImplicitUnmentioned ∧
    ∃ gE gO, ofDescription .eco .ambiguousMarkers = .ok gE ∧
      ofDescription .original .ambiguousMarkers = .ok gO ∧
      [utf8 "nl", utf8 "x", utf8 "ws", utf8 "+"] ∈ gE.language ∧
      Set.BijOn (gE.unweave gO Description.ambiguousMarkers.implicitTokens)
        (gE.parseTrees [utf8 "nl", utf8 "x", utf8 "ws", utf8 "+"])
        (gO.parseTrees [utf8 "x", utf8 "+"]) ∧
      (gE.Unambiguous ↔ gO.Unambiguous) := by
  have hvalid := (Description.problems_eq_nil_iff .ambiguousMarkers).mp (by decide)
  obtain ⟨g, hg⟩ := (exists_ofDescription_iff .original .ambiguousMarkers).mpr
    ⟨hvalid, by decide⟩
  obtain ⟨gE, gO, hE, hO, hbij, hiff⟩ := eco_parseTrees_bijOn hg (by decide) (by decide)
  have ht := translates_of_lowerWith (ofDescription_eq_ok_iff.mp hE).2
  obtain ⟨woven, hw⟩ := Option.isSome_iff_exists.mp (ht.woven_iff.mpr ⟨rfl, by decide⟩)
  have hmem : [utf8 "nl", utf8 "x", utf8 "ws", utf8 "+"] ∈ gE.language := by
    refine (ht.mem_language_woven_iff hvalid hw _).mpr ⟨_, ambiguousMarkers_yields, ?_⟩
    exact ⟨some (utf8 "nl"), _, by decide,
      .cons _ (some (utf8 "ws")) (by decide) (.cons _ none (by decide) .nil), rfl⟩
  exact ⟨by decide, by decide, gE, gO, hE, hO, hmem, hbij _ hmem, hiff⟩

end Grammar

end YaccTables
