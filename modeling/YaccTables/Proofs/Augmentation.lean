import YaccTables.Proofs.Consistency
import YaccTables.Proofs.Weaving
import YaccTables.Proofs.ParseTrees

/-!
# Where the synthetic symbols of a grammar stand

An LR automaton is built from an augmented grammar: nothing may derive the start rule, and no
production may hold the terminal that ends the input. Lowering resolves references through tables
that hold the user's names and the synthetic ones side by side, so both rest on the synthetic names
being fresh and on the user's references being to names that the user defined.

* `AugmentedRule` classifies the productions of a lowered grammar, by name: one constructor for
  each way in which lowering makes one (`Translates.augmentedRule`);
* for each synthetic name there is a lemma on the places where it stands in such a production;
* `Grammar.ProperlyAugmented` says the same of the numbered symbols.
-/

namespace YaccTables

/-! ## Places in a user's production -/

/-- Padding adds itself, and only to a production with a token. -/
theorem Production.mem_padded_iff {pad : List SymbolRef} {p : Production} {ref : SymbolRef} :
    ref ∈ p.padded pad ↔ ref ∈ p.symbols ∨ ref ∈ pad ∧ ∃ t, SymbolRef.token t ∈ p.symbols := by
  have hone : ∀ x : SymbolRef, ref ∈ x.padded pad ↔ ref = x ∨ ref ∈ pad ∧ ∃ t, x = .token t := by
    intro x
    cases x with
    | rule name => simp
    | token name => simp
    | other code name => simp
  rw [Production.padded, List.mem_flatMap]
  simp only [hone]
  constructor
  · rintro ⟨x, hx, rfl | ⟨hpad, t, rfl⟩⟩
    · exact .inl hx
    · exact .inr ⟨hpad, t, hx⟩
  · rintro (href | ⟨hpad, t, ht⟩)
    · exact ⟨ref, href, .inl rfl⟩
    · exact ⟨.token t, ht, .inr ⟨hpad, t, rfl⟩⟩

/-- References that do not mention the padding have it behind their tokens and nowhere else. -/
theorem flatMap_padded_place {implicit : Name} {refs : List SymbolRef}
    (h : SymbolRef.rule implicit ∉ refs) :
    (refs.flatMap (SymbolRef.padded [.rule implicit]))[0]? ≠ some (.rule implicit) ∧
      ∀ j, (refs.flatMap (SymbolRef.padded [.rule implicit]))[j + 1]? = some (.rule implicit) ↔
        ∃ t, (refs.flatMap (SymbolRef.padded [.rule implicit]))[j]? = some (.token t) := by
  induction refs with
  | nil => simp
  | cons ref refs ih =>
    obtain ⟨hne, hrest⟩ := not_or.mp (fun hmem => h (List.mem_cons.mpr hmem))
    obtain ⟨hfirst, hnext⟩ := ih hrest
    rw [List.flatMap_cons]
    cases ref with
    | rule name =>
      refine ⟨by simpa using Ne.symm hne, ?_⟩
      intro j
      cases j with
      | zero => simpa using hfirst
      | succ j => simpa using hnext j
    | token name =>
      -- the token and the padding behind it are two places
      refine ⟨by simp, ?_⟩
      intro j
      rcases j with - | - | j
      · simp
      · simpa using hfirst
      · simpa using hnext j
    | other code name =>
      refine ⟨by simp, ?_⟩
      intro j
      cases j with
      | zero => simpa using hfirst
      | succ j => simpa using hnext j

/-! ## The productions of an augmented grammar -/

/-- A production that lowering makes of a description, by name. -/
inductive AugmentedRule (kind : Kind) (a : Description) : Name → List SymbolRef → Prop where
  | start : AugmentedRule kind a (a.syntheticNames kind).start
      [.rule ((a.syntheticNames kind).target a.start)]
  | implicitStart {woven : ImplicitNames} (hw : (a.syntheticNames kind).woven = some woven) :
      AugmentedRule kind a woven.implicitStart [.rule woven.implicit, .rule a.start]
  | implicit {woven : ImplicitNames} {t : Name} (hw : (a.syntheticNames kind).woven = some woven)
      (ht : t ∈ a.implicitTokens) : AugmentedRule kind a woven.implicit [.token t]
  | nothing {woven : ImplicitNames} (hw : (a.syntheticNames kind).woven = some woven) :
      AugmentedRule kind a woven.implicit []
  | user {r : Rule} {p : Production} (hr : r ∈ a.rules) (hp : p ∈ r.productions) :
      AugmentedRule kind a r.name (p.padded (a.syntheticNames kind).padding)

namespace Description

variable {kind : Kind} {a : Description} {woven : ImplicitNames}

/-- No rule of the user has the name of a synthetic nonterminal. -/
theorem Valid.notMem_ruleNames (hv : a.Valid) {name : Name}
    (h : name ∈ (a.syntheticNames kind).nonterminals) : name ∉ a.ruleNames :=
  List.disjoint_of_nodup_append (a.syntheticNames_nodup kind hv.ruleNames_nodup) h

theorem Valid.start_notMem (hv : a.Valid) : (a.syntheticNames kind).start ∉ a.ruleNames :=
  hv.notMem_ruleNames List.mem_cons_self

theorem Valid.implicit_notMem (hv : a.Valid) (hw : (a.syntheticNames kind).woven = some woven) :
    woven.implicit ∉ a.ruleNames := by
  have h : woven.implicit ∈ (a.syntheticNames kind).nonterminals := by
    simp [SyntheticNames.nonterminals, hw]
  exact hv.notMem_ruleNames h

theorem Valid.implicitStart_notMem (hv : a.Valid)
    (hw : (a.syntheticNames kind).woven = some woven) : woven.implicitStart ∉ a.ruleNames := by
  have h : woven.implicitStart ∈ (a.syntheticNames kind).nonterminals := by
    simp [SyntheticNames.nonterminals, hw]
  exact hv.notMem_ruleNames h

/-- The synthetic nonterminals have different names. -/
theorem Valid.woven_ne (hv : a.Valid) (hw : (a.syntheticNames kind).woven = some woven) :
    woven.implicit ≠ (a.syntheticNames kind).start ∧
      woven.implicitStart ≠ (a.syntheticNames kind).start ∧
      woven.implicit ≠ woven.implicitStart :=
  SyntheticNames.woven_ne (a.syntheticNames_nodup kind hv.ruleNames_nodup).of_append_left hw

end Description

namespace AugmentedRule

variable {kind : Kind} {a : Description} {woven : ImplicitNames} {name : Name}
  {refs : List SymbolRef} {j : Nat}

/-- A rule that a user's production refers to after lowering is the user's or the padding. -/
theorem rule_mem_padded (hv : a.Valid) {r : Rule} (hr : r ∈ a.rules) {p : Production}
    (hp : p ∈ r.productions) {n : Name}
    (h : SymbolRef.rule n ∈ p.padded (a.syntheticNames kind).padding) :
    n ∈ a.ruleNames ∨ ∃ woven, (a.syntheticNames kind).woven = some woven ∧ n = woven.implicit := by
  rcases Production.mem_padded_iff.mp h with hmem | ⟨hpad, -⟩
  · exact .inl (hv.rule_mem r hr p hp n hmem)
  · right
    unfold SyntheticNames.padding at hpad
    cases hw : (a.syntheticNames kind).woven with
    | none => simp [hw] at hpad
    | some woven =>
      rw [hw, List.mem_singleton, SymbolRef.rule.injEq] at hpad
      exact ⟨woven, rfl, hpad⟩

/-- No rule refers to the start rule. -/
theorem start_notMem (hv : a.Valid) (h : AugmentedRule kind a name refs) :
    SymbolRef.rule (a.syntheticNames kind).start ∉ refs := by
  have huser : (a.syntheticNames kind).start ∉ a.ruleNames := hv.start_notMem
  have hne : (a.syntheticNames kind).start ≠ a.start := fun heq => huser (heq ▸ hv.start_mem)
  cases h with
  | start =>
    -- the user's start rule or, with implicit tokens woven in, the rule before it
    unfold SyntheticNames.target
    cases hw : (a.syntheticNames kind).woven with
    | none => simpa using hne
    | some woven => simpa using Ne.symm (hv.woven_ne hw).2.1
  | implicitStart hw => simpa [hne] using Ne.symm (hv.woven_ne hw).1
  | implicit _ _ => simp
  | nothing _ => simp
  | user hr hp =>
    intro hmem
    rcases rule_mem_padded hv hr hp hmem with hname | ⟨woven, hw, heq⟩
    · exact huser hname
    · exact (hv.woven_ne hw).1 heq.symm

/-- No rule refers to the end of the input. -/
theorem endName_notMem (hv : a.Valid) (h : AugmentedRule kind a name refs) :
    SymbolRef.token (a.syntheticNames kind).endName ∉ refs := by
  have hfresh := a.endName_notMem kind
  cases h with
  | start => simp
  | implicitStart _ => simp
  | @implicit woven t _ ht =>
    have hne : (a.syntheticNames kind).endName ≠ t := fun heq =>
      hfresh (heq ▸ hv.implicit_mem t ht)
    simpa using hne
  | nothing _ => simp
  | @user r p hr hp =>
    intro hmem
    rcases Production.mem_padded_iff.mp hmem with htoken | ⟨hpad, -⟩
    · exact hfresh (hv.token_mem r hr p hp _ htoken)
    · unfold SyntheticNames.padding at hpad
      split at hpad <;> simp at hpad

/-- The rule that puts implicit tokens first stands in one place. -/
theorem implicitStart_place (hv : a.Valid) (hw : (a.syntheticNames kind).woven = some woven)
    (h : AugmentedRule kind a name refs) :
    refs[j]? = some (.rule woven.implicitStart) ↔
      name = (a.syntheticNames kind).start ∧ j = 0 := by
  obtain ⟨hstart, hfirst, hne⟩ := hv.woven_ne hw
  have huser := hv.implicitStart_notMem hw
  cases h with
  | start =>
    have htarget : (a.syntheticNames kind).target a.start = woven.implicitStart := by
      rw [SyntheticNames.target, hw]
    rw [htarget]
    cases j with
    | zero => simp
    | succ j => simp
  | implicitStart hw' =>
    obtain rfl := Option.some.inj (hw.symm.trans hw')
    have hustart : a.start ≠ woven.implicitStart := fun heq => huser (heq ▸ hv.start_mem)
    rcases j with - | - | j
    · simp [hfirst, hne]
    · simp [hustart]
    · simp
  | implicit hw' ht =>
    obtain rfl := Option.some.inj (hw.symm.trans hw')
    cases j with
    | zero => simp [hstart]
    | succ j => simp
  | nothing hw' =>
    obtain rfl := Option.some.inj (hw.symm.trans hw')
    simp [hstart]
  | @user r p hr hp =>
    have hname : r.name ∈ a.ruleNames := List.mem_map_of_mem hr
    have hother : r.name ≠ (a.syntheticNames kind).start := fun heq =>
      hv.start_notMem (heq ▸ hname)
    refine ⟨fun hk => ?_, fun hk => absurd hk.1 hother⟩
    rcases rule_mem_padded hv hr hp (List.mem_of_getElem? hk) with hmem | ⟨woven', hw', heq⟩
    · exact absurd hmem huser
    · obtain rfl := Option.some.inj (hw.symm.trans hw')
      exact absurd heq.symm hne

/-- The implicit rule stands behind each token of the user's and before the user's start rule. -/
theorem implicit_place (hv : a.Valid) (hw : (a.syntheticNames kind).woven = some woven)
    (h : AugmentedRule kind a name refs) :
    refs[j]? = some (.rule woven.implicit) ↔
      (name ∈ a.ruleNames ∧ ∃ i t, j = i + 1 ∧ refs[i]? = some (.token t)) ∨
        name = woven.implicitStart ∧ j = 0 := by
  obtain ⟨hstart, hfirst, hne⟩ := hv.woven_ne hw
  have huser := hv.implicit_notMem hw
  cases h with
  | start =>
    have htarget : (a.syntheticNames kind).target a.start = woven.implicitStart := by
      rw [SyntheticNames.target, hw]
    rw [htarget]
    have hname : (a.syntheticNames kind).start ∉ a.ruleNames := hv.start_notMem
    cases j with
    | zero => simp [hname, Ne.symm hfirst, Ne.symm hne]
    | succ j => simp [hname, Ne.symm hfirst]
  | implicitStart hw' =>
    obtain rfl := Option.some.inj (hw.symm.trans hw')
    have hname := hv.implicitStart_notMem hw
    have hustart : a.start ≠ woven.implicit := fun heq => huser (heq ▸ hv.start_mem)
    rcases j with - | - | j
    · simp
    · simp [hname, hustart]
    · simp [hname]
  | implicit hw' ht =>
    obtain rfl := Option.some.inj (hw.symm.trans hw')
    cases j with
    | zero => simp [huser, hne]
    | succ j => simp [huser, hne]
  | nothing hw' =>
    obtain rfl := Option.some.inj (hw.symm.trans hw')
    simp [huser, hne]
  | @user r p hr hp =>
    have hname : r.name ∈ a.ruleNames := List.mem_map_of_mem hr
    have hother : r.name ≠ woven.implicitStart := fun heq =>
      hv.implicitStart_notMem hw (heq ▸ hname)
    have hnot : SymbolRef.rule woven.implicit ∉ p.symbols := fun hmem =>
      huser (hv.rule_mem r hr p hp _ hmem)
    obtain ⟨hzero, hsucc⟩ := flatMap_padded_place hnot
    rw [Grammar.Translates.padding_woven hw, Production.padded]
    cases j with
    | zero => simpa [hname, hother] using hzero
    | succ j => simpa [hname, hother] using hsucc j

end AugmentedRule

/-! ## Places of numbered symbols -/

namespace Grammar

/-- The symbol stands at a place of a production. -/
def StandsAt (g : Grammar) (s : Symbol) (p : ProdIdx) (j : Nat) : Prop :=
  ∃ symbols, g.prodSymbols? p = some symbols ∧ symbols[j]? = some s

/-- The production belongs to a rule of the description. -/
def IsUserProd (g : Grammar) (a : Description) (p : ProdIdx) : Prop :=
  ∃ name ∈ a.ruleNames, g.prodRuleName? p = some name

/-- The synthetic symbols stand only where the augmentation of the description puts them. -/
structure ProperlyAugmented (g : Grammar) (kind : Kind) (a : Description) : Prop where
  start : ∀ p j, ¬ g.StandsAt (.nonterminal g.startRule) p j
  endTerm : ∀ p j, ¬ g.StandsAt (.terminal g.endTerm) p j
  /-- Without implicit tokens to weave in, no further symbol is added. -/
  plain : (a.syntheticNames kind).woven = none → g.implicitNonterm = none
  /-- With them, the rule `first` that puts one before the user's start rule stands in the start
  production, and the rule `gap` that derives them behind each terminal of a user's production and
  as the first symbol of the production of `first`. -/
  woven : ∀ names, (a.syntheticNames kind).woven = some names → ∃ first gap,
    g.nontermIdx? names.implicitStart = some first ∧ g.implicitNonterm = some gap ∧
      (∀ p j, g.StandsAt (.nonterminal first) p j ↔ p = g.startProd ∧ j = 0) ∧
      ∀ p j, g.StandsAt (.nonterminal gap) p j ↔
        (g.IsUserProd a p ∧ ∃ i t, j = i + 1 ∧ g.StandsAt (.terminal t) p i) ∨
          g.prodRule? p = some first ∧ j = 0

/-! ### Productions read back -/

/-- The production belongs to the rule of a name and reads back as these references. -/
def ReadsAs (g : Grammar) (p : ProdIdx) (name : Name) (refs : List SymbolRef) : Prop :=
  g.prodRuleName? p = some name ∧ g.prodRefs? p = some refs

/-- A symbol that stands in a production has a name, which stands at the same place. -/
theorem ReadsAs.exists_ref {g : Grammar} {p : ProdIdx} {name : Name} {refs : List SymbolRef}
    (h : g.ReadsAs p name refs) {s : Symbol} {j : Nat} (hs : g.StandsAt s p j) :
    ∃ ref, g.ref? s = some ref ∧ refs[j]? = some ref := by
  obtain ⟨symbols, hsymbols, hj⟩ := hs
  have hrefs := h.2
  rw [prodRefs?, hsymbols] at hrefs
  obtain ⟨ref, -, href⟩ := exists_mem_of_forall₂ (mapM_eq_some_iff.mp hrefs)
    (List.mem_of_getElem? hj)
  refine ⟨ref, href, ?_⟩
  rw [getElem?_of_mapM_eq_some hrefs j, hj, Option.bind_some, href]

/-- A reference that a production reads back as stands there as a symbol. -/
theorem ReadsAs.exists_standsAt {g : Grammar} {p : ProdIdx} {name : Name} {refs : List SymbolRef}
    (h : g.ReadsAs p name refs) {ref : SymbolRef} {j : Nat} (hj : refs[j]? = some ref) :
    ∃ s, g.ref? s = some ref ∧ g.StandsAt s p j := by
  obtain ⟨symbols, hsymbols, hrefs⟩ := Option.bind_eq_some_iff.mp h.2
  rw [getElem?_of_mapM_eq_some hrefs j] at hj
  obtain ⟨s, hs, href⟩ := Option.bind_eq_some_iff.mp hj
  exact ⟨s, href, symbols, hsymbols, hs⟩

namespace Translates

variable {g : Grammar} {kind : Kind} {a : Description}

/-- What a translation derives in one step is a rule of the augmented grammar. -/
theorem augmentedRule (ht : g.Translates kind a) {name : Name} {refs : List SymbolRef}
    (h : g.HasRule name refs) : AugmentedRule kind a name refs := by
  obtain ⟨named, hnamed, hmem⟩ := h
  have hrule : g.HasRule name refs := ⟨named, hnamed, hmem⟩
  obtain ⟨i, hi, -⟩ := Option.bind_eq_some_iff.mp hnamed
  have hname : name ∈ g.nonterminals.map Nonterminal.name := by
    obtain ⟨nt, hnt, rfl⟩ := Option.map_eq_some_iff.mp (nontermName?_of_nontermIdx? hi)
    exact List.mem_map_of_mem (List.mem_of_getElem? hnt)
  rcases List.mem_append.mp (ht.nonterminal_names.mem_iff.mp hname) with hsyn | huser
  · rcases List.mem_cons.mp hsyn with rfl | hsyn
    · rw [hasRule_iff ht.start_prods, List.mem_singleton] at hrule
      exact hrule ▸ .start
    · cases hw : (a.syntheticNames kind).woven with
      | none => simp [hw] at hsyn
      | some woven =>
        simp only [hw, List.mem_cons, List.not_mem_nil, or_false] at hsyn
        rcases hsyn with rfl | rfl
        · rw [hasRule_iff (ht.implicit_prods woven hw), List.mem_append, List.mem_map,
            List.mem_singleton] at hrule
          rcases hrule with ⟨t, htoken, rfl⟩ | rfl
          · exact .implicit hw htoken
          · exact .nothing hw
        · rw [hasRule_iff (ht.implicitStart_prods woven hw), List.mem_singleton] at hrule
          exact hrule ▸ .implicitStart hw
  · obtain ⟨r, hr, rfl, p, hp, rfl⟩ := (ht.hasRule_user_iff huser).mp hrule
    exact .user hr hp

/-- Different symbols read back as different references. -/
theorem ref?_inj (ht : g.Translates kind a) (hv : a.Valid) {s s' : Symbol} {ref : SymbolRef}
    (h : g.ref? s = some ref) (h' : g.ref? s' = some ref) : s = s' := by
  cases ref with
  | token name =>
    obtain ⟨t, rfl, hname⟩ := eq_terminal_of_ref? h
    obtain ⟨t', rfl, hname'⟩ := eq_terminal_of_ref? h'
    rw [ht.termIdx_unique hv.tokens_nodup hname hname']
  | rule name =>
    obtain ⟨n, rfl, hname⟩ := eq_nonterminal_of_ref? h
    obtain ⟨n', rfl, hname'⟩ := eq_nonterminal_of_ref? h'
    rw [ht.nontermIdx_unique hname hname']
  | other code name => cases s <;> simp [ref?, Symbol.isTerminal] at h

/-- Every production reads back. -/
theorem exists_readsAs (ht : g.Translates kind a) {p : ProdIdx} {q : IndexedProduction}
    (hq : g.production? p = some q) : ∃ name refs, g.ReadsAs p name refs := by
  obtain ⟨name, refs, hname, hrefs, -⟩ := ht.exists_hasRule (List.mem_of_getElem? hq)
  refine ⟨name, refs, ?_, ?_⟩
  · rw [prodRuleName?, prodRule?, hq, Option.map_some, Option.bind_some, hname]
  · rw [prodRefs?, prodSymbols?, hq]
    exact hrefs

/-- A production reads back under the name of its nonterminal. -/
theorem exists_readsAs_of_name (ht : g.Translates kind a) {p : ProdIdx} {name : Name}
    (h : g.prodRuleName? p = some name) : ∃ refs, g.ReadsAs p name refs := by
  obtain ⟨n, hn, -⟩ := Option.bind_eq_some_iff.mp h
  obtain ⟨q, hq, -⟩ := Option.map_eq_some_iff.mp hn
  obtain ⟨name', refs, hname, hrefs⟩ := ht.exists_readsAs hq
  exact ⟨refs, h, hrefs⟩

/-- What a production reads back as is a rule of the augmented grammar. -/
theorem augmentedRule_of_readsAs (ht : g.Translates kind a) {p : ProdIdx} {name : Name}
    {refs : List SymbolRef} (h : g.ReadsAs p name refs) : AugmentedRule kind a name refs := by
  obtain ⟨hname, hrefs⟩ := h
  obtain ⟨n, hn, hname⟩ := Option.bind_eq_some_iff.mp hname
  obtain ⟨q, hq, rfl⟩ := Option.map_eq_some_iff.mp hn
  obtain ⟨name', refs', hname', hrefs', hrule⟩ := ht.exists_hasRule (List.mem_of_getElem? hq)
  obtain rfl := Option.some.inj (hname.symm.trans hname')
  rw [prodRefs?, prodSymbols?, hq] at hrefs
  obtain rfl := Option.some.inj (hrefs.symm.trans hrefs')
  exact ht.augmentedRule hrule

/-- **A symbol stands where its name stands.** -/
theorem standsAt_iff (ht : g.Translates kind a) (hv : a.Valid) {s : Symbol} {ref : SymbolRef}
    (hs : g.ref? s = some ref) {p : ProdIdx} {j : Nat} :
    g.StandsAt s p j ↔ ∃ name refs, g.ReadsAs p name refs ∧ refs[j]? = some ref := by
  constructor
  · intro hstands
    obtain ⟨symbols, hsymbols, -⟩ := id hstands
    obtain ⟨q, hq, -⟩ := Option.map_eq_some_iff.mp hsymbols
    obtain ⟨name, refs, hread⟩ := ht.exists_readsAs hq
    obtain ⟨ref', href, hj⟩ := hread.exists_ref hstands
    obtain rfl := Option.some.inj (hs.symm.trans href)
    exact ⟨name, refs, hread, hj⟩
  · rintro ⟨name, refs, hread, hj⟩
    obtain ⟨s', href, hstands⟩ := hread.exists_standsAt hj
    rwa [ht.ref?_inj hv hs href]

/-- A nonterminal that is found by name reads back as this name. -/
theorem ref?_nonterminal {name : Name} {n : NontermIdx} (h : g.nontermIdx? name = some n) :
    g.ref? (.nonterminal n) = some (.rule name) := by
  rw [ref?, symbolName?, nontermName?_of_nontermIdx? h]
  rfl

/-- A production belongs to a nonterminal exactly if it does by name. -/
theorem prodRuleName?_iff (ht : g.Translates kind a) {name : Name} {n : NontermIdx}
    (h : g.nontermIdx? name = some n) {p : ProdIdx} :
    g.prodRuleName? p = some name ↔ g.prodRule? p = some n := by
  rw [prodRuleName?, Option.bind_eq_some_iff]
  constructor
  · rintro ⟨m, hm, hname⟩
    rw [hm, ht.nontermIdx_unique hname (nontermName?_of_nontermIdx? h)]
  · intro hn
    exact ⟨n, hn, nontermName?_of_nontermIdx? h⟩

/-- The start rule has one production. -/
theorem prodRule?_startRule_iff (hc : g.Consistent) {p : ProdIdx} :
    g.prodRule? p = some g.startRule ↔ p = g.startProd := by
  rw [hc.prodRule?_iff, hc.startProd]
  simp

/-! ### The synthetic symbols one by one -/

section Places

variable {names : ImplicitNames} {first gap : NontermIdx}

/-- The start rule stands in no production. -/
theorem not_standsAt_start (ht : g.Translates kind a) (hv : a.Valid) (p : ProdIdx) (j : Nat) :
    ¬ g.StandsAt (.nonterminal g.startRule) p j := by
  rw [ht.standsAt_iff hv (ref?_nonterminal ht.startRule_eq)]
  rintro ⟨name, refs, hread, hj⟩
  exact (ht.augmentedRule_of_readsAs hread).start_notMem hv (List.mem_of_getElem? hj)

/-- The end of the input stands in no production. -/
theorem not_standsAt_end (ht : g.Translates kind a) (hv : a.Valid) (hend : g.endTerm = ⟨0⟩)
    (p : ProdIdx) (j : Nat) : ¬ g.StandsAt (.terminal g.endTerm) p j := by
  have href : g.ref? (.terminal g.endTerm) = some (.token (a.syntheticNames kind).endName) := by
    rw [ref?, symbolName?, ht.termName?_eq, hend]
    rfl
  rw [ht.standsAt_iff hv href]
  rintro ⟨name, refs, hread, hj⟩
  exact (ht.augmentedRule_of_readsAs hread).endName_notMem hv (List.mem_of_getElem? hj)

/-- The rule that lets implicit tokens come first stands in the start production alone. -/
theorem standsAt_implicitStart_iff (ht : g.Translates kind a) (hv : a.Valid) (hc : g.Consistent)
    (hw : (a.syntheticNames kind).woven = some names)
    (hfirst : g.nontermIdx? names.implicitStart = some first) (p : ProdIdx) (j : Nat) :
    g.StandsAt (.nonterminal first) p j ↔ p = g.startProd ∧ j = 0 := by
  rw [ht.standsAt_iff hv (ref?_nonterminal hfirst), ← prodRule?_startRule_iff hc,
    ← ht.prodRuleName?_iff ht.startRule_eq]
  constructor
  · rintro ⟨name, refs, hread, hj⟩
    obtain ⟨rfl, rfl⟩ := ((ht.augmentedRule_of_readsAs hread).implicitStart_place hv hw).mp hj
    exact ⟨hread.1, rfl⟩
  · rintro ⟨hname, rfl⟩
    obtain ⟨refs, hread⟩ := ht.exists_readsAs_of_name hname
    have hplace := (ht.augmentedRule_of_readsAs hread).implicitStart_place (j := 0) hv hw
    exact ⟨_, refs, hread, hplace.mpr ⟨rfl, rfl⟩⟩

/-- The implicit rule stands behind the tokens of the user's productions and before the start, and
nowhere else. -/
theorem standsAt_implicit_iff (ht : g.Translates kind a) (hv : a.Valid)
    (hw : (a.syntheticNames kind).woven = some names)
    (hfirst : g.nontermIdx? names.implicitStart = some first)
    (hgap : g.nontermIdx? names.implicit = some gap) (p : ProdIdx) (j : Nat) :
    g.StandsAt (.nonterminal gap) p j ↔
      (g.IsUserProd a p ∧ ∃ i t, j = i + 1 ∧ g.StandsAt (.terminal t) p i) ∨
        g.prodRule? p = some first ∧ j = 0 := by
  rw [ht.standsAt_iff hv (ref?_nonterminal hgap), ← ht.prodRuleName?_iff hfirst]
  constructor
  · rintro ⟨name, refs, hread, hj⟩
    rcases ((ht.augmentedRule_of_readsAs hread).implicit_place hv hw).mp hj with
      ⟨hname, i, t, rfl, hi⟩ | ⟨rfl, rfl⟩
    · obtain ⟨s, hs, hstands⟩ := hread.exists_standsAt hi
      obtain ⟨t, rfl, -⟩ := eq_terminal_of_ref? hs
      exact .inl ⟨⟨name, hname, hread.1⟩, i, t, rfl, hstands⟩
    · exact .inr ⟨hread.1, rfl⟩
  · rintro (⟨⟨name, hname, hrule⟩, i, t, rfl, hstands⟩ | ⟨hrule, rfl⟩)
    · obtain ⟨refs, hread⟩ := ht.exists_readsAs_of_name hrule
      obtain ⟨ref, href, hi⟩ := hread.exists_ref hstands
      obtain ⟨t', -, rfl⟩ := Option.map_eq_some_iff.mp href
      have hplace := (ht.augmentedRule_of_readsAs hread).implicit_place (j := i + 1) hv hw
      exact ⟨name, refs, hread, hplace.mpr (.inl ⟨hname, i, t', rfl, hi⟩)⟩
    · obtain ⟨refs, hread⟩ := ht.exists_readsAs_of_name hrule
      have hplace := (ht.augmentedRule_of_readsAs hread).implicit_place (j := 0) hv hw
      exact ⟨_, refs, hread, hplace.mpr (.inr ⟨rfl, rfl⟩)⟩

end Places

/-- A translation of a valid description is properly augmented. -/
theorem properlyAugmented (ht : g.Translates kind a) (hv : a.Valid) (hc : g.Consistent) :
    g.ProperlyAugmented kind a := by
  constructor
  case start => exact ht.not_standsAt_start hv
  case endTerm => exact ht.not_standsAt_end hv hc.endTerm_eq
  case plain =>
    intro hw
    rw [ht.implicitNonterm_eq, hw, Option.bind_none]
  case woven =>
    intro names hw
    obtain ⟨first, hfirst, -⟩ := Option.bind_eq_some_iff.mp (ht.implicitStart_prods names hw)
    obtain ⟨gap, hgap, -⟩ := Option.bind_eq_some_iff.mp (ht.implicit_prods names hw)
    refine ⟨first, gap, hfirst, ?_, ?_, ?_⟩
    · rw [ht.implicitNonterm_eq, hw, Option.bind_some, hgap]
    · exact ht.standsAt_implicitStart_iff hv hc hw hfirst
    · exact ht.standsAt_implicit_iff hv hw hfirst hgap

end Translates

/-- **The grammar of a description is properly augmented**, whatever its rules and tokens are
called: the start rule and the end of the input stand in no production, and implicit tokens are
woven in behind the user's tokens and before the user's start rule, and nowhere else. -/
theorem properlyAugmented_of_ofDescription {kind : Kind} {a : Description} {g : Grammar}
    (h : ofDescription kind a = .ok g) : g.ProperlyAugmented kind a := by
  obtain ⟨hv, hlower⟩ := ofDescription_eq_ok_iff.mp h
  obtain ⟨tr⟩ := Lowering.exists_trace hlower
  exact tr.translates.properlyAugmented hv tr.consistent

theorem properlyAugmented_markerNames :
    ∃ g, ofDescription .eco .markerNames = .ok g ∧ g.ProperlyAugmented .eco .markerNames := by
  obtain ⟨g, hg⟩ := markerNames_accepted .eco
  exact ⟨g, hg, properlyAugmented_of_ofDescription hg⟩

end Grammar

end YaccTables
