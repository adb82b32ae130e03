import YaccTables.Proofs.Building

/-!
# Lowered grammars are consistent

Whoever builds an automaton from a grammar looks productions, rules and symbols up by number and by
name and checks nothing. `Grammar.Consistent` lists what such a reader relies on: the tables agree
on which production belongs to which rule, every number that stands in a table is the number of
something, and names and numbers are inverse to each other.

`consistent_of_lower` says that every grammar that lowering gives is consistent, whether or not its
description was checked for problems before.
-/

namespace YaccTables

namespace Grammar

/-- The symbol has the number of a terminal or of a nonterminal of the grammar. -/
def HasSymbol (g : Grammar) : Symbol → Prop
  | .terminal i => i.val < g.terminals.length
  | .nonterminal i => i.val < g.nonterminals.length

/-- Every accessor answers exactly for the numbers in range. -/
structure AnswersInRange (g : Grammar) : Prop where
  termName : ∀ i, (g.termName? i).isSome ↔ i.val < g.terminals.length
  termPrec : ∀ i, (g.termPrec? i).isSome ↔ i.val < g.terminals.length
  nontermName : ∀ i, (g.nontermName? i).isSome ↔ i.val < g.nonterminals.length
  nontermProds : ∀ i, (g.nontermProds? i).isSome ↔ i.val < g.nonterminals.length
  prodSymbols : ∀ i, (g.prodSymbols? i).isSome ↔ i.val < g.productions.length
  prodPrec : ∀ i, (g.prodPrec? i).isSome ↔ i.val < g.productions.length
  prodRule : ∀ i, (g.prodRule? i).isSome ↔ i.val < g.productions.length
  prodRuleName : ∀ i, (g.prodRuleName? i).isSome ↔ i.val < g.productions.length
  prodText : ∀ i, (g.prodText? i).isSome ↔ i.val < g.productions.length
  symbolName : ∀ s, (g.symbolName? s).isSome ↔ g.HasSymbol s

/-- The tables of the grammar agree with each other. -/
structure Consistent (g : Grammar) : Prop where
  /-- A production belongs to the rule that lists it. -/
  prodRule?_iff : ∀ p n,
    g.prodRule? p = some n ↔ ∃ prods, g.nontermProds? n = some prods ∧ p ∈ prods
  /-- Exactly one rule lists it. -/
  owner_unique : ∀ p : ProdIdx, p.val < g.productions.length →
    ∃! n, ∃ prods, g.nontermProds? n = some prods ∧ p ∈ prods
  prods_ne_nil : ∀ n prods, g.nontermProds? n = some prods → prods ≠ []
  /-- The lists of all rules in order count the productions through. -/
  prods_in_order : (g.nontermIdxs.mapM g.nontermProds?).map List.flatten = some g.prodIdxs
  symbols : ∀ p symbols, g.prodSymbols? p = some symbols → ∀ s ∈ symbols, g.HasSymbol s
  startProd : g.nontermProds? g.startRule = some [g.startProd]
  endTerm_eq : g.endTerm = ⟨0⟩
  endTerm : g.HasSymbol (.terminal g.endTerm)
  implicitNonterm : ∀ n, g.implicitNonterm = some n → g.HasSymbol (.nonterminal n)
  termNames_nodup : (g.terminals.map Terminal.name).Nodup
  nontermNames_nodup : (g.nonterminals.map Nonterminal.name).Nodup
  termIdx?_iff : ∀ name i, g.termIdx? name = some i ↔ g.termName? i = some name
  nontermIdx?_iff : ∀ name i, g.nontermIdx? name = some i ↔ g.nontermName? i = some name
  answers : g.AnswersInRange

variable {g : Grammar}

/-! ## Numbers in range -/

theorem isSome_getElem?_map_iff {α β : Type} {f : α → β} {xs : List α} {i : Nat} :
    (xs[i]?.map f).isSome ↔ i < xs.length := by
  rw [Option.isSome_map, isSome_getElem?]

/-- A symbol has a name exactly if its index is in range. -/
theorem symbolName?_isSome_iff (s : Symbol) : (g.symbolName? s).isSome ↔ g.HasSymbol s := by
  cases s with
  | terminal i => exact isSome_getElem?_map_iff
  | nonterminal i => exact isSome_getElem?_map_iff

/-- Every production belongs to a nonterminal with a name. -/
theorem InRange.nontermName?_rule (h : g.InRange) {p : IndexedProduction}
    (hp : p ∈ g.productions) : ∃ name, g.nontermName? p.rule = some name := by
  obtain ⟨nt, hnt⟩ := Option.isSome_iff_exists.mp (h.rules p hp)
  exact ⟨nt.name, by rw [nontermName?, hnt, Option.map_some]⟩

/-- The accessors answer for the indices in range and for no others. -/
theorem InRange.answers (h : g.InRange) : g.AnswersInRange := by
  -- a production in range has a rule with a name, so that it can be written out
  have hname : ∀ i p, g.production? i = some p → ∃ name, g.nontermName? p.rule = some name :=
    fun i p hp => h.nontermName?_rule (List.mem_of_getElem? hp)
  have hnone : ∀ i, g.production? i = none ↔ ¬ i.val < g.productions.length := fun i => by
    rw [production?, List.getElem?_eq_none_iff, Nat.not_lt]
  have hsome : ∀ i p, g.production? i = some p → i.val < g.productions.length := fun i p hp =>
    (List.getElem?_eq_some_iff.mp hp).1
  constructor
  case termName => exact fun i => isSome_getElem?_map_iff
  case termPrec => exact fun i => isSome_getElem?_map_iff
  case nontermName => exact fun i => isSome_getElem?_map_iff
  case nontermProds => exact fun i => isSome_getElem?_map_iff
  case prodSymbols => exact fun i => isSome_getElem?_map_iff
  case prodPrec => exact fun i => isSome_getElem?_map_iff
  case prodRule => exact fun i => isSome_getElem?_map_iff
  case prodRuleName =>
    intro i
    unfold prodRuleName? prodRule?
    cases hp : g.production? i with
    | none => simpa using (hnone i).mp hp
    | some p =>
      obtain ⟨name, hrule⟩ := hname i p hp
      simpa [hrule] using hsome i p hp
  case prodText =>
    intro i
    unfold prodText?
    cases hp : g.production? i with
    | none => simpa using (hnone i).mp hp
    | some p =>
      obtain ⟨name, hrule⟩ := hname i p hp
      simpa [hrule] using hsome i p hp
  case symbolName => exact symbolName?_isSome_iff

/-! ## Rules and their productions -/

/-- The productions of all nonterminals, asked for one after the other. -/
theorem mapM_nontermProds? (g : Grammar) :
    g.nontermIdxs.mapM g.nontermProds? = some (g.nonterminals.map Nonterminal.prods) := by
  refine mapM_eq_some_iff.mpr (List.forall₂_iff_get.mpr ⟨?_, ?_⟩)
  · rw [nontermIdxs, List.length_map, List.length_map, List.length_range]
  · intro i hi hi'
    rw [List.length_map] at hi'
    simp only [nontermIdxs, List.get_eq_getElem, List.getElem_map, List.getElem_range]
    rw [nontermProds?, nonterminal?, List.getElem?_eq_getElem hi', Option.map_some]

namespace Translates

variable {kind : Kind} {a : Description}

/-- The start rule has one production, and the start production belongs to it. -/
theorem startRule_prods (ht : g.Translates kind a) (h : g.InRange) :
    g.nontermProds? g.startRule = some [g.startProd] := by
  have hrule : g.prodRule? g.startProd = some g.startRule := by
    obtain ⟨p, hp⟩ := Option.isSome_iff_exists.mp h.startProd
    rw [startRule, prodRule?, hp, Option.map_some, Option.getD_some]
  obtain ⟨prods, hprods, hmem⟩ := (ht.prodRule?_iff _ _).mp hrule
  -- read back, it has one production, so that it cannot list two
  have hnamed := ht.start_prods
  rw [namedProds?, ht.startRule_eq, Option.bind_eq_bind, Option.bind_some, hprods] at hnamed
  obtain ⟨p, rest, -, hrest, rfl⟩ := List.forall₂_cons_right_iff.mp (mapM_eq_some_iff.mp hnamed)
  obtain rfl := List.forall₂_nil_right_iff.mp hrest
  rw [hprods, List.mem_singleton.mp hmem]

end Translates

end Grammar

namespace Lowering

/-- No nonterminal is left without productions. -/
theorem bodies_ne_nil {sc : Scope} {name : Name} {found : List Body}
    (h : bodies sc name = .ok found) : found ≠ [] := by
  unfold bodies at h
  dsimp only at h
  -- whichever sort of rule it is, the last step is the same
  repeat' split at h
  all_goals exact (atLeastOne_eq_ok_iff.mp h).2

namespace Trace

variable {kind : Kind} {a : Description} {g : Grammar} (tr : Trace kind a g)

include tr in
/-- Every nonterminal of a lowered grammar has a production. -/
theorem prods_ne_nil {n : NontermIdx} {prods : List ProdIdx}
    (h : g.nontermProds? n = some prods) : prods ≠ [] := by
  obtain ⟨found, hg, rfl⟩ := tr.exists_group_of_nontermProds? h
  obtain ⟨name, -, hbodies⟩ := exists_mem_of_forall₂ tr.bodies_eq.flip (List.mem_of_getElem? hg)
  have hlen : found.length ≠ 0 := fun h0 =>
    bodies_ne_nil hbodies (List.length_eq_zero_iff.mp h0)
  rw [ne_eq, List.map_eq_nil_iff, List.range'_eq_nil_iff]
  exact hlen

include tr in
/-- Each production is listed by the rule that it belongs to, and by that one only. -/
theorem existsUnique_owner {p : ProdIdx} (hp : p.val < g.productions.length) :
    ∃! n, ∃ prods, g.nontermProds? n = some prods ∧ p ∈ prods := by
  have hrule : g.prodRule? p = some g.productions[p.val].rule := by
    rw [Grammar.prodRule?, Grammar.production?, List.getElem?_eq_getElem hp, Option.map_some]
  refine ⟨g.productions[p.val].rule, (tr.prodRule?_iff _ _).mp hrule, ?_⟩
  intro n hn
  have hown := (tr.prodRule?_iff p n).mpr hn
  rw [hrule] at hown
  exact (Option.some.inj hown).symm

include tr in
/-- A lowered grammar is consistent. -/
theorem consistent : g.Consistent := by
  have ht := tr.translates
  have hrange := tr.inRange
  have htnd : (g.terminals.map Terminal.name).Nodup := by
    rw [tr.terminal_names]
    exact tr.represents.terms_nodup
  constructor
  case prodRule?_iff => exact tr.prodRule?_iff
  case owner_unique => exact fun p => tr.existsUnique_owner
  case prods_ne_nil => exact fun n prods => tr.prods_ne_nil
  case prods_in_order =>
    rw [Grammar.mapM_nontermProds?, Option.map_some, ← List.flatMap_def, tr.prods_listed]
  case symbols =>
    intro p symbols hp s hs
    obtain ⟨q, hq, rfl⟩ := Option.map_eq_some_iff.mp hp
    exact (Grammar.symbolName?_isSome_iff s).mp (hrange.symbols q (List.mem_of_getElem? hq) s hs)
  case startProd => exact ht.startRule_prods hrange
  case endTerm_eq => exact tr.endTerm_eq
  case endTerm =>
    have hend := hrange.endTerm
    rw [Grammar.terminal?, isSome_getElem?] at hend
    exact hend
  case implicitNonterm =>
    intro n hn
    have himplicit := hrange.implicitNonterm n hn
    rw [Grammar.nonterminal?, isSome_getElem?] at himplicit
    exact himplicit
  case termNames_nodup => exact htnd
  case nontermNames_nodup => exact ht.names_nodup
  case termIdx?_iff => exact fun name i => Grammar.termIdx?_eq_some_iff htnd
  case nontermIdx?_iff => exact fun name i => Grammar.nontermIdx?_eq_some_iff ht.names_nodup
  case answers => exact hrange.answers

end Trace

end Lowering

namespace Grammar

/-- **Lowering gives a consistent grammar**, whether or not the description has problems. -/
theorem consistent_of_lower {kind : Kind} {a : Description} (h : a.lower kind = .ok g) :
    g.Consistent := by
  obtain ⟨tr⟩ := Lowering.exists_trace h
  exact tr.consistent

/-- Nothing that this description refers to is defined, and yet its grammar is consistent. -/
theorem consistent_undefinedMarkers : Description.undefinedMarkers.problems ≠ [] ∧
    ∃ g, Description.undefinedMarkers.lower .eco = .ok g ∧ g.Consistent := by
  obtain ⟨g, hg⟩ := (Description.undefinedMarkers.exists_lowerWith_iff Text.foldCase .eco).mpr
    (by decide)
  exact ⟨by decide, g, hg, consistent_of_lower hg⟩

end Grammar

end YaccTables
