import YaccTables.Proofs.Derivation
import YaccTables.Proofs.Parsing

/-!
# How building a grammar can end

Lowering fails in many ways, but not on a description that came out of grammar text and has no
problems: reading makes no reference of an unknown kind, and validity rules out the rest. So a
source ends as a grammar, as an error of reading, or as a list of problems, and on the way nothing
is looked up out of range: tokens lie within the text (`Scan.WellScanned`), and all indices of a
grammar within its tables (`Grammar.InRange`).
-/

namespace YaccTables

namespace Grammar

/-- Every index that the grammar holds is the index of something. -/
structure InRange (g : Grammar) : Prop where
  startProd : (g.production? g.startProd).isSome
  endTerm : (g.terminal? g.endTerm).isSome
  implicitNonterm : ∀ n, g.implicitNonterm = some n → (g.nonterminal? n).isSome
  prods : ∀ nt ∈ g.nonterminals, ∀ p ∈ nt.prods, (g.production? p).isSome
  rules : ∀ p ∈ g.productions, (g.nonterminal? p.rule).isSome
  symbols : ∀ p ∈ g.productions, ∀ s ∈ p.symbols, (g.symbolName? s).isSome

end Grammar

namespace Lowering.Trace

variable {kind : Kind} {a : Description} {g : Grammar} (tr : Trace kind a g)

include tr in
/-- The end of the input is a terminal. -/
theorem endTerm_isSome : (g.terminal? g.endTerm).isSome := by
  have hname := tr.termName?_eq ⟨0⟩
  rw [tr.represents.terms_eq] at hname
  rw [tr.endTerm_eq, ← Option.isSome_map (f := Terminal.name), ← Grammar.termName?, hname]
  rfl

include tr in
/-- The implicit rule is a nonterminal. -/
theorem implicitNonterm_isSome {n : NontermIdx} (h : g.implicitNonterm = some n) :
    (g.nonterminal? n).isSome := by
  rw [tr.implicitNonterm_eq] at h
  obtain ⟨woven, hw, rfl⟩ := Option.map_eq_some_iff.mp h
  rw [← Option.isSome_map (f := Nonterminal.name), ← Grammar.nontermName?, tr.nontermName?_eq,
    tr.nonterms_number (tr.represents.implicit_mem hw)]
  rfl

include tr in
/-- No index of a lowered grammar leads astray. -/
theorem inRange : g.InRange := by
  have ht := tr.translates
  constructor
  case startProd =>
    rw [← Option.isSome_map (f := IndexedProduction.rule), ← Grammar.prodRule?, tr.startProd_rule]
    rfl
  case endTerm => exact tr.endTerm_isSome
  case implicitNonterm => exact fun n => tr.implicitNonterm_isSome
  case prods =>
    intro nt hnt p hp
    -- what the nonterminals list are the indices of the productions, each once
    have hmem : p ∈ g.prodIdxs := by
      rw [← ht.prods_listed]
      exact List.mem_flatMap.mpr ⟨nt, hnt, hp⟩
    obtain ⟨i, hi, rfl⟩ := List.mem_map.mp hmem
    rw [Grammar.production?, List.getElem?_eq_getElem (List.mem_range.mp hi)]
    rfl
  case rules =>
    intro p hp
    obtain ⟨name, -, hname, -, -⟩ := ht.exists_hasRule hp
    rw [← Option.isSome_map (f := Nonterminal.name), ← Grammar.nontermName?, hname]
    rfl
  case symbols =>
    intro p hp s hs
    obtain ⟨-, refs, -, hrefs, -⟩ := ht.exists_hasRule hp
    obtain ⟨ref, -, href⟩ := exists_mem_of_forall₂ (mapM_eq_some_iff.mp hrefs) hs
    rw [Grammar.ref?] at href
    rw [← Option.isSome_map, href]
    rfl

end Lowering.Trace

namespace Grammar

/-- No index of a grammar leads astray. -/
theorem inRange_of_ofDescription {kind : Kind} {a : Description} {g : Grammar}
    (h : ofDescription kind a = .ok g) : g.InRange := by
  obtain ⟨tr⟩ := Lowering.exists_trace (ofDescription_eq_ok_iff.mp h).2
  exact tr.inRange

/-- Problems are reported instead of a grammar. -/
theorem ofDescription_eq_invalid {kind : Kind} {a : Description} (h : a.problems ≠ []) :
    ofDescription kind a = .error (.invalid a.problems) := by
  rw [ofDescription, if_neg h]

/-- What comes of a source: an error of reading, the problems of what was read, or a grammar. -/
theorem ofSource_cases (kind : Kind) (source : Source) :
    (∃ e, Description.parse source = .error e ∧ ofSource kind source = .error (.parse e)) ∨
      (∃ a, Description.parse source = .ok a ∧ a.problems ≠ [] ∧
        ofSource kind source = .error (.invalid a.problems)) ∨
      ∃ a g, Description.parse source = .ok a ∧ a.problems = [] ∧
        ofSource kind source = .ok g ∧ g.InRange := by
  unfold ofSource
  cases hparse : Description.parse source with
  | error e => exact .inl ⟨e, rfl, rfl⟩
  | ok a =>
    by_cases hproblems : a.problems = []
    · -- of all that lowering can stumble over, validity leaves one thing, which no text has
      have hvalid := (Description.problems_eq_nil_iff a).mp hproblems
      have hknown := Description.hasKnownKinds_of_parse hparse
      obtain ⟨g, hg⟩ := (exists_ofDescription_iff kind a).mpr ⟨hvalid, hknown⟩
      exact .inr (.inr ⟨a, g, rfl, hproblems, hg, inRange_of_ofDescription hg⟩)
    · exact .inr (.inl ⟨a, rfl, hproblems, ofDescription_eq_invalid hproblems⟩)

/-- **A source never fails in lowering.** It is refused by reading exactly if it cannot be read, by
validation exactly if what was read has problems, and else it gives a grammar; all tokens and all
indices on the way are in range. -/
theorem ofSource_never_lowering (kind : Kind) (source : Source) :
    (∀ e, ofSource kind source = .error (.parse e) ↔ Description.parse source = .error e) ∧
      (∀ ps, ofSource kind source = .error (.invalid ps) ↔
        ps ≠ [] ∧ ∃ a, Description.parse source = .ok a ∧ a.problems = ps) ∧
      (∀ e, ofSource kind source ≠ .error (.lowering e)) ∧
      ((∃ g, ofSource kind source = .ok g) ↔
        ∃ a, Description.parse source = .ok a ∧ a.problems = []) ∧
      (∀ t ∈ (TokenStream.ofText source.text).scanned, Scan.WellScanned source.text t) ∧
      ∀ g, ofSource kind source = .ok g → g.InRange := by
  have htokens := TokenStream.ofText_wellScanned source.text
  rcases ofSource_cases kind source with ⟨e, hparse, h⟩ | ⟨a, hparse, hproblems, h⟩ |
    ⟨a, g, hparse, hproblems, h, hrange⟩
  · rw [h, hparse]
    simpa using htokens
  · rw [h, hparse]
    simpa [hproblems] using htokens
  · rw [h, hparse]
    simpa [hproblems, hrange] using htokens

end Grammar

end YaccTables
