import Mathlib.Data.List.Nodup
import YaccTables.Proofs.Numbering
import YaccTables.Description.Validation

/-!
# Descriptions without problems

`Description.problems` is a list that is built up check by check. `Description.Valid` says what it
means that the list is empty, one field for each sort of problem, and `problems_eq_nil_iff` that the
two agree. Everything that relies on a checked description takes `Valid` and never the list.

References of a sort that is neither rule nor token are looked at by no check:
`Description.HasKnownKinds` says of a description that it makes none.
-/

namespace YaccTables

/-- A reference to a rule or to a token. -/
def SymbolRef.IsKnown : SymbolRef → Prop
  | .rule _ => True
  | .token _ => True
  | .other _ _ => False

instance : DecidablePred SymbolRef.IsKnown
  | .rule _ => isTrue trivial
  | .token _ => isTrue trivial
  | .other _ _ => isFalse id

namespace Description

/-- What it takes for a description to have no problems. -/
structure Valid (a : Description) : Prop where
  ruleNames_nodup : a.ruleNames.Nodup
  tokens_nodup : a.tokens.Nodup
  start_ne_nil : a.start ≠ []
  start_mem : a.start ∈ a.ruleNames
  productions_ne_nil : ∀ r ∈ a.rules, r.productions ≠ []
  rule_mem : ∀ r ∈ a.rules, ∀ p ∈ r.productions, ∀ name,
    SymbolRef.rule name ∈ p.symbols → name ∈ a.ruleNames
  token_mem : ∀ r ∈ a.rules, ∀ p ∈ r.productions, ∀ name,
    SymbolRef.token name ∈ p.symbols → name ∈ a.tokens
  prec_declared : ∀ r ∈ a.rules, ∀ p ∈ r.productions, p.prec = [] ∨ (a.prec? p.prec).isSome
  redeclared_eq_nil : a.redeclared = []
  implicit_mem : ∀ name ∈ a.implicitTokens, name ∈ a.tokens
  implicit_nodup : a.implicitTokens.Nodup

/-- Every reference of the description is to a rule or to a token. -/
def HasKnownKinds (a : Description) : Prop :=
  ∀ r ∈ a.rules, ∀ p ∈ r.productions, ∀ ref ∈ p.symbols, ref.IsKnown

instance (a : Description) : Decidable a.HasKnownKinds :=
  inferInstanceAs (Decidable (∀ r ∈ a.rules, ∀ p ∈ r.productions, ∀ ref ∈ p.symbols, ref.IsKnown))

/-! ## The checks one by one -/

/-- Nothing is wrong with a start rule that is named and there. -/
theorem startProblems_eq_nil_iff (a : Description) :
    a.startProblems = [] ↔ a.start ≠ [] ∧ a.start ∈ a.ruleNames := by
  rw [startProblems]
  by_cases hs : a.start = []
  · simp [hs]
  · by_cases hm : a.start ∈ a.ruleNames
    · simp [hs, hm]
    · simp [hs, hm]

/-- Nothing is wrong with a reference to what is there. -/
theorem refProblems_eq_nil_iff (a : Description) (rule : Name) (ref : SymbolRef) :
    a.refProblems rule ref = [] ↔
      (∀ name, ref = .rule name → name ∈ a.ruleNames) ∧
        ∀ name, ref = .token name → name ∈ a.tokens := by
  cases ref with
  | rule name => simp [refProblems]
  | token name => simp [refProblems]
  | other code name => simp [refProblems]

/-- Nothing is wrong with a production whose symbols and precedence are there. -/
theorem productionProblems_eq_nil_iff (a : Description) (rule : Name) (p : Production) :
    a.productionProblems rule p = [] ↔
      (∀ name, SymbolRef.rule name ∈ p.symbols → name ∈ a.ruleNames) ∧
        (∀ name, SymbolRef.token name ∈ p.symbols → name ∈ a.tokens) ∧
        (p.prec = [] ∨ (a.prec? p.prec).isSome) := by
  rw [productionProblems, List.append_eq_nil_iff, List.flatMap_eq_nil_iff]
  simp only [refProblems_eq_nil_iff, ite_eq_left_iff, List.cons_ne_nil, imp_false, not_not]
  constructor
  · rintro ⟨hrefs, hprec⟩
    exact ⟨fun name hm => (hrefs _ hm).1 name rfl, fun name hm => (hrefs _ hm).2 name rfl, hprec⟩
  · rintro ⟨hrules, htokens, hprec⟩
    refine ⟨fun ref hm => ⟨?_, ?_⟩, hprec⟩
    · rintro name rfl
      exact hrules name hm
    · rintro name rfl
      exact htokens name hm

/-- Nothing is wrong with a rule that has productions, and these nothing wrong. -/
theorem ruleProblems_eq_nil_iff (a : Description) (r : Rule) :
    a.ruleProblems r = [] ↔
      r.productions ≠ [] ∧ ∀ p ∈ r.productions, a.productionProblems r.name p = [] := by
  rw [ruleProblems, List.append_eq_nil_iff, List.flatMap_eq_nil_iff]
  simp

/-- Nothing is wrong with implicit tokens that are tokens and differ. -/
theorem implicitProblems_eq_nil_iff (a : Description) (seen names : List Name) :
    a.implicitProblems seen names = [] ↔
      (∀ name ∈ names, name ∈ a.tokens) ∧ names.Nodup ∧ ∀ name ∈ names, name ∉ seen := by
  induction names generalizing seen with
  | nil => simp [implicitProblems]
  | cons name rest ih =>
    rw [implicitProblems, List.append_eq_nil_iff, List.append_eq_nil_iff, ih (name :: seen)]
    simp only [List.contains_iff_mem, ite_eq_left_iff, ite_eq_right_iff, List.cons_ne_nil,
      imp_false, not_not, List.nodup_cons, List.mem_cons, forall_eq_or_imp, not_or]
    -- what the rest has to avoid now includes the name at hand, which is distinctness
    constructor
    · rintro ⟨⟨hmem, hseen⟩, hmems, hnd, hfresh⟩
      exact ⟨⟨hmem, hmems⟩, ⟨fun h => (hfresh name h).1 rfl, hnd⟩, hseen,
        fun n hn => (hfresh n hn).2⟩
    · rintro ⟨⟨hmem, hmems⟩, ⟨hnot, hnd⟩, hseen, hfresh⟩
      refine ⟨⟨hmem, hseen⟩, hmems, hnd, fun n hn => ⟨?_, hfresh n hn⟩⟩
      rintro rfl
      exact hnot hn

/-! ## All checks together -/

/-- **A description has no problems exactly if it is valid.** -/
theorem problems_eq_nil_iff (a : Description) : a.problems = [] ↔ a.Valid := by
  simp only [problems, List.append_eq_nil_iff, List.map_eq_nil_iff, List.flatMap_eq_nil_iff,
    repeated_nil_eq_nil_iff, startProblems_eq_nil_iff, ruleProblems_eq_nil_iff,
    productionProblems_eq_nil_iff, implicitProblems_eq_nil_iff]
  constructor
  · rintro ⟨⟨⟨⟨⟨hrules, htokens⟩, hstart, hmem⟩, hprods⟩, hprec⟩, himplicit, hnd, -⟩
    exact
      { ruleNames_nodup := hrules
        tokens_nodup := htokens
        start_ne_nil := hstart
        start_mem := hmem
        productions_ne_nil := fun r hr => (hprods r hr).1
        rule_mem := fun r hr p hp => ((hprods r hr).2 p hp).1
        token_mem := fun r hr p hp => ((hprods r hr).2 p hp).2.1
        prec_declared := fun r hr p hp => ((hprods r hr).2 p hp).2.2
        redeclared_eq_nil := hprec
        implicit_mem := himplicit
        implicit_nodup := hnd }
  · intro hv
    have hprods : ∀ r ∈ a.rules, r.productions ≠ [] ∧ ∀ p ∈ r.productions,
        (∀ name, SymbolRef.rule name ∈ p.symbols → name ∈ a.ruleNames) ∧
          (∀ name, SymbolRef.token name ∈ p.symbols → name ∈ a.tokens) ∧
          (p.prec = [] ∨ (a.prec? p.prec).isSome) := by
      intro r hr
      exact ⟨hv.productions_ne_nil r hr, fun p hp =>
        ⟨hv.rule_mem r hr p hp, hv.token_mem r hr p hp, hv.prec_declared r hr p hp⟩⟩
    exact ⟨⟨⟨⟨⟨hv.ruleNames_nodup, hv.tokens_nodup⟩, hv.start_ne_nil, hv.start_mem⟩, hprods⟩,
      hv.redeclared_eq_nil⟩, hv.implicit_mem, hv.implicit_nodup, by simp⟩

end Description

end YaccTables
