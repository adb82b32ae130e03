import YaccTables.Grammar.Build
import YaccTables.Proofs.Lowering

/-!
# Which descriptions can be lowered

Lowering looks every name up in tables that hold the user's names and the synthetic ones side by
side. So it refuses a reference to a name that is in neither, but not one that the description
leaves undefined and a synthetic symbol happens to bear.

* `Description.Lowerable` lists what lowering asks of a description, checked for problems or not,
  and `exists_lowerWith_iff` says that it asks for nothing else;
* of a description without problems there is one thing left to ask, that every reference is of a
  known kind (`lowerWith_eq_error_of_valid`).

Each function of the lowering gets one lemma that says exactly when it succeeds.
-/

namespace YaccTables

/-! ## References -/

namespace Description

/-- All that lowering has to look up: the start rule, what stands in productions and, in an `eco`
grammar, the implicit tokens. -/
def references (kind : Kind) (a : Description) : List SymbolRef :=
  .rule a.start :: (a.rules.flatMap fun r => r.productions.flatMap Production.symbols)
    ++ if kind = .eco then a.implicitTokens.map .token else []

/-- What is referred to: the start rule, the symbols of productions, and implicit tokens. -/
theorem mem_references_iff {kind : Kind} {a : Description} {ref : SymbolRef} :
    ref ∈ a.references kind ↔ ref = .rule a.start ∨
      (∃ r ∈ a.rules, ∃ p ∈ r.productions, ref ∈ p.symbols) ∨
      kind = .eco ∧ ∃ t ∈ a.implicitTokens, SymbolRef.token t = ref := by
  rw [references, List.mem_append, List.mem_cons, or_assoc]
  by_cases hk : kind = .eco
  · simp [hk]
  · simp [hk]

/-- The description defines what is referred to. -/
def Defines (a : Description) : SymbolRef → Prop
  | .rule name => name ∈ a.ruleNames
  | .token name => name ∈ a.tokens
  | .other _ _ => False

instance (a : Description) : DecidablePred a.Defines
  | .rule name => inferInstanceAs (Decidable (name ∈ a.ruleNames))
  | .token name => inferInstanceAs (Decidable (name ∈ a.tokens))
  | .other _ _ => isFalse id

end Description

/-- A synthetic symbol bears the name that is referred to. -/
def SyntheticNames.Bears (names : SyntheticNames) : SymbolRef → Prop
  | .rule name => name ∈ names.nonterminals
  | .token name => name = names.endName
  | .other _ _ => False

instance (names : SyntheticNames) : DecidablePred names.Bears
  | .rule name => inferInstanceAs (Decidable (name ∈ names.nonterminals))
  | .token name => inferInstanceAs (Decidable (name = names.endName))
  | .other _ _ => isFalse id

/-- What lowering asks of a production: that its references resolve, and that the precedence it
names, if any, is declared. -/
def Production.LowersWith (a : Description) (resolves : SymbolRef → Prop) (p : Production) : Prop :=
  (∀ ref ∈ p.symbols, resolves ref) ∧ (p.prec = [] ∨ (a.prec? p.prec).isSome)

namespace Lowering

/-- The scope has a symbol for the reference. -/
def Scope.Resolves (sc : Scope) : SymbolRef → Prop
  | .rule name => name ∈ sc.nonterms
  | .token name => name ∈ sc.terms
  | .other _ _ => False

/-- **A scope resolves what the description defines and what a synthetic symbol bears the name
of.** -/
theorem Scope.Represents.resolves_iff {sc : Scope} {kind : Kind} {a : Description}
    (hsc : sc.Represents kind a) {ref : SymbolRef} :
    sc.Resolves ref ↔ a.Defines ref ∨ (a.syntheticNames kind).Bears ref := by
  cases ref with
  | rule name =>
    rw [← hsc.names_eq]
    exact hsc.mem_nonterms_iff.trans or_comm
  | token name =>
    rw [← hsc.names_eq, Scope.Resolves, hsc.terms_eq, List.mem_cons]
    exact or_comm
  | other code name => simp [Scope.Resolves, Description.Defines, SyntheticNames.Bears]

/-! ## When each function succeeds -/

section Success

variable {sc : Scope} {kind : Kind} {a : Description} {woven : ImplicitNames}

/-- A symbol can be lowered exactly if it resolves. -/
theorem exists_symbol_iff {rule : Name} {pad : List Symbol} {ref : SymbolRef} :
    (∃ found, symbol sc rule pad ref = .ok found) ↔ sc.Resolves ref := by
  cases ref with
  | rule name => exact exists_bind_pure_iff.trans (exists_nonterm_iff rule)
  | token name => exact exists_bind_pure_iff.trans (exists_term_iff rule)
  | other code name => simp [symbol, Scope.Resolves]

/-- What follows every token can always be lowered. -/
theorem exists_padding (hsc : sc.Represents kind a) (rule : Name) :
    ∃ pad, padding sc rule = .ok pad := by
  unfold padding
  cases hw : sc.names.woven with
  | none => exact ⟨[], rfl⟩
  | some woven =>
    exact exists_bind_pure_iff.mpr ((exists_nonterm_iff rule).mpr (hsc.implicit_mem hw))

/-- A production has symbols exactly if all of its references resolve. -/
theorem exists_symbols_iff (hsc : sc.Represents kind a) (rule : Name) {p : Production} :
    (∃ found, symbols sc rule p = .ok found) ↔ ∀ ref ∈ p.symbols, sc.Resolves ref := by
  obtain ⟨pad, hpad⟩ := exists_padding hsc rule
  rw [symbols, hpad, ok_bind, exists_bind_pure_iff, exists_mapM_eq_ok_iff]
  exact forall₂_congr fun ref _ => exists_symbol_iff

/-- A production has a precedence exactly if the one it names is declared. -/
theorem exists_precedence_iff (rule : Name) {p : Production} :
    (∃ prec, precedence a rule p = .ok prec) ↔ p.prec = [] ∨ (a.prec? p.prec).isSome := by
  unfold precedence
  by_cases hp : p.prec = []
  · simp [hp]
  · rw [if_neg hp]
    cases a.prec? p.prec with
    | none => simp [hp]
    | some prec => simp

/-- A production can be lowered exactly if its symbols and its precedence can. -/
theorem exists_body_iff (hsc : sc.Represents kind a) (rule : Name) {p : Production} :
    (∃ b, body sc rule p = .ok b) ↔ p.LowersWith a sc.Resolves := by
  rw [Production.LowersWith, ← exists_symbols_iff hsc rule, ← exists_precedence_iff rule]
  unfold body
  rw [hsc.description_eq]
  simp only [bind_eq_ok_iff]
  constructor
  · rintro ⟨b, found, hfound, prec, hprec, -⟩
    exact ⟨⟨found, hfound⟩, prec, hprec⟩
  · rintro ⟨⟨found, hfound⟩, prec, hprec⟩
    exact ⟨_, found, hfound, prec, hprec, rfl⟩

/-- A rule of the user can be lowered exactly if it has productions and these can. -/
theorem exists_user_iff (hsc : sc.Represents kind a) {r : Rule} (hr : r ∈ a.rules) :
    (∃ found, bodies sc r.name = .ok found) ↔
      r.productions ≠ [] ∧ ∀ p ∈ r.productions, p.LowersWith a sc.Resolves := by
  have hname := hsc.notMem_nonterminals (List.mem_map_of_mem hr)
  have huser : userBodies sc r.name = r.productions.mapM (body sc r.name) := by
    rw [userBodies, hsc.description_eq, hsc.rule?_eq_some hr]
  -- there are as many productions found as there are written
  have hnil : ∀ found, r.productions.mapM (body sc r.name) = .ok found →
      (found = [] ↔ r.productions = []) := by
    intro found hfound
    have hlen := (mapM_eq_ok_iff.mp hfound).length_eq
    rw [← List.length_eq_zero_iff, ← List.length_eq_zero_iff, hlen]
  have hall : (∀ p ∈ r.productions, p.LowersWith a sc.Resolves) ↔
      ∃ found, r.productions.mapM (body sc r.name) = .ok found := by
    rw [exists_mapM_eq_ok_iff]
    exact forall₂_congr fun p _ => (exists_body_iff hsc r.name).symm
  simp only [bodies_user_iff hname, huser, hall]
  constructor
  · rintro ⟨found, hfound, hne⟩
    exact ⟨fun h => hne ((hnil found hfound).mpr h), found, hfound⟩
  · rintro ⟨hne, found, hfound⟩
    exact ⟨found, hfound, fun h => hne ((hnil found hfound).mp h)⟩

/-- The start rule can be lowered exactly if what it starts with is a nonterminal. -/
theorem exists_start_iff (hsc : sc.Represents kind a) :
    (∃ found, bodies sc sc.names.start = .ok found) ↔
      sc.names.target a.start ∈ sc.nonterms := by
  have hstart : startBodies sc
      = nonterm sc sc.names.start (sc.names.target a.start) >>= fun s =>
        pure [{ symbols := [s] }] := by
    rw [← hsc.description_eq]
    rfl
  rw [← exists_nonterm_iff sc.names.start]
  simp only [bodies_start_iff, hstart, bind_eq_ok_iff]
  constructor
  · rintro ⟨found, ⟨s, hs, -⟩, -⟩
    exact ⟨s, hs⟩
  · rintro ⟨s, hs⟩
    exact ⟨_, ⟨s, hs, rfl⟩, List.cons_ne_nil _ _⟩

/-- The rule that lets implicit tokens come first can be lowered exactly if the start is a
nonterminal. -/
theorem exists_implicitStart_iff (hsc : sc.Represents kind a)
    (hw : sc.names.woven = some woven) :
    (∃ found, bodies sc woven.implicitStart = .ok found) ↔ a.start ∈ sc.nonterms := by
  obtain ⟨i, hi⟩ := (exists_nonterm_iff woven.implicitStart).mpr (hsc.implicit_mem hw)
  rw [← exists_nonterm_iff woven.implicitStart]
  simp only [bodies_implicitStart_iff hw (hsc.woven_ne hw).2.1, implicitStartBodies, hi,
    hsc.description_eq, bind_eq_ok_iff]
  constructor
  · rintro ⟨found, ⟨_, -, s, hs, -⟩, -⟩
    exact ⟨s, hs⟩
  · rintro ⟨s, hs⟩
    exact ⟨_, ⟨i, rfl, s, hs, rfl⟩, List.cons_ne_nil _ _⟩

/-- The implicit rule can be lowered exactly if the implicit tokens are terminals. -/
theorem exists_implicit_iff (hsc : sc.Represents kind a) (hw : sc.names.woven = some woven) :
    (∃ found, bodies sc woven.implicit = .ok found) ↔ ∀ t ∈ a.implicitTokens, t ∈ sc.terms := by
  obtain ⟨hstart, -, hne⟩ := hsc.woven_ne hw
  have hterms : (∀ t ∈ a.implicitTokens, t ∈ sc.terms) ↔
      ∃ terms, a.implicitTokens.mapM (term sc woven.implicit) = .ok terms := by
    rw [exists_mapM_eq_ok_iff]
    exact forall₂_congr fun t _ => (exists_term_iff woven.implicit).symm
  simp only [bodies_implicit_iff hw hstart hne, implicitBodies, hsc.description_eq,
    bind_eq_ok_iff, hterms]
  constructor
  · rintro ⟨found, ⟨terms, hterms, -⟩, -⟩
    exact ⟨terms, hterms⟩
  · rintro ⟨terms, hterms⟩
    exact ⟨_, ⟨terms, hterms, rfl⟩, by simp⟩

/-- The synthetic rules need the user's start rule and the implicit tokens. -/
theorem exists_synthetic_iff (hsc : sc.Represents kind a) :
    (∀ name ∈ sc.names.nonterminals, ∃ found, bodies sc name = .ok found) ↔
      a.start ∈ sc.nonterms ∧ (kind = .eco → ∀ t ∈ a.implicitTokens, t ∈ sc.terms) := by
  have hweaves := a.woven_isSome_iff kind
  rw [a.weaves_iff kind, ← hsc.names_eq] at hweaves
  cases hw : sc.names.woven with
  | none =>
    -- an `eco` grammar without implicit tokens has none to look up
    have hnone : kind = .eco → a.implicitTokens = [] := by
      intro hk
      by_contra hne
      exact absurd (hweaves.mpr ⟨hk, hne⟩) (by simp [hw])
    have hvacuous : kind = .eco → ∀ t ∈ a.implicitTokens, t ∈ sc.terms := by
      intro hk
      simp [hnone hk]
    have htarget : sc.names.target a.start = a.start := by rw [SyntheticNames.target, hw]
    simp only [SyntheticNames.nonterminals, hw, List.mem_singleton, forall_eq,
      exists_start_iff hsc, htarget, iff_self_and]
    exact fun _ => hvacuous
  | some woven =>
    have hk : kind = .eco := (hweaves.mp (by simp [hw])).1
    have htarget : sc.names.target a.start ∈ sc.nonterms := by
      rw [SyntheticNames.target, hw]
      exact hsc.implicitStart_mem hw
    simp only [SyntheticNames.nonterminals, hw, List.mem_cons, List.not_mem_nil, or_false,
      forall_eq_or_imp, forall_eq, exists_start_iff hsc, exists_implicit_iff hsc hw,
      exists_implicitStart_iff hsc hw, htarget, hk, true_and, forall_const]
    exact and_comm

end Success

end Lowering

/-! ## When lowering succeeds -/

namespace Description

/-- What lowering asks of a description, whether or not it was checked for problems. -/
structure Lowerable (kind : Kind) (a : Description) : Prop where
  ruleNames_nodup : a.ruleNames.Nodup
  tokens_nodup : a.tokens.Nodup
  productions_ne_nil : ∀ r ∈ a.rules, r.productions ≠ []
  prec_declared : ∀ r ∈ a.rules, ∀ p ∈ r.productions, p.prec = [] ∨ (a.prec? p.prec).isSome
  /-- Every reference is to something defined, or has the name of a synthetic symbol. -/
  resolves : ∀ ref ∈ a.references kind, a.Defines ref ∨ (a.syntheticNames kind).Bears ref

instance (kind : Kind) (a : Description) : Decidable (a.Lowerable kind) :=
  decidable_of_iff (a.ruleNames.Nodup ∧ a.tokens.Nodup ∧ (∀ r ∈ a.rules, r.productions ≠ []) ∧
      (∀ r ∈ a.rules, ∀ p ∈ r.productions, p.prec = [] ∨ (a.prec? p.prec).isSome) ∧
      ∀ ref ∈ a.references kind, a.Defines ref ∨ (a.syntheticNames kind).Bears ref)
    ⟨fun ⟨hr, ht, hne, hp, hres⟩ => ⟨hr, ht, hne, hp, hres⟩,
      fun ⟨hr, ht, hne, hp, hres⟩ => ⟨hr, ht, hne, hp, hres⟩⟩

/-- **A description can be lowered exactly if its names are distinct, its rules have productions,
the precedences it names are declared and all its references resolve.** -/
theorem exists_lowerWith_iff (a : Description) (fold : Bytes → Bytes) (kind : Kind) :
    (∃ g, a.lowerWith fold kind = .ok g) ↔ a.Lowerable kind := by
  have hbodies : ∀ sc : Lowering.Scope, sc.Represents kind a →
      ((∀ name ∈ sc.nonterms, ∃ found, Lowering.bodies sc name = .ok found) ↔
        (a.start ∈ sc.nonterms ∧ (kind = .eco → ∀ t ∈ a.implicitTokens, t ∈ sc.terms)) ∧
          ∀ r ∈ a.rules, r.productions ≠ [] ∧
            ∀ p ∈ r.productions, p.LowersWith a sc.Resolves) := by
    intro sc hsc
    rw [← Lowering.exists_synthetic_iff hsc]
    simp only [hsc.mem_nonterms_iff, or_imp, forall_and, ruleNames, List.forall_mem_map]
    refine and_congr_right fun _ => ?_
    rw [← forall₂_and]
    exact forall₂_congr fun r hr => Lowering.exists_user_iff hsc hr
  constructor
  · rintro ⟨g, h⟩
    obtain ⟨sc, groups, hscope, hgroups, -⟩ := lowerWith_eq_ok_iff.mp h
    have hsc := Lowering.scope_represents hscope
    obtain ⟨⟨hstart, himplicit⟩, hrules⟩ := (hbodies sc hsc).mp fun name hname => by
      obtain ⟨found, -, hfound⟩ := exists_mem_of_forall₂ hgroups hname
      exact ⟨found, hfound⟩
    constructor
    case ruleNames_nodup => exact hsc.ruleNames_nodup
    case tokens_nodup => exact (List.nodup_cons.mp (hsc.terms_eq ▸ hsc.terms_nodup)).2
    case productions_ne_nil => exact fun r hr => (hrules r hr).1
    case prec_declared => exact fun r hr p hp => ((hrules r hr).2 p hp).2
    case resolves =>
      intro ref href
      rw [← hsc.resolves_iff]
      rcases mem_references_iff.mp href with rfl | ⟨r, hr, p, hp, hmem⟩ | ⟨hk, t, ht, rfl⟩
      · exact hstart
      · exact ((hrules r hr).2 p hp).1 ref hmem
      · exact himplicit hk t ht
  · intro hl
    obtain ⟨sc, hscope⟩ := Lowering.exists_scope fold kind hl.ruleNames_nodup hl.tokens_nodup
    have hsc := Lowering.scope_represents hscope
    have hresolves : ∀ ref ∈ a.references kind, sc.Resolves ref := fun ref href =>
      hsc.resolves_iff.mpr (hl.resolves ref href)
    have hstart : a.start ∈ sc.nonterms :=
      hresolves (.rule a.start) (mem_references_iff.mpr (.inl rfl))
    have himplicit : kind = .eco → ∀ t ∈ a.implicitTokens, t ∈ sc.terms := fun hk t ht =>
      hresolves (.token t) (mem_references_iff.mpr (.inr (.inr ⟨hk, t, ht, rfl⟩)))
    have hrules : ∀ r ∈ a.rules, r.productions ≠ [] ∧
        ∀ p ∈ r.productions, p.LowersWith a sc.Resolves := by
      intro r hr
      refine ⟨hl.productions_ne_nil r hr, fun p hp => ⟨?_, hl.prec_declared r hr p hp⟩⟩
      intro ref href
      exact hresolves ref (mem_references_iff.mpr (.inr (.inl ⟨r, hr, p, hp, href⟩)))
    obtain ⟨groups, hgroups⟩ := exists_mapM_eq_ok_iff.mpr
      ((hbodies sc hsc).mpr ⟨⟨hstart, himplicit⟩, hrules⟩)
    exact ⟨_, lowerWith_eq_ok_iff.mpr ⟨sc, groups, hscope, mapM_eq_ok_iff.mp hgroups, rfl⟩⟩

/-- **Lowering refuses what is undefined**, short of a name that a synthetic symbol bears: whatever
else a description says, one reference to a name of neither sort is enough. -/
theorem lower_refuses_undefined {kind : Kind} {a : Description} {ref : SymbolRef}
    (href : ref ∈ a.references kind) (hdefines : ¬ a.Defines ref)
    (hbears : ¬ (a.syntheticNames kind).Bears ref) : ∃ e, a.lower kind = .error e := by
  cases hlower : a.lower kind with
  | error e => exact ⟨e, rfl⟩
  | ok g =>
    have hl := (a.exists_lowerWith_iff Text.foldCase kind).mp ⟨g, hlower⟩
    exact absurd (hl.resolves ref href) (not_or.mpr ⟨hdefines, hbears⟩)

/-- A description that defines nothing of what it refers to. All the names are markers. -/
def undefinedMarkers : Description :=
  { start := utf8 "^"
    rules := [⟨utf8 "s", [⟨[.rule (utf8 "~"), .token (utf8 "$")], []⟩]⟩]
    implicitTokens := [utf8 "$"] }

theorem refuses_undefinedMarkers :
    SymbolRef.rule (utf8 "~") ∈ undefinedMarkers.references .original ∧
      ¬ undefinedMarkers.Defines (.rule (utf8 "~")) ∧
      ¬ (undefinedMarkers.syntheticNames .original).Bears (.rule (utf8 "~")) ∧
      ∃ e, undefinedMarkers.lower .original = .error e :=
  have href : SymbolRef.rule (utf8 "~") ∈ undefinedMarkers.references .original := by decide
  ⟨href, by decide, by decide, lower_refuses_undefined href (by decide) (by decide)⟩

/-- With implicit tokens woven in, each of its references finds a synthetic symbol. -/
theorem undefinedMarkers_lowered :
    (∀ ref ∈ undefinedMarkers.references .eco, ¬ undefinedMarkers.Defines ref) ∧
      ∃ g, undefinedMarkers.lower .eco = .ok g :=
  ⟨by decide, (undefinedMarkers.exists_lowerWith_iff Text.foldCase .eco).mpr (by decide)⟩

/-! ## Descriptions without problems -/

/-- A valid description defines what it refers to. -/
theorem Valid.defines {a : Description} (hv : a.Valid) {r : Rule} (hr : r ∈ a.rules)
    {p : Production} (hp : p ∈ r.productions) {ref : SymbolRef} (href : ref ∈ p.symbols)
    (hknown : ref.IsKnown) : a.Defines ref := by
  cases ref with
  | rule name => exact hv.rule_mem r hr p hp name href
  | token name => exact hv.token_mem r hr p hp name href
  | other code name => exact hknown.elim

/-- Validity leaves one thing open that lowering asks for. -/
theorem Valid.lowerable_iff {a : Description} (hv : a.Valid) (kind : Kind) :
    a.Lowerable kind ↔ a.HasKnownKinds := by
  constructor
  · intro hl r hr p hp ref href
    have hres := hl.resolves ref (mem_references_iff.mpr (.inr (.inl ⟨r, hr, p, hp, href⟩)))
    cases ref with
    | rule name => trivial
    | token name => trivial
    | other code name => exact hres.elim id id
  · intro hk
    constructor
    case ruleNames_nodup => exact hv.ruleNames_nodup
    case tokens_nodup => exact hv.tokens_nodup
    case productions_ne_nil => exact hv.productions_ne_nil
    case prec_declared => exact hv.prec_declared
    case resolves =>
      intro ref href
      refine .inl ?_
      rcases mem_references_iff.mp href with rfl | ⟨r, hr, p, hp, hmem⟩ | ⟨-, t, ht, rfl⟩
      · exact hv.start_mem
      · exact hv.defines hr hp hmem (hk r hr p hp ref hmem)
      · exact hv.implicit_mem t ht

/-- A valid description can be lowered exactly if it has symbols of known kinds only. -/
theorem Valid.exists_lowerWith_iff {a : Description} (hv : a.Valid) (fold : Bytes → Bytes)
    (kind : Kind) : (∃ g, a.lowerWith fold kind = .ok g) ↔ a.HasKnownKinds :=
  (a.exists_lowerWith_iff fold kind).trans (hv.lowerable_iff kind)

/-- The error points at a reference of unknown kind that stands in the description. -/
def BlamesKind (a : Description) (e : LoweringError) : Prop :=
  ∃ r ∈ a.rules, ∃ p ∈ r.productions, ∃ code name, SymbolRef.other code name ∈ p.symbols ∧
    e = { rule := r.name, symbol := name, reason := .unknownSymbolKind }

end Description

namespace Lowering

section Failure

variable {sc : Scope} {kind : Kind} {a : Description} {e : LoweringError}

/-- Where all known references resolve, a symbol of another kind is to blame. -/
theorem symbols_eq_error (hsc : sc.Represents kind a) {rule : Name} {p : Production}
    (hresolves : ∀ ref ∈ p.symbols, ref.IsKnown → sc.Resolves ref)
    (h : symbols sc rule p = .error e) :
    ∃ code name, SymbolRef.other code name ∈ p.symbols ∧
      e = { rule, symbol := name, reason := .unknownSymbolKind } := by
  obtain ⟨pad, hpad⟩ := exists_padding hsc rule
  rw [symbols, hpad, ok_bind, bind_pure_eq_error_iff] at h
  -- the padding is found, so it is one of the references that was not
  obtain ⟨ref, href, herror⟩ := exists_of_mapM_eq_error h
  by_cases hknown : ref.IsKnown
  · obtain ⟨found, hfound⟩ := exists_symbol_iff.mpr (hresolves ref href hknown)
    rw [hfound] at herror
    exact absurd herror (by simp)
  · cases ref with
    | rule name => exact absurd trivial hknown
    | token name => exact absurd trivial hknown
    | other code name => exact ⟨code, name, href, (Except.error.inj herror).symm⟩

/-- A rule of a valid description fails by a symbol of another kind. -/
theorem user_eq_error_of_valid (hsc : sc.Represents kind a) (hv : a.Valid) {r : Rule}
    (hr : r ∈ a.rules) (h : bodies sc r.name = .error e) : a.BlamesKind e := by
  rw [bodies_user (hsc.notMem_nonterminals (List.mem_map_of_mem hr)), userBodies,
    hsc.description_eq, hsc.rule?_eq_some hr] at h
  rcases bind_eq_error_iff.mp h with hmap | ⟨found, hfound, hlast⟩
  · obtain ⟨p, hp, hbody⟩ := exists_of_mapM_eq_error hmap
    rw [body, hsc.description_eq] at hbody
    rcases bind_eq_error_iff.mp hbody with hsymbols | ⟨found, -, hrest⟩
    · obtain ⟨code, name, hmem, rfl⟩ := symbols_eq_error hsc
        (fun ref href hknown => hsc.resolves_iff.mpr (.inl (hv.defines hr hp href hknown)))
        hsymbols
      exact ⟨r, hr, p, hp, code, name, hmem, rfl⟩
    · -- a valid description declares the precedences that it names
      obtain ⟨prec, hprec⟩ := (exists_precedence_iff r.name).mpr
        (hv.prec_declared r hr p hp)
      rw [hprec] at hrest
      exact absurd hrest (by simp [bind, Except.bind, pure, Except.pure])
  · have hne : found ≠ [] := by
      rintro rfl
      exact hv.productions_ne_nil r hr
        (List.forall₂_nil_right_iff.mp (mapM_eq_ok_iff.mp hfound))
    rw [if_neg hne] at hlast
    exact absurd hlast (by simp)

/-- Any nonterminal of a valid description fails by a symbol of another kind. -/
theorem bodies_eq_error_of_valid (hsc : sc.Represents kind a) (hv : a.Valid) {name : Name}
    (hname : name ∈ sc.nonterms) (h : bodies sc name = .error e) : a.BlamesKind e := by
  rcases hsc.mem_nonterms_iff.mp hname with hsyn | huser
  · have hterms : kind = .eco → ∀ t ∈ a.implicitTokens, t ∈ sc.terms := fun _ t ht =>
      hsc.terms_eq ▸ List.mem_cons_of_mem _ (hv.implicit_mem t ht)
    obtain ⟨found, hfound⟩ := (exists_synthetic_iff hsc).mpr
      ⟨hsc.mem_nonterms_iff.mpr (.inr hv.start_mem), hterms⟩ name hsyn
    rw [hfound] at h
    exact absurd h (by simp)
  · obtain ⟨r, hr, rfl⟩ := List.mem_map.mp huser
    exact user_eq_error_of_valid hsc hv hr h

end Failure

end Lowering

namespace Description

/-- Lowering a valid description fails by a symbol of another kind. -/
theorem lowerWith_eq_error_of_valid {fold : Bytes → Bytes} {kind : Kind} {a : Description}
    (hv : a.Valid) {e : LoweringError} (h : a.lowerWith fold kind = .error e) :
    a.BlamesKind e := by
  obtain ⟨sc, hscope⟩ := Lowering.exists_scope fold kind hv.ruleNames_nodup hv.tokens_nodup
  have hsc := Lowering.scope_represents hscope
  rw [lowerWith, hscope, ok_bind, bind_pure_eq_error_iff] at h
  obtain ⟨name, hname, hbodies⟩ := exists_of_mapM_eq_error h
  exact Lowering.bodies_eq_error_of_valid hsc hv hname hbodies

/-- **A description without problems is lowered if its references are all to rules and tokens.**
References of other kinds are the only ones that the search for problems passes over and lowering
refuses; a caller that vouched for the description then gets a complaint. -/
theorem lower_unproblematic {a : Description} (h : a.problems = []) (kind : Kind) :
    (a.HasKnownKinds → ∃ g, a.lower kind = .ok g ∧ a.lowerTrusted kind = .ok g) ∧
      (¬ a.HasKnownKinds → ∃ e, a.lower kind = .error e ∧
        a.lowerTrusted kind = .error e.contractMessage ∧ a.BlamesKind e) := by
  have hv := (problems_eq_nil_iff a).mp h
  have hlowers : (∃ g, a.lower kind = .ok g) ↔ a.HasKnownKinds :=
    hv.exists_lowerWith_iff Text.foldCase kind
  cases hlower : a.lower kind with
  | ok g =>
    have hk := hlowers.mp ⟨g, hlower⟩
    exact ⟨fun _ => ⟨g, rfl, by rw [lowerTrusted, hlower]⟩, fun hnot => absurd hk hnot⟩
  | error e =>
    refine ⟨fun hk => ?_, fun _ => ?_⟩
    · obtain ⟨g, hg⟩ := hlowers.mpr hk
      exact absurd (hg.symm.trans hlower) (by simp)
    · exact ⟨e, rfl, by rw [lowerTrusted, hlower], lowerWith_eq_error_of_valid hv hlower⟩

/-- A rule that refers to itself, to a token and, in a way that is neither, to something else. -/
def strayKind : Description :=
  { start := utf8 "s"
    rules := [⟨utf8 "s", [⟨[.rule (utf8 "s"), .token (utf8 "x"), .other 2 (utf8 "x")], []⟩]⟩]
    tokens := [utf8 "x"] }

theorem lower_unproblematic_strayKind : strayKind.problems = [] ∧ ¬ strayKind.HasKnownKinds ∧
    ∃ e, strayKind.lower .eco = .error e ∧
      strayKind.lowerTrusted .eco = .error e.contractMessage ∧ strayKind.BlamesKind e :=
  ⟨by decide, by decide, (lower_unproblematic (by decide) .eco).2 (by decide)⟩

/-- It has no problems and yet no grammar. -/
theorem strayKind_not_lowered : strayKind.problems = [] ∧
    ¬ ∃ g, strayKind.lower .original = .ok g := by
  refine ⟨by decide, fun hlower => ?_⟩
  have hv := (problems_eq_nil_iff strayKind).mp (by decide)
  exact absurd ((hv.exists_lowerWith_iff Text.foldCase .original).mp hlower) (by decide)

end Description

end YaccTables
