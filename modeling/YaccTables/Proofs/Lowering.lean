import Mathlib.Data.List.Nodup
import YaccTables.Proofs.Traversal
import YaccTables.Proofs.Validation
import YaccTables.Grammar.Lowering

/-!
# What lowering computes, by name

Lowering resolves names to numbers. This module says what it computes in terms of the names:

* `Lowering.Scope.Represents` — the numbered names are those of the description and the synthetic
  ones, each once; a scope is built if they are distinct (`exists_scope`);
* `Lowering.Scope.ref?` — a number back to its name, so that what a reference was resolved to can
  be compared with the reference (`nonterm_ref?`, `term_ref?`);
* for each sort of rule, the names of the symbols of its productions (`startBodies_named` and so
  on).

No proof elsewhere opens `Lowering.bodies` or the functions below it.
-/

namespace YaccTables

/-! ## Synthetic names -/

namespace Description

/-- Implicit tokens are woven into grammars of one kind that have some. -/
theorem weaves_iff (kind : Kind) (a : Description) :
    a.weaves kind = true ↔ kind = .eco ∧ a.implicitTokens ≠ [] := by
  simp [weaves]

/-- Synthetic nonterminals have names apart from each other and from those of different rules. -/
theorem syntheticNames_nodup (kind : Kind) (a : Description) (hr : a.ruleNames.Nodup) :
    ((a.syntheticNames kind).nonterminals ++ a.ruleNames).Nodup := by
  -- each marker is repeated until it is clear of the rules and of the names chosen before it
  have hstart := freshName_notMem (show utf8 "^" ≠ [] by decide) a.ruleNames
  set start := freshName (utf8 "^") a.ruleNames with hs
  have himplicit := freshName_notMem (show utf8 "~" ≠ [] by decide) (start :: a.ruleNames)
  set implicit := freshName (utf8 "~") (start :: a.ruleNames) with hi
  have hfirst := freshName_notMem (show utf8 "^~" ≠ [] by decide)
    (implicit :: start :: a.ruleNames)
  by_cases hw : a.weaves kind = true
  · simp only [syntheticNames, SyntheticNames.nonterminals, hw, if_true, ← hs, ← hi,
      List.cons_append, List.nil_append, List.nodup_cons, List.mem_cons, not_or]
    simp only [List.mem_cons, not_or] at himplicit hfirst
    exact ⟨⟨Ne.symm himplicit.1, Ne.symm hfirst.2.1, hstart⟩,
      ⟨Ne.symm hfirst.1, himplicit.2⟩, hfirst.2.2, hr⟩
  · simp only [syntheticNames, SyntheticNames.nonterminals, hw, Bool.false_eq_true, if_false,
      List.cons_append, List.nil_append, List.nodup_cons]
    exact ⟨hstart, hr⟩

/-- Where names are distinct, the first rule of a name is the only one. -/
theorem rule?_eq_some_iff {a : Description} (hnd : a.ruleNames.Nodup) {name : Name} {r : Rule} :
    a.rule? name = some r ↔ r ∈ a.rules ∧ r.name = name := by
  unfold rule?
  constructor
  · intro h
    exact ⟨List.mem_of_find?_eq_some h, by simpa using List.find?_some h⟩
  · rintro ⟨hr, rfl⟩
    cases hf : a.rules.find? (·.name == r.name) with
    | none => exact absurd (List.find?_eq_none.mp hf r hr) (by simp)
    | some r' =>
      have hname : r'.name = r.name := by simpa using List.find?_some hf
      rw [List.inj_on_of_nodup_map hnd (List.mem_of_find?_eq_some hf) hr hname]

/-- The end of the input is not called like a token. -/
theorem endName_notMem (kind : Kind) (a : Description) :
    (a.syntheticNames kind).endName ∉ a.tokens :=
  freshName_notMem (show utf8 "$" ≠ [] by decide) a.tokens

/-- There are names for the rules of implicit tokens where these are woven in. -/
theorem woven_isSome_iff (kind : Kind) (a : Description) :
    (a.syntheticNames kind).woven.isSome ↔ a.weaves kind = true := by
  by_cases hw : a.weaves kind = true
  · simp [syntheticNames, hw]
  · simp [syntheticNames, hw]

end Description

/-- The synthetic nonterminals have three different names. -/
theorem SyntheticNames.woven_ne {names : SyntheticNames} (hnd : names.nonterminals.Nodup)
    {woven : ImplicitNames} (hw : names.woven = some woven) :
    woven.implicit ≠ names.start ∧ woven.implicitStart ≠ names.start ∧
      woven.implicit ≠ woven.implicitStart := by
  simp only [SyntheticNames.nonterminals, hw, List.nodup_cons, List.mem_cons, not_or] at hnd
  exact ⟨Ne.symm hnd.1.1, Ne.symm hnd.1.2.1, hnd.2.1.1⟩

namespace Lowering

/-! ## Scopes -/

/-- The scope has numbered the names of a description and the synthetic ones, each once. -/
structure Scope.Represents (sc : Scope) (kind : Kind) (a : Description) : Prop where
  description_eq : sc.description = a
  names_eq : sc.names = a.syntheticNames kind
  nonterms_perm : sc.nonterms.Perm (sc.names.nonterminals ++ a.ruleNames)
  nonterms_nodup : sc.nonterms.Nodup
  terms_eq : sc.terms = sc.names.endName :: a.tokens
  terms_nodup : sc.terms.Nodup

/-- A scope is made exactly of distinct names: it numbers them and keeps the description. -/
theorem scope_eq_ok_iff {fold : Bytes → Bytes} {kind : Kind} {a : Description} {sc : Scope} :
    scope fold kind a = .ok sc ↔
      ((a.syntheticNames kind).nonterminals ++ a.ruleNames).Nodup ∧
        ((a.syntheticNames kind).endName :: a.tokens).Nodup ∧
        { description := a
          names := a.syntheticNames kind
          nontermTable := .ofNames
            (Numbering.sorted fold ((a.syntheticNames kind).nonterminals ++ a.ruleNames))
          termTable := .ofNames ((a.syntheticNames kind).endName :: a.tokens) } = sc := by
  rw [scope]
  cases hn : Numbering.nontermTable fold
      ((a.syntheticNames kind).nonterminals ++ a.ruleNames) with
  | error name =>
    have hnd : ¬ ((a.syntheticNames kind).nonterminals ++ a.ruleNames).Nodup := fun hnd =>
      absurd (hn.symm.trans (Numbering.nontermTable_eq_ok_iff.mpr ⟨hnd, rfl⟩)) (by simp)
    simp [hnd, bind, Except.bind]
  | ok nonterms =>
    obtain ⟨hnd, rfl⟩ := Numbering.nontermTable_eq_ok_iff.mp hn
    cases ht : Numbering.termTable (a.syntheticNames kind).endName a.tokens with
    | error name =>
      have htd : ¬ ((a.syntheticNames kind).endName :: a.tokens).Nodup := fun htd =>
        absurd (ht.symm.trans (Numbering.termTable_eq_ok_iff.mpr ⟨htd, rfl⟩)) (by simp)
      simp [htd, bind, Except.bind]
    | ok terms =>
      obtain ⟨htd, rfl⟩ := Numbering.termTable_eq_ok_iff.mp ht
      simp [hnd, htd, bind, Except.bind, pure, Except.pure]

/-- A scope numbers the names of its description. -/
theorem scope_represents {fold : Bytes → Bytes} {kind : Kind} {a : Description} {sc : Scope}
    (h : scope fold kind a = .ok sc) : sc.Represents kind a := by
  obtain ⟨hnd, htd, rfl⟩ := scope_eq_ok_iff.mp h
  have hperm := Numbering.sorted_perm fold ((a.syntheticNames kind).nonterminals ++ a.ruleNames)
  constructor
  case description_eq => rfl
  case names_eq => rfl
  case nonterms_perm =>
    rw [Scope.nonterms, Numbering.Table.names_ofNames]
    exact hperm
  case nonterms_nodup =>
    rw [Scope.nonterms, Numbering.Table.names_ofNames]
    exact hperm.nodup_iff.mpr hnd
  case terms_eq => exact Numbering.Table.names_ofNames _
  case terms_nodup =>
    rw [Scope.terms, Numbering.Table.names_ofNames]
    exact htd

/-- Distinct rules and distinct tokens can be numbered: the synthetic names stay clear of them. -/
theorem exists_scope (fold : Bytes → Bytes) (kind : Kind) {a : Description}
    (hr : a.ruleNames.Nodup) (ht : a.tokens.Nodup) : ∃ sc, scope fold kind a = .ok sc :=
  ⟨_, scope_eq_ok_iff.mpr ⟨a.syntheticNames_nodup kind hr,
    List.nodup_cons.mpr ⟨a.endName_notMem kind, ht⟩, rfl⟩⟩

/-! ## Numbers back to names -/

/-- The reference that a symbol was resolved from. -/
def Scope.ref? (sc : Scope) : Symbol → Option SymbolRef
  | .terminal i => sc.terms[i.val]?.map .token
  | .nonterminal i => sc.nonterms[i.val]?.map .rule

/-- The references that the symbols of a production were resolved from. -/
def Scope.refs? (sc : Scope) (symbols : List Symbol) : Option (List SymbolRef) :=
  symbols.mapM sc.ref?

/-- Symbols read back part by part. -/
theorem Scope.refs?_append {sc : Scope} {xs ys : List Symbol} {us vs : List SymbolRef}
    (hx : sc.refs? xs = some us) (hy : sc.refs? ys = some vs) :
    sc.refs? (xs ++ ys) = some (us ++ vs) := by
  unfold Scope.refs? at *
  rw [List.mapM_append, hx, hy]
  rfl

/-- Symbols read back one by one. -/
theorem Scope.refs?_cons {sc : Scope} {x : Symbol} {ys : List Symbol} {u : SymbolRef}
    {vs : List SymbolRef} (hx : sc.ref? x = some u) (hy : sc.refs? ys = some vs) :
    sc.refs? (x :: ys) = some (u :: vs) := by
  unfold Scope.refs? at *
  rw [List.mapM_cons, hx, hy]
  rfl

/-- A nonterminal that was resolved reads back as its rule. -/
theorem nonterm_ref? {sc : Scope} {rule name : Name} {s : Symbol}
    (h : nonterm sc rule name = .ok s) : sc.ref? s = some (.rule name) := by
  unfold nonterm at h
  split at h
  · next i hi =>
    obtain rfl := Except.ok.inj h
    rw [Scope.ref?, Scope.nonterms, sc.nontermTable.getElem?_of_lookup name i hi]
    rfl
  · exact absurd h (by simp)

/-- A terminal that was resolved reads back as its token. -/
theorem term_ref? {sc : Scope} {rule name : Name} {s : Symbol}
    (h : term sc rule name = .ok s) : sc.ref? s = some (.token name) := by
  unfold term at h
  split at h
  · next i hi =>
    obtain rfl := Except.ok.inj h
    rw [Scope.ref?, Scope.terms, sc.termTable.getElem?_of_lookup name i hi]
    rfl
  · exact absurd h (by simp)

/-- The rules that resolve are the nonterminals. -/
theorem exists_nonterm_iff {sc : Scope} (rule : Name) {name : Name} :
    (∃ s, nonterm sc rule name = .ok s) ↔ name ∈ sc.nonterms := by
  rw [nonterm, Scope.nonterms, ← Numbering.Table.number?_isSome_iff]
  cases sc.nontermTable.number? name with
  | none => simp
  | some i => simp

/-- The tokens that resolve are the terminals. -/
theorem exists_term_iff {sc : Scope} (rule : Name) {name : Name} :
    (∃ s, term sc rule name = .ok s) ↔ name ∈ sc.terms := by
  rw [term, Scope.terms, ← Numbering.Table.number?_isSome_iff]
  cases sc.termTable.number? name with
  | none => simp
  | some i => simp

end Lowering

/-! ## The symbols of a user's production -/

/-- A reference with what follows it: after a token the padding, after all else nothing. -/
def SymbolRef.padded (pad : List SymbolRef) : SymbolRef → List SymbolRef
  | .token name => .token name :: pad
  | ref => [ref]

@[simp] theorem SymbolRef.padded_token (pad : List SymbolRef) (name : Name) :
    (SymbolRef.token name).padded pad = .token name :: pad := rfl

@[simp] theorem SymbolRef.padded_rule (pad : List SymbolRef) (name : Name) :
    (SymbolRef.rule name).padded pad = [.rule name] := rfl

@[simp] theorem SymbolRef.padded_other (pad : List SymbolRef) (code : Int) (name : Name) :
    (SymbolRef.other code name).padded pad = [.other code name] := rfl

/-- The references of a production, each token followed by the padding. -/
def Production.padded (pad : List SymbolRef) (p : Production) : List SymbolRef :=
  p.symbols.flatMap (SymbolRef.padded pad)

/-- What follows every token: the implicit rule, if implicit tokens are woven in. -/
def SyntheticNames.padding (names : SyntheticNames) : List SymbolRef :=
  match names.woven with
  | none => []
  | some woven => [.rule woven.implicit]

/-- What the start rule derives: the user's start rule, behind implicit tokens if they are woven
in. -/
def SyntheticNames.target (names : SyntheticNames) (start : Name) : Name :=
  match names.woven with
  | none => start
  | some woven => woven.implicitStart

namespace Lowering

/-- What follows every token reads back as the implicit rule, or as nothing. -/
theorem padding_refs? {sc : Scope} {rule : Name} {pad : List Symbol}
    (h : padding sc rule = .ok pad) : sc.refs? pad = some sc.names.padding := by
  unfold padding at h
  unfold SyntheticNames.padding
  cases hw : sc.names.woven with
  | none =>
    rw [hw] at h
    obtain rfl := Except.ok.inj h
    rfl
  | some woven =>
    rw [hw] at h
    obtain ⟨s, hs, heq⟩ := bind_eq_ok_iff.mp h
    obtain rfl := Except.ok.inj heq
    exact Scope.refs?_cons (nonterm_ref? hs) rfl

/-- The symbols of one reference read back as the reference with its padding. -/
theorem symbol_refs? {sc : Scope} {rule : Name} {pad symbols : List Symbol} {ref : SymbolRef}
    {padRefs : List SymbolRef} (hpad : sc.refs? pad = some padRefs)
    (h : symbol sc rule pad ref = .ok symbols) :
    sc.refs? symbols = some (ref.padded padRefs) := by
  cases ref with
  | rule name =>
    obtain ⟨s, hs, heq⟩ := bind_eq_ok_iff.mp h
    obtain rfl := Except.ok.inj heq
    exact Scope.refs?_cons (nonterm_ref? hs) rfl
  | token name =>
    obtain ⟨s, hs, heq⟩ := bind_eq_ok_iff.mp h
    obtain rfl := Except.ok.inj heq
    exact Scope.refs?_cons (term_ref? hs) hpad
  | other code name => exact absurd h (by simp [symbol])

/-- The symbols of several references read back as these with their paddings. -/
theorem flatten_refs? {sc : Scope} {rule : Name} {pad : List Symbol} {padRefs : List SymbolRef}
    (hpad : sc.refs? pad = some padRefs) {refs : List SymbolRef} {parts : List (List Symbol)}
    (h : List.Forall₂ (fun ref symbols => symbol sc rule pad ref = .ok symbols) refs parts) :
    sc.refs? parts.flatten = some (refs.flatMap (SymbolRef.padded padRefs)) := by
  -- over the references, each of which contributes its own symbols
  induction h with
  | nil => rfl
  | cons href _ ih =>
    rw [List.flatten_cons, List.flatMap_cons]
    exact Scope.refs?_append (symbol_refs? hpad href) ih

/-- **A user's production is lowered reference by reference.** Every reference stays in its place
under its name, and the padding follows each token. -/
theorem symbols_refs? {sc : Scope} {rule : Name} {p : Production} {found : List Symbol}
    (h : symbols sc rule p = .ok found) :
    sc.refs? found = some (p.padded sc.names.padding) := by
  obtain ⟨pad, hpad, h⟩ := bind_eq_ok_iff.mp h
  obtain ⟨parts, hparts, heq⟩ := bind_eq_ok_iff.mp h
  obtain rfl := Except.ok.inj heq
  exact flatten_refs? (padding_refs? hpad) (mapM_eq_ok_iff.mp hparts)

/-! ## The productions of each sort of rule

A list of productions is *named* by the references of their symbols. -/

/-- The references of the symbols of some productions. -/
def Scope.named? (sc : Scope) (found : List Body) : Option (List (List SymbolRef)) :=
  found.mapM fun b => sc.refs? b.symbols

/-- Productions read back one by one. -/
theorem Scope.named?_eq_some_iff {sc : Scope} {found : List Body} {named : List (List SymbolRef)} :
    sc.named? found = some named ↔
      List.Forall₂ (fun b refs => sc.refs? b.symbols = some refs) found named :=
  mapM_eq_some_iff

/-- The start rule reads back as what it starts with. -/
theorem startBodies_named {sc : Scope} {found : List Body} (h : startBodies sc = .ok found) :
    sc.named? found = some [[.rule (sc.names.target sc.description.start)]] := by
  obtain ⟨s, hs, heq⟩ := bind_eq_ok_iff.mp h
  obtain rfl := Except.ok.inj heq
  have hs' : nonterm sc sc.names.start (sc.names.target sc.description.start) = .ok s := by
    rw [SyntheticNames.target]
    exact hs
  exact Scope.named?_eq_some_iff.mpr (.cons (Scope.refs?_cons (nonterm_ref? hs') rfl) .nil)

/-- The rule that lets implicit tokens come first reads back as the implicit rule and the start. -/
theorem implicitStartBodies_named {sc : Scope} {woven : ImplicitNames} {found : List Body}
    (h : implicitStartBodies sc woven = .ok found) :
    sc.named? found = some [[.rule woven.implicit, .rule sc.description.start]] := by
  obtain ⟨implicit, himplicit, h⟩ := bind_eq_ok_iff.mp h
  obtain ⟨start, hstart, heq⟩ := bind_eq_ok_iff.mp h
  obtain rfl := Except.ok.inj heq
  have hrefs : sc.refs? [implicit, start]
      = some [.rule woven.implicit, .rule sc.description.start] :=
    Scope.refs?_cons (nonterm_ref? himplicit) (Scope.refs?_cons (nonterm_ref? hstart) rfl)
  exact Scope.named?_eq_some_iff.mpr (.cons hrefs .nil)

/-- The implicit rule reads back as one implicit token or nothing. -/
theorem implicitBodies_named {sc : Scope} {woven : ImplicitNames} {found : List Body}
    (h : implicitBodies sc woven = .ok found) :
    sc.named? found
      = some ((sc.description.implicitTokens.map fun t => [SymbolRef.token t]) ++ [[]]) := by
  obtain ⟨terms, hterms, heq⟩ := bind_eq_ok_iff.mp h
  obtain rfl := Except.ok.inj heq
  rw [Scope.named?_eq_some_iff]
  have hone : List.Forall₂ (fun (b : Body) refs => sc.refs? b.symbols = some refs)
      (terms.map fun t => { symbols := [t] })
      (sc.description.implicitTokens.map fun t => [SymbolRef.token t]) := by
    rw [List.forall₂_map_left_iff, List.forall₂_map_right_iff]
    refine List.Forall₂.flip ((mapM_eq_ok_iff.mp hterms).imp ?_)
    intro name t ht
    exact Scope.refs?_cons (term_ref? ht) rfl
  exact List.rel_append hone (.cons rfl .nil)

/-- A rule of the user reads back as its padded productions. -/
theorem userBodies_named {sc : Scope} {name : Name} {found : List Body}
    (h : userBodies sc name = .ok found) :
    ∃ r, sc.description.rule? name = some r ∧
      sc.named? found = some (r.productions.map (Production.padded sc.names.padding)) := by
  unfold userBodies at h
  split at h
  · exact absurd h (by simp)
  · next r hr =>
    -- one production: its precedence does not matter for its symbols
    have hbody : ∀ p b, body sc name p = .ok b →
        sc.refs? b.symbols = some (p.padded sc.names.padding) := by
      intro p b hb
      obtain ⟨found, hfound, hb⟩ := bind_eq_ok_iff.mp hb
      obtain ⟨prec, -, heq⟩ := bind_eq_ok_iff.mp hb
      obtain rfl := Except.ok.inj heq
      exact symbols_refs? hfound
    refine ⟨r, hr, ?_⟩
    rw [Scope.named?_eq_some_iff, List.forall₂_map_right_iff]
    exact List.Forall₂.flip ((mapM_eq_ok_iff.mp h).imp hbody)

/-! ## Which sort of rule a nonterminal is -/

section Sorts

variable {sc : Scope} {found : List Body} {name : Name} {woven : ImplicitNames}

/-- The last step of `bodies`: whatever was found, there has to be a production. -/
theorem atLeastOne_eq_ok_iff {x : Except LoweringError (List Body)} {e : LoweringError} :
    (x >>= fun bs => if bs = [] then .error e else .ok bs) = .ok found ↔
      x = .ok found ∧ found ≠ [] := by
  rw [bind_eq_ok_iff]
  constructor
  · rintro ⟨bs, hbs, h⟩
    split at h
    · exact absurd h (by simp)
    · next hne =>
      obtain rfl := Except.ok.inj h
      exact ⟨hbs, hne⟩
  · rintro ⟨hx, hne⟩
    exact ⟨found, hx, if_neg hne⟩

/-- The productions of the start rule are those of its role. -/
theorem bodies_start_iff :
    bodies sc sc.names.start = .ok found ↔ startBodies sc = .ok found ∧ found ≠ [] := by
  unfold bodies
  simp only [if_true]
  exact atLeastOne_eq_ok_iff

/-- The productions of the rule that lets implicit tokens come first are those of its role. -/
theorem bodies_implicitStart_iff (hw : sc.names.woven = some woven)
    (hstart : woven.implicitStart ≠ sc.names.start) :
    bodies sc woven.implicitStart = .ok found ↔
      implicitStartBodies sc woven = .ok found ∧ found ≠ [] := by
  unfold bodies
  simp only [if_neg hstart, hw, if_true]
  exact atLeastOne_eq_ok_iff

/-- The productions of the implicit rule are those of its role. -/
theorem bodies_implicit_iff (hw : sc.names.woven = some woven)
    (hstart : woven.implicit ≠ sc.names.start) (hne : woven.implicit ≠ woven.implicitStart) :
    bodies sc woven.implicit = .ok found ↔ implicitBodies sc woven = .ok found ∧ found ≠ [] := by
  unfold bodies
  simp only [if_neg hstart, hw, if_neg hne, if_true]
  exact atLeastOne_eq_ok_iff

/-- Other names are those of rules of the user. -/
theorem bodies_user (hname : name ∉ sc.names.nonterminals) :
    bodies sc name = userBodies sc name >>= fun bs =>
      if bs = [] then .error { rule := name, reason := .noProductions } else .ok bs := by
  unfold bodies
  rw [SyntheticNames.nonterminals, List.mem_cons, not_or] at hname
  cases hw : sc.names.woven with
  | none =>
    simp only [if_neg hname.1]
  | some woven =>
    rw [hw] at hname
    have himplicit : name ≠ woven.implicit := fun h => hname.2 (by simp [h])
    have hfirst : name ≠ woven.implicitStart := fun h => hname.2 (by simp [h])
    simp only [if_neg hname.1, if_neg hfirst, if_neg himplicit]

/-- The productions of a rule of the user are its own, and there are some. -/
theorem bodies_user_iff (hname : name ∉ sc.names.nonterminals) :
    bodies sc name = .ok found ↔ userBodies sc name = .ok found ∧ found ≠ [] := by
  rw [bodies_user hname]
  exact atLeastOne_eq_ok_iff

end Sorts

/-! ## The productions of a represented description -/

namespace Scope.Represents

variable {sc : Scope} {kind : Kind} {a : Description} {found : List Body} {woven : ImplicitNames}

/-- A scope has numbered different names. -/
theorem names_nodup (hsc : sc.Represents kind a) :
    (sc.names.nonterminals ++ a.ruleNames).Nodup :=
  hsc.nonterms_perm.nodup_iff.mp hsc.nonterms_nodup

/-- A scope has numbered rules of different names. -/
theorem ruleNames_nodup (hsc : sc.Represents kind a) : a.ruleNames.Nodup :=
  hsc.names_nodup.of_append_right

/-- A rule of the user is none of the synthetic ones. -/
theorem notMem_nonterminals (hsc : sc.Represents kind a) {name : Name} (h : name ∈ a.ruleNames) :
    name ∉ sc.names.nonterminals :=
  fun hmem => List.disjoint_of_nodup_append hsc.names_nodup hmem h

/-- Nonterminals are the synthetic rules and those of the user. -/
theorem mem_nonterms_iff (hsc : sc.Represents kind a) {name : Name} :
    name ∈ sc.nonterms ↔ name ∈ sc.names.nonterminals ∨ name ∈ a.ruleNames := by
  rw [hsc.nonterms_perm.mem_iff, List.mem_append]

/-- The start rule is a nonterminal. -/
theorem start_mem (hsc : sc.Represents kind a) : sc.names.start ∈ sc.nonterms :=
  hsc.mem_nonterms_iff.mpr (.inl List.mem_cons_self)

/-- The implicit rule is a nonterminal. -/
theorem implicit_mem (hsc : sc.Represents kind a) (hw : sc.names.woven = some woven) :
    woven.implicit ∈ sc.nonterms :=
  hsc.mem_nonterms_iff.mpr (.inl (by simp [SyntheticNames.nonterminals, hw]))

/-- The rule that lets implicit tokens come first is a nonterminal. -/
theorem implicitStart_mem (hsc : sc.Represents kind a) (hw : sc.names.woven = some woven) :
    woven.implicitStart ∈ sc.nonterms :=
  hsc.mem_nonterms_iff.mpr (.inl (by simp [SyntheticNames.nonterminals, hw]))

/-- The synthetic nonterminals of a scope have three different names. -/
theorem woven_ne (hsc : sc.Represents kind a) (hw : sc.names.woven = some woven) :
    woven.implicit ≠ sc.names.start ∧ woven.implicitStart ≠ sc.names.start ∧
      woven.implicit ≠ woven.implicitStart :=
  SyntheticNames.woven_ne hsc.names_nodup.of_append_left hw

/-- A rule is found by its name. -/
theorem rule?_eq_some (hsc : sc.Represents kind a) {r : Rule} (hr : r ∈ a.rules) :
    a.rule? r.name = some r :=
  (Description.rule?_eq_some_iff hsc.ruleNames_nodup).mpr ⟨hr, rfl⟩

/-- What the start rule of a represented description reads back as. -/
theorem start_named (hsc : sc.Represents kind a) (h : bodies sc sc.names.start = .ok found) :
    sc.named? found = some [[.rule (sc.names.target a.start)]] := by
  have := startBodies_named (bodies_start_iff.mp h).1
  rwa [hsc.description_eq] at this

/-- What the rule that lets implicit tokens come first reads back as. -/
theorem implicitStart_named (hsc : sc.Represents kind a) (hw : sc.names.woven = some woven)
    (h : bodies sc woven.implicitStart = .ok found) :
    sc.named? found = some [[.rule woven.implicit, .rule a.start]] := by
  obtain ⟨-, hstart, -⟩ := hsc.woven_ne hw
  have := implicitStartBodies_named ((bodies_implicitStart_iff hw hstart).mp h).1
  rwa [hsc.description_eq] at this

/-- What the implicit rule of a represented description reads back as. -/
theorem implicit_named (hsc : sc.Represents kind a) (hw : sc.names.woven = some woven)
    (h : bodies sc woven.implicit = .ok found) :
    sc.named? found = some ((a.implicitTokens.map fun t => [SymbolRef.token t]) ++ [[]]) := by
  obtain ⟨hstart, -, hne⟩ := hsc.woven_ne hw
  have := implicitBodies_named ((bodies_implicit_iff hw hstart hne).mp h).1
  rwa [hsc.description_eq] at this

/-- What a rule of the user reads back as. -/
theorem user_named (hsc : sc.Represents kind a) {r : Rule} (hr : r ∈ a.rules)
    (h : bodies sc r.name = .ok found) :
    sc.named? found = some (r.productions.map (Production.padded sc.names.padding)) := by
  have hname := hsc.notMem_nonterminals (List.mem_map_of_mem hr)
  obtain ⟨r', hr', hnamed⟩ := userBodies_named ((bodies_user_iff hname).mp h).1
  rw [hsc.description_eq, hsc.rule?_eq_some hr] at hr'
  obtain rfl := Option.some.inj hr'
  exact hnamed

end Scope.Represents

end Lowering

/-! ## Lowering as a whole -/

namespace Description

/-- A description is lowered exactly if its names can be numbered and each nonterminal has its
productions; the grammar is assembled from these. -/
theorem lowerWith_eq_ok_iff {fold : Bytes → Bytes} {kind : Kind} {a : Description} {g : Grammar} :
    a.lowerWith fold kind = .ok g ↔
      ∃ sc groups, Lowering.scope fold kind a = .ok sc ∧
        List.Forall₂ (fun name found => Lowering.bodies sc name = .ok found) sc.nonterms groups ∧
        Lowering.grammar kind sc groups = g := by
  unfold lowerWith
  rw [bind_eq_ok_iff]
  constructor
  · rintro ⟨sc, hsc, h⟩
    obtain ⟨groups, hgroups, heq⟩ := bind_eq_ok_iff.mp h
    exact ⟨sc, groups, hsc, mapM_eq_ok_iff.mp hgroups, Except.ok.inj heq⟩
  · rintro ⟨sc, groups, hsc, hgroups, rfl⟩
    exact ⟨sc, hsc, bind_eq_ok_iff.mpr ⟨groups, mapM_eq_ok_iff.mpr hgroups, rfl⟩⟩

end Description

end YaccTables
