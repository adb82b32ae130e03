import Mathlib.Logic.Relation
import Mathlib.Data.Set.Defs
import YaccTables.Proofs.Translation

/-!
# Derivations and the language of a grammar

A grammar rewrites symbols: a nonterminal may be replaced by the symbols of one of its productions
(`Grammar.Produces`). Its language is the set of all words of terminals, written by name, that the
start rule can be rewritten to (`Grammar.language`).

Proofs about languages go by name and from the inside out: `Yields R refs w` says that the
references `refs` yield the word `w`, one rule `R` for each nonterminal. For a translated grammar
both views agree (`mem_language_iff_yields`), so that grammars whose numbers differ can be compared.
-/

namespace YaccTables

/-! ## Rewriting numbered symbols -/

namespace Grammar

/-- One step: some nonterminal is replaced by the symbols of one of its productions. -/
def Produces (g : Grammar) (u v : List Symbol) : Prop :=
  ∃ p ∈ g.productions, ∃ pre post,
    u = pre ++ [.nonterminal p.rule] ++ post ∧ v = pre ++ p.symbols ++ post

/-- Any number of steps. -/
def Derives (g : Grammar) : List Symbol → List Symbol → Prop := Relation.ReflTransGen g.Produces

/-- The words, by name, that can be derived from the start rule. -/
def language (g : Grammar) : Set (List Name) :=
  {w | ∃ ts : List TermIdx, g.Derives [.nonterminal g.startRule] (ts.map .terminal) ∧
    ts.mapM g.termName? = some w}

variable {g : Grammar}

theorem Produces.append {u v : List Symbol} (h : g.Produces u v) (pre post : List Symbol) :
    g.Produces (pre ++ u ++ post) (pre ++ v ++ post) := by
  obtain ⟨p, hp, l, r, rfl, rfl⟩ := h
  exact ⟨p, hp, pre ++ l, r ++ post, by simp, by simp⟩

/-- Derivations can be made one after the other. -/
theorem Derives.trans {u v w : List Symbol} (huv : g.Derives u v) (hvw : g.Derives v w) :
    g.Derives u w :=
  Relation.ReflTransGen.trans huv hvw

/-- Symbols before and behind can be kept in a derivation. -/
theorem Derives.append_context {u v : List Symbol} (h : g.Derives u v) (pre post : List Symbol) :
    g.Derives (pre ++ u ++ post) (pre ++ v ++ post) := by
  induction h with
  | refl => exact Relation.ReflTransGen.refl
  | tail _ hlast ih => exact Relation.ReflTransGen.tail ih (hlast.append pre post)

/-- Two parts can be derived from each on its own. -/
theorem Derives.append {u u' v v' : List Symbol} (hu : g.Derives u u') (hv : g.Derives v v') :
    g.Derives (u ++ v) (u' ++ v') := by
  -- first the left part, then the right one
  have h1 := hu.append_context [] v
  have h2 := hv.append_context u' []
  simp only [List.nil_append, List.append_nil] at h1 h2
  exact h1.trans h2

/-- A nonterminal derives what the symbols of one of its productions derive. -/
theorem Derives.of_production {p : IndexedProduction} (hp : p ∈ g.productions) {v : List Symbol}
    (h : g.Derives p.symbols v) : g.Derives [.nonterminal p.rule] v :=
  Relation.ReflTransGen.head ⟨p, hp, [], [], by simp, by simp⟩ h

end Grammar

/-! ## Words of named references -/

/-- The references yield the word: each token itself, each rule what one of its productions
yields. -/
inductive Yields (R : Name → List SymbolRef → Prop) : List SymbolRef → List Name → Prop where
  | nil : Yields R [] []
  | token {name : Name} {refs : List SymbolRef} {w : List Name} (h : Yields R refs w) :
      Yields R (.token name :: refs) (name :: w)
  | rule {name : Name} {refs body : List SymbolRef} {u v : List Name} (hrule : R name body)
      (hbody : Yields R body u) (h : Yields R refs v) :
      Yields R (.rule name :: refs) (u ++ v)

namespace Yields

variable {R : Name → List SymbolRef → Prop}

/-- Two parts yield what each of them yields. -/
theorem append {xs ys : List SymbolRef} {u v : List Name} (hx : Yields R xs u)
    (hy : Yields R ys v) : Yields R (xs ++ ys) (u ++ v) := by
  induction hx with
  | nil => exact hy
  | token _ ih => exact .token ih
  | rule hrule hbody _ _ ih =>
    rw [List.cons_append, List.append_assoc]
    exact .rule hrule hbody ih

/-- What two parts yield falls apart into what each of them yields. -/
theorem exists_of_append {xs ys : List SymbolRef} {w : List Name} (h : Yields R (xs ++ ys) w) :
    ∃ u v, w = u ++ v ∧ Yields R xs u ∧ Yields R ys v := by
  induction xs generalizing w with
  | nil => exact ⟨[], w, rfl, .nil, h⟩
  | cons x xs ih =>
    cases h with
    | token hrest =>
      obtain ⟨u, v, rfl, hu, hv⟩ := ih hrest
      exact ⟨_ :: u, v, rfl, .token hu, hv⟩
    | @rule _ _ _ u₁ _ hrule hbody hrest =>
      obtain ⟨u, v, rfl, hu, hv⟩ := ih hrest
      exact ⟨u₁ ++ u, v, (List.append_assoc u₁ u v).symm, .rule hrule hbody hu, hv⟩

/-- A rule yields what one of its bodies yields. -/
theorem rule_iff {name : Name} {w : List Name} :
    Yields R [.rule name] w ↔ ∃ body, R name body ∧ Yields R body w := by
  constructor
  · intro h
    cases h with
    | rule hrule hbody hrest =>
      cases hrest
      rw [List.append_nil]
      exact ⟨_, hrule, hbody⟩
  · rintro ⟨body, hrule, hbody⟩
    have := Yields.rule hrule hbody .nil
    rwa [List.append_nil] at this

/-- Tokens yield their names. -/
theorem tokens (names : List Name) : Yields R (names.map .token) names := by
  induction names with
  | nil => exact .nil
  | cons name names ih => exact .token ih

end Yields

/-! ## The two views agree -/

namespace Grammar

/-- The nonterminal of a name has a production with these references. -/
def HasRule (g : Grammar) (name : Name) (refs : List SymbolRef) : Prop :=
  ∃ named, g.namedProds? name = some named ∧ refs ∈ named

namespace Translates

variable {g : Grammar} {kind : Kind} {a : Description}

/-- The productions of every nonterminal read back. -/
theorem exists_namedProds (ht : g.Translates kind a) {name : Name}
    (hname : name ∈ g.nonterminals.map Nonterminal.name) :
    ∃ named, g.namedProds? name = some named := by
  rcases List.mem_append.mp (ht.nonterminal_names.mem_iff.mp hname) with hsyn | huser
  · rcases List.mem_cons.mp hsyn with rfl | hsyn
    · exact ⟨_, ht.start_prods⟩
    · cases hw : (a.syntheticNames kind).woven with
      | none => simp [hw] at hsyn
      | some woven =>
        simp only [hw, List.mem_cons, List.not_mem_nil, or_false] at hsyn
        rcases hsyn with rfl | rfl
        · exact ⟨_, ht.implicit_prods woven hw⟩
        · exact ⟨_, ht.implicitStart_prods woven hw⟩
  · obtain ⟨r, hr, rfl⟩ := List.mem_map.mp huser
    exact ⟨_, ht.user_prods r hr⟩

/-- An index found by name has this name. -/
theorem nontermName?_of_nontermIdx? {name : Name} {i : NontermIdx}
    (h : g.nontermIdx? name = some i) : g.nontermName? i = some name := by
  obtain ⟨j, hj, rfl⟩ := Option.map_eq_some_iff.mp h
  obtain ⟨hlt, hname, -⟩ := List.findIdx?_eq_some_iff_getElem.mp hj
  rw [nontermName?, nonterminal?, List.getElem?_eq_getElem hlt, Option.map_some,
    eq_of_beq hname]

/-- A name has one index. -/
theorem nontermIdx_unique (ht : g.Translates kind a) {name : Name} {i j : NontermIdx}
    (hi : g.nontermName? i = some name) (hj : g.nontermName? j = some name) : i = j := by
  rw [← nontermIdx?_eq_some_iff ht.names_nodup] at hi hj
  exact Option.some.inj (hi.symm.trans hj)

/-- Only a terminal reads back as a token. -/
theorem eq_terminal_of_ref? {s : Symbol} {name : Name} (h : g.ref? s = some (.token name)) :
    ∃ t, s = .terminal t ∧ g.termName? t = some name := by
  cases s with
  | terminal t =>
    obtain ⟨n, hn, heq⟩ := Option.map_eq_some_iff.mp h
    exact ⟨t, rfl, SymbolRef.token.inj heq ▸ hn⟩
  | nonterminal n =>
    obtain ⟨n, hn, heq⟩ := Option.map_eq_some_iff.mp h
    exact absurd heq (by simp [Symbol.isTerminal])

/-- Only a nonterminal reads back as a rule. -/
theorem eq_nonterminal_of_ref? {s : Symbol} {name : Name} (h : g.ref? s = some (.rule name)) :
    ∃ n, s = .nonterminal n ∧ g.nontermName? n = some name := by
  cases s with
  | terminal t =>
    obtain ⟨n, hn, heq⟩ := Option.map_eq_some_iff.mp h
    exact absurd heq (by simp [Symbol.isTerminal])
  | nonterminal i =>
    obtain ⟨n, hn, heq⟩ := Option.map_eq_some_iff.mp h
    exact ⟨i, rfl, SymbolRef.rule.inj heq ▸ hn⟩

/-- A rule that was read back comes from a production. -/
theorem exists_production (ht : g.Translates kind a) {name : Name} {refs : List SymbolRef}
    (h : g.HasRule name refs) : ∃ p ∈ g.productions, g.nontermName? p.rule = some name ∧
      p.symbols.mapM g.ref? = some refs := by
  obtain ⟨named, hnamed, hmem⟩ := h
  obtain ⟨i, hi, hnamed⟩ := Option.bind_eq_some_iff.mp hnamed
  obtain ⟨prods, hprods, hnamed⟩ := Option.bind_eq_some_iff.mp hnamed
  -- find the index that the references were read from
  obtain ⟨k, hk, hkrefs⟩ := exists_mem_of_forall₂ (mapM_eq_some_iff.mp hnamed).flip hmem
  obtain ⟨symbols, hsymbols, hrefs⟩ := Option.bind_eq_some_iff.mp hkrefs
  obtain ⟨p, hp, rfl⟩ := Option.map_eq_some_iff.mp hsymbols
  have hrule : g.prodRule? k = some i := (ht.prodRule?_iff k i).mpr ⟨prods, hprods, hk⟩
  rw [prodRule?, hp, Option.map_some, Option.some.injEq] at hrule
  refine ⟨p, List.mem_of_getElem? hp, ?_, hrefs⟩
  rw [hrule]
  exact nontermName?_of_nontermIdx? hi

/-- Every production reads back as a rule. -/
theorem exists_hasRule (ht : g.Translates kind a) {p : IndexedProduction}
    (hp : p ∈ g.productions) : ∃ name refs, g.nontermName? p.rule = some name ∧
      p.symbols.mapM g.ref? = some refs ∧ g.HasRule name refs := by
  obtain ⟨k, hlt, hget⟩ := List.mem_iff_getElem.mp hp
  have hk : g.production? ⟨k⟩ = some p := by rw [production?, List.getElem?_eq_getElem hlt, hget]
  have hrule : g.prodRule? ⟨k⟩ = some p.rule := by
    rw [prodRule?, hk]
    rfl
  -- the nonterminal of the production lists it, and all that it lists reads back
  obtain ⟨prods, hprods, hmem⟩ := (ht.prodRule?_iff ⟨k⟩ p.rule).mp hrule
  obtain ⟨nt, hnt, rfl⟩ := Option.map_eq_some_iff.mp hprods
  have hname : g.nontermName? p.rule = some nt.name := by
    rw [nontermName?, hnt]
    rfl
  obtain ⟨named, hnamed⟩ := ht.exists_namedProds
    (List.mem_map_of_mem (List.mem_of_getElem? hnt))
  have hread := hnamed
  obtain ⟨i, hi, hnamed⟩ := Option.bind_eq_some_iff.mp hnamed
  obtain ⟨prods', hprods', hnamed⟩ := Option.bind_eq_some_iff.mp hnamed
  obtain rfl := ht.nontermIdx_unique (nontermName?_of_nontermIdx? hi) hname
  rw [hprods, Option.some.injEq] at hprods'
  subst hprods'
  obtain ⟨refs, hrefs, hkrefs⟩ := exists_mem_of_forall₂ (mapM_eq_some_iff.mp hnamed) hmem
  rw [prodRefs?, prodSymbols?, hk] at hkrefs
  exact ⟨nt.name, refs, hname, hkrefs, named, hread, hrefs⟩

/-- What the references yield by name, the symbols behind them derive by number. -/
theorem exists_derives (ht : g.Translates kind a) {refs : List SymbolRef} {w : List Name}
    (h : Yields g.HasRule refs w) {symbols : List Symbol} (hs : symbols.mapM g.ref? = some refs) :
    ∃ ts : List TermIdx, g.Derives symbols (ts.map .terminal) ∧ ts.mapM g.termName? = some w := by
  -- over the yield, with a production found for each rule used
  induction h generalizing symbols with
  | nil =>
    obtain rfl := List.forall₂_nil_right_iff.mp (mapM_eq_some_iff.mp hs)
    exact ⟨[], Relation.ReflTransGen.refl, rfl⟩
  | @token name refs w _ ih =>
    obtain ⟨s, rest, hfirst, hrest, rfl⟩ :=
      List.forall₂_cons_right_iff.mp (mapM_eq_some_iff.mp hs)
    obtain ⟨t, rfl, ht'⟩ := eq_terminal_of_ref? hfirst
    obtain ⟨ts, hder, hts⟩ := ih (mapM_eq_some_iff.mpr hrest)
    refine ⟨t :: ts, ?_, ?_⟩
    · exact Derives.append (u := [.terminal t]) Relation.ReflTransGen.refl hder
    · rw [List.mapM_cons, ht', hts]
      rfl
  | @rule name refs body u v hrule _ _ ihbody ih =>
    obtain ⟨s, rest, hfirst, hrest, rfl⟩ :=
      List.forall₂_cons_right_iff.mp (mapM_eq_some_iff.mp hs)
    obtain ⟨n, rfl, hn⟩ := eq_nonterminal_of_ref? hfirst
    obtain ⟨p, hp, hname, hbody⟩ := ht.exists_production hrule
    obtain rfl := ht.nontermIdx_unique hname hn
    obtain ⟨us, hu, hus⟩ := ihbody hbody
    obtain ⟨vs, hv, hvs⟩ := ih (mapM_eq_some_iff.mpr hrest)
    refine ⟨us ++ vs, ?_, ?_⟩
    · rw [List.map_append]
      exact Derives.append (u := [.nonterminal p.rule]) (Derives.of_production hp hu) hv
    · rw [List.mapM_append, hus, hvs]
      rfl

/-- Terminals read back as tokens of their names. -/
theorem mapM_ref?_terminals {ts : List TermIdx} {w : List Name}
    (h : ts.mapM g.termName? = some w) :
    (ts.map Symbol.terminal).mapM g.ref? = some (w.map .token) := by
  refine mapM_eq_some_iff.mpr ?_
  rw [List.forall₂_map_left_iff, List.forall₂_map_right_iff]
  refine (mapM_eq_some_iff.mp h).imp ?_
  intro t name hname
  rw [ref?, symbolName?, hname]
  rfl

/-- One step backwards: if the result of the step yields a word, so does what it started from. -/
theorem yields_of_produces (ht : g.Translates kind a) {u v : List Symbol} (hstep : g.Produces u v)
    {w : List Name}
    (ih : ∀ refs, v.mapM g.ref? = some refs → Yields g.HasRule refs w) {refs : List SymbolRef}
    (hu : u.mapM g.ref? = some refs) : Yields g.HasRule refs w := by
  obtain ⟨p, hp, pre, post, rfl, rfl⟩ := hstep
  obtain ⟨name, body, hname, hbody, hrule⟩ := ht.exists_hasRule hp
  rw [List.mapM_append, List.mapM_append] at hu
  simp only [Option.bind_eq_bind, Option.bind_eq_some_iff, Option.pure_def,
    Option.some.injEq] at hu
  obtain ⟨-, ⟨before, hbefore, middle, hmiddle, rfl⟩, behind, hbehind, rfl⟩ := hu
  -- the replaced nonterminal reads back as the rule whose body replaces it
  have hmid : middle = [.rule name] := by
    rw [mapM_eq_some_iff, List.forall₂_cons_left_iff] at hmiddle
    obtain ⟨ref, rest, href, hrest, rfl⟩ := hmiddle
    obtain rfl := List.forall₂_nil_left_iff.mp hrest
    rw [ref?, symbolName?, hname] at href
    rw [← Option.some.inj href]
    rfl
  subst hmid
  have hv : (pre ++ p.symbols ++ post).mapM g.ref? = some (before ++ body ++ behind) := by
    rw [List.mapM_append, List.mapM_append, hbefore, hbody, hbehind]
    rfl
  obtain ⟨front, w₃, rfl, hfront, hw₃⟩ := (ih _ hv).exists_of_append
  obtain ⟨w₁, w₂, rfl, hw₁, hw₂⟩ := hfront.exists_of_append
  exact (hw₁.append (Yields.rule_iff.mpr ⟨body, hrule, hw₂⟩)).append hw₃

/-- What symbols derive by number, the references behind them yield by name. -/
theorem yields_of_derives (ht : g.Translates kind a) {symbols : List Symbol} {ts : List TermIdx}
    (h : g.Derives symbols (ts.map .terminal)) {w : List Name}
    (hw : ts.mapM g.termName? = some w) {refs : List SymbolRef}
    (hs : symbols.mapM g.ref? = some refs) : Yields g.HasRule refs w := by
  -- backwards from the last word of the derivation
  induction h using Relation.ReflTransGen.head_induction_on generalizing refs with
  | refl =>
    rw [mapM_ref?_terminals hw, Option.some.injEq] at hs
    rw [← hs]
    exact Yields.tokens w
  | head hstep _ ih => exact ht.yields_of_produces hstep (fun _ hv => ih hv) hs

/-- The start rule reads back under its synthetic name. -/
theorem mapM_ref?_startRule (ht : g.Translates kind a) :
    [Symbol.nonterminal g.startRule].mapM g.ref?
      = some [.rule (a.syntheticNames kind).start] := by
  refine mapM_eq_some_iff.mpr (.cons ?_ .nil)
  rw [ref?, symbolName?, nontermName?_of_nontermIdx? ht.startRule_eq]
  rfl

/-- **A word is in the language exactly if the start rule yields it by name.** -/
theorem mem_language_iff_yields (ht : g.Translates kind a) (w : List Name) :
    w ∈ g.language ↔ Yields g.HasRule [.rule (a.syntheticNames kind).start] w := by
  constructor
  · rintro ⟨ts, hder, hts⟩
    exact ht.yields_of_derives hder hts ht.mapM_ref?_startRule
  · intro h
    exact ht.exists_derives h ht.mapM_ref?_startRule

end Translates

end Grammar

end YaccTables
