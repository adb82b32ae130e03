import YaccTables.Proofs.Derivation

/-!
# What weaving in implicit tokens means

An `eco` grammar with implicit tokens accepts the words of the plain grammar with at most one
implicit token before the first token and at most one behind each token (`Interleaves`), and no
other words.

The two grammars are lowered from one description, with different synthetic rules and different
numbers. Both are compared with what the user's rules alone yield (`Description.UserRule`):

* in the plain grammar the start rule yields what the user's start rule yields
  (`yields_plain_iff`);
* in the woven grammar each token of a user's production is followed by the implicit rule, which
  yields one implicit token or nothing (`spread_of_yields`, `yields_of_spread`).
-/

namespace YaccTables

/-! ## Words with gaps -/

/-- The second word is the first one with at most one implicit token behind each of its tokens. -/
inductive Spread (implicit : List Name) : List Name → List Name → Prop where
  | nil : Spread implicit [] []
  | cons (t : Name) (gap : Option Name) {ts w : List Name} (hgap : ∀ i ∈ gap, i ∈ implicit)
      (h : Spread implicit ts w) : Spread implicit (t :: ts) (t :: (gap.toList ++ w))

/-- The second word is the first one with at most one implicit token before its first token and at
most one behind each of its tokens. -/
def Interleaves (implicit ts w : List Name) : Prop :=
  ∃ (first : Option Name) (rest : List Name), (∀ i ∈ first, i ∈ implicit) ∧
    Spread implicit ts rest ∧ w = first.toList ++ rest

namespace Spread

variable {implicit : List Name}

/-- Words can be spread part by part. -/
theorem append {ts us v w : List Name} (h : Spread implicit ts v) (h' : Spread implicit us w) :
    Spread implicit (ts ++ us) (v ++ w) := by
  induction h with
  | nil => exact h'
  | cons t gap hgap _ ih =>
    rw [List.cons_append, List.cons_append, List.append_assoc]
    exact .cons t gap hgap ih

/-- A spread word falls apart into what its parts are spread into. -/
theorem exists_of_append {ts us w : List Name} (h : Spread implicit (ts ++ us) w) :
    ∃ v v', w = v ++ v' ∧ Spread implicit ts v ∧ Spread implicit us v' := by
  induction ts generalizing w with
  | nil => exact ⟨[], w, rfl, .nil, h⟩
  | cons t ts ih =>
    cases h with
    | cons _ gap hgap hrest =>
      obtain ⟨v, v', rfl, hv, hv'⟩ := ih hrest
      refine ⟨t :: (gap.toList ++ v), v', ?_, .cons t gap hgap hv, hv'⟩
      rw [List.cons_append, List.append_assoc]

end Spread

/-! ## The user's rules alone -/

namespace Description

/-- A production as the user wrote it. -/
def UserRule (a : Description) (name : Name) (refs : List SymbolRef) : Prop :=
  ∃ r ∈ a.rules, r.name = name ∧ ∃ p ∈ r.productions, p.symbols = refs

instance (a : Description) (name : Name) (refs : List SymbolRef) :
    Decidable (a.UserRule name refs) :=
  inferInstanceAs (Decidable (∃ r ∈ a.rules, r.name = name ∧ ∃ p ∈ r.productions, p.symbols = refs))

/-- The references to rules are to rules of the description. -/
def Refers (a : Description) (refs : List SymbolRef) : Prop :=
  ∀ name, SymbolRef.rule name ∈ refs → name ∈ a.ruleNames

/-- The first of valid references is to a rule that is there. -/
theorem Refers.head {a : Description} {name : Name} {refs : List SymbolRef}
    (h : a.Refers (.rule name :: refs)) : name ∈ a.ruleNames :=
  h name List.mem_cons_self

/-- The rest of valid references is valid. -/
theorem Refers.tail {a : Description} {ref : SymbolRef} {refs : List SymbolRef}
    (h : a.Refers (ref :: refs)) : a.Refers refs :=
  fun name hname => h name (List.mem_cons_of_mem ref hname)

/-- The symbols of a valid description refer to what is there. -/
theorem Valid.refers {a : Description} (hv : a.Valid) {r : Rule} (hr : r ∈ a.rules)
    {p : Production} (hp : p ∈ r.productions) : a.Refers p.symbols :=
  hv.rule_mem r hr p hp

/-- The start rule of a valid description is there. -/
theorem Valid.refers_start {a : Description} (hv : a.Valid) : a.Refers [.rule a.start] := by
  intro name hname
  rw [List.mem_singleton, SymbolRef.rule.injEq] at hname
  exact hname ▸ hv.start_mem

end Description

namespace Grammar

/-- The rules of a nonterminal are what its productions read back as. -/
theorem hasRule_iff {g : Grammar} {name : Name} {named : List (List SymbolRef)}
    (h : g.namedProds? name = some named) {refs : List SymbolRef} :
    g.HasRule name refs ↔ refs ∈ named := by
  constructor
  · rintro ⟨named', h', hmem⟩
    rw [h, Option.some.injEq] at h'
    exact h' ▸ hmem
  · intro hmem
    exact ⟨named, h, hmem⟩

namespace Translates

variable {g : Grammar} {kind : Kind} {a : Description} {woven : ImplicitNames}

/-- The rules of the user are the padded productions. -/
theorem hasRule_user_iff (ht : g.Translates kind a) {name : Name} (hname : name ∈ a.ruleNames)
    {refs : List SymbolRef} :
    g.HasRule name refs ↔ ∃ r ∈ a.rules, r.name = name ∧
      ∃ p ∈ r.productions, p.padded (a.syntheticNames kind).padding = refs := by
  have hnd : a.ruleNames.Nodup :=
    (ht.nonterminal_names.nodup_iff.mp ht.names_nodup).of_append_right
  obtain ⟨r, hr, rfl⟩ := List.mem_map.mp hname
  rw [hasRule_iff (ht.user_prods r hr), List.mem_map]
  constructor
  · rintro ⟨p, hp, rfl⟩
    exact ⟨r, hr, rfl, p, hp, rfl⟩
  · rintro ⟨r', hr', hname', p, hp, rfl⟩
    obtain rfl := List.inj_on_of_nodup_map hnd hr' hr hname'
    exact ⟨p, hp, rfl⟩

/-- The start rule yields what its target yields. -/
theorem yields_start_iff (ht : g.Translates kind a) {w : List Name} :
    Yields g.HasRule [.rule (a.syntheticNames kind).start] w ↔
      Yields g.HasRule [.rule ((a.syntheticNames kind).target a.start)] w := by
  rw [Yields.rule_iff]
  constructor
  · rintro ⟨body, hrule, hbody⟩
    rw [hasRule_iff ht.start_prods, List.mem_singleton] at hrule
    rwa [hrule] at hbody
  · intro h
    exact ⟨_, (hasRule_iff ht.start_prods).mpr List.mem_cons_self, h⟩

/-! ## The plain grammar -/

theorem padded_nil (p : Production) : p.padded [] = p.symbols := by
  have hone : SymbolRef.padded [] = fun ref => [ref] := by
    funext ref
    cases ref with
    | rule name => rfl
    | token name => rfl
    | other code name => rfl
  rw [Production.padded, hone, List.flatMap_singleton']

/-- Without implicit tokens a grammar yields what the rules of the user yield. -/
theorem yields_plain_iff (ht : g.Translates kind a) (hv : a.Valid)
    (hw : (a.syntheticNames kind).woven = none) {refs : List SymbolRef} (hrefs : a.Refers refs)
    {w : List Name} : Yields g.HasRule refs w ↔ Yields a.UserRule refs w := by
  have hpad : (a.syntheticNames kind).padding = [] := by rw [SyntheticNames.padding, hw]
  constructor
  · intro h
    induction h with
    | nil => exact .nil
    | token _ ih => exact .token (ih hrefs.tail)
    | rule hrule _ _ ihbody ih =>
      obtain ⟨r, hr, hname, p, hp, hbody⟩ := (ht.hasRule_user_iff hrefs.head).mp hrule
      rw [hpad, padded_nil] at hbody
      subst hbody
      exact .rule ⟨r, hr, hname, p, hp, rfl⟩ (ihbody (hv.refers hr hp)) (ih hrefs.tail)
  · intro h
    induction h with
    | nil => exact .nil
    | token _ ih => exact .token (ih hrefs.tail)
    | rule hrule _ _ ihbody ih =>
      obtain ⟨r, hr, hname, p, hp, rfl⟩ := hrule
      refine .rule ((ht.hasRule_user_iff hrefs.head).mpr ⟨r, hr, hname, p, hp, ?_⟩)
        (ihbody (hv.refers hr hp)) (ih hrefs.tail)
      rw [hpad, padded_nil]

/-! ## The woven grammar -/

/-- The implicit rule yields one implicit token or nothing. -/
theorem yields_implicit_iff (ht : g.Translates kind a)
    (hw : (a.syntheticNames kind).woven = some woven) {w : List Name} :
    Yields g.HasRule [.rule woven.implicit] w ↔
      ∃ gap : Option Name, (∀ i ∈ gap, i ∈ a.implicitTokens) ∧ w = gap.toList := by
  rw [Yields.rule_iff]
  simp only [hasRule_iff (ht.implicit_prods woven hw), List.mem_append, List.mem_map,
    List.mem_singleton]
  constructor
  · rintro ⟨body, ⟨t, hmem, rfl⟩ | rfl, hbody⟩
    · cases hbody with
      | token hrest =>
        cases hrest
        exact ⟨some t, by simpa using hmem, rfl⟩
    · cases hbody
      exact ⟨none, by simp, rfl⟩
  · rintro ⟨gap, hgap, rfl⟩
    cases gap with
    | none => exact ⟨[], .inr rfl, .nil⟩
    | some t => exact ⟨[.token t], .inl ⟨t, hgap t rfl, rfl⟩, .token .nil⟩

/-- With implicit tokens every token is followed by the implicit rule. -/
theorem padding_woven (hw : (a.syntheticNames kind).woven = some woven) :
    (a.syntheticNames kind).padding = [.rule woven.implicit] := by
  rw [SyntheticNames.padding, hw]

/-- **Soundness of weaving.** What padded references yield is a spread of what the user's rules
yield. Induction over the yield; since a token and the implicit rule behind it are two steps of it,
the statement has a second half for references that the implicit rule stands before. -/
theorem spread_of_yields (ht : g.Translates kind a) (hv : a.Valid)
    (hw : (a.syntheticNames kind).woven = some woven) {symbols : List SymbolRef} {w : List Name}
    (h : Yields g.HasRule symbols w) :
    (∀ refs, a.Refers refs →
      symbols = refs.flatMap (SymbolRef.padded [.rule woven.implicit]) →
        ∃ ts, Yields a.UserRule refs ts ∧ Spread a.implicitTokens ts w) ∧
    (∀ refs, a.Refers refs →
      symbols = .rule woven.implicit :: refs.flatMap (SymbolRef.padded [.rule woven.implicit]) →
        ∃ ts, Yields a.UserRule refs ts ∧ Interleaves a.implicitTokens ts w) := by
  induction h with
  | nil =>
    refine ⟨?_, ?_⟩
    · intro refs _ hsymbols
      cases refs with
      | nil => exact ⟨[], .nil, .nil⟩
      | cons ref refs => cases ref <;> simp at hsymbols
    · intro refs _ hsymbols
      simp at hsymbols
  | @token name rest w _ ih =>
    refine ⟨?_, ?_⟩
    · intro refs hrefs hsymbols
      -- the padded references start with this token, so the implicit rule stands behind it
      cases refs with
      | nil => simp at hsymbols
      | cons ref refs =>
        cases ref with
        | rule n => simp at hsymbols
        | other code n => simp at hsymbols
        | token n =>
          simp only [SymbolRef.padded_token, List.flatMap_cons, List.cons_append, List.nil_append,
            List.cons.injEq, SymbolRef.token.injEq] at hsymbols
          obtain ⟨rfl, hrest⟩ := hsymbols
          obtain ⟨ts, hts, gap, w', hgap, hspread, rfl⟩ := ih.2 refs hrefs.tail hrest
          exact ⟨name :: ts, .token hts, .cons name gap hgap hspread⟩
    · intro refs _ hsymbols
      simp at hsymbols
  | @rule name rest body u v hrule hbody _ ihbody ih =>
    refine ⟨?_, ?_⟩
    · intro refs hrefs hsymbols
      cases refs with
      | nil => simp at hsymbols
      | cons ref refs =>
        cases ref with
        | token n => simp at hsymbols
        | other code n => simp at hsymbols
        | rule n =>
          simp only [SymbolRef.padded_rule, List.flatMap_cons, List.cons_append, List.nil_append,
            List.cons.injEq, SymbolRef.rule.injEq] at hsymbols
          obtain ⟨rfl, hrest⟩ := hsymbols
          obtain ⟨r, hr, hname, p, hp, hpadded⟩ := (ht.hasRule_user_iff hrefs.head).mp hrule
          rw [padding_woven hw, Production.padded] at hpadded
          obtain ⟨us, hus, huspread⟩ := ihbody.1 p.symbols (hv.refers hr hp) hpadded.symm
          obtain ⟨vs, hvs, hvspread⟩ := ih.1 refs hrefs.tail hrest
          exact ⟨us ++ vs, .rule ⟨r, hr, hname, p, hp, rfl⟩ hus hvs, huspread.append hvspread⟩
    · intro refs hrefs hsymbols
      -- here the rule is the implicit one: it yields the gap in front
      simp only [List.cons.injEq, SymbolRef.rule.injEq] at hsymbols
      obtain ⟨rfl, hrest⟩ := hsymbols
      obtain ⟨gap, hgap, rfl⟩ := (ht.yields_implicit_iff hw).mp
        (Yields.rule_iff.mpr ⟨body, hrule, hbody⟩)
      obtain ⟨vs, hvs, hvspread⟩ := ih.1 refs hrefs hrest
      exact ⟨vs, hvs, gap, v, hgap, hvspread, rfl⟩

/-- **Completeness of weaving.** Every spread of what the user's rules yield is yielded by the
padded references. -/
theorem yields_of_spread (ht : g.Translates kind a)
    (hw : (a.syntheticNames kind).woven = some woven) {refs : List SymbolRef} {ts w : List Name}
    (h : Yields a.UserRule refs ts) (hspread : Spread a.implicitTokens ts w) :
    Yields g.HasRule (refs.flatMap (SymbolRef.padded [.rule woven.implicit])) w := by
  induction h generalizing w with
  | nil =>
    cases hspread
    exact .nil
  | @token name refs ts _ ih =>
    cases hspread with
    | cons _ gap hgap hrest =>
      rw [List.flatMap_cons, SymbolRef.padded_token, List.cons_append]
      exact .token (((ht.yields_implicit_iff hw).mpr ⟨gap, hgap, rfl⟩).append (ih hrest))
  | @rule name refs body u v hrule _ _ ihbody ih =>
    obtain ⟨r, hr, rfl, p, hp, rfl⟩ := hrule
    -- a spread of what body and rest yield falls apart into a spread of each
    obtain ⟨w₁, w₂, rfl, hw₁, hw₂⟩ := hspread.exists_of_append
    rw [List.flatMap_cons, SymbolRef.padded_rule, List.cons_append, List.nil_append]
    refine .rule ((ht.hasRule_user_iff (List.mem_map_of_mem hr)).mpr ⟨r, hr, rfl, p, hp, ?_⟩)
      (ihbody hw₁) (ih hw₂)
    rw [padding_woven hw, Production.padded]

/-- The words of a woven grammar, over what the user's start rule yields. -/
theorem mem_language_woven_iff (ht : g.Translates kind a) (hv : a.Valid)
    (hw : (a.syntheticNames kind).woven = some woven) (w : List Name) :
    w ∈ g.language ↔
      ∃ ts, Yields a.UserRule [.rule a.start] ts ∧ Interleaves a.implicitTokens ts w := by
  have htarget : (a.syntheticNames kind).target a.start = woven.implicitStart := by
    rw [SyntheticNames.target, hw]
  have hbody : ∀ body, g.HasRule woven.implicitStart body ↔
      body = [.rule woven.implicit, .rule a.start] := by
    intro body
    rw [hasRule_iff (ht.implicitStart_prods woven hw), List.mem_singleton]
  rw [ht.mem_language_iff_yields, ht.yields_start_iff, htarget, Yields.rule_iff]
  constructor
  · rintro ⟨body, hrule, h⟩
    exact (ht.spread_of_yields hv hw h).2 [.rule a.start] hv.refers_start ((hbody body).mp hrule)
  · rintro ⟨ts, hts, gap, w', hgap, hspread, rfl⟩
    refine ⟨_, (hbody _).mpr rfl, ?_⟩
    have hfirst : Yields g.HasRule [.rule woven.implicit] gap.toList :=
      (ht.yields_implicit_iff hw).mpr ⟨gap, hgap, rfl⟩
    exact hfirst.append (ht.yields_of_spread hw hts hspread)

/-- The words of a plain grammar are what the user's start rule yields. -/
theorem mem_language_plain_iff (ht : g.Translates kind a) (hv : a.Valid)
    (hw : (a.syntheticNames kind).woven = none) (w : List Name) :
    w ∈ g.language ↔ Yields a.UserRule [.rule a.start] w := by
  have htarget : (a.syntheticNames kind).target a.start = a.start := by
    rw [SyntheticNames.target, hw]
  rw [ht.mem_language_iff_yields, ht.yields_start_iff, htarget, ht.yields_plain_iff hv hw
      hv.refers_start]

end Translates

/-! ## Both grammars of one description -/

/-- **Weaving has exactly its documented meaning.** A description that is accepted under some kind
is accepted both as `eco` and as `original`, and the words of the `eco` grammar are those of the
`original` one with at most one implicit token before the first token and behind each token. -/
theorem eco_language_iff_interleaves {kind : Kind} {a : Description} {g : Grammar}
    (h : ofDescription kind a = .ok g) (himplicit : a.implicitTokens ≠ []) :
    ∃ gE gO, ofDescription .eco a = .ok gE ∧ ofDescription .original a = .ok gO ∧
      ∀ w, w ∈ gE.language ↔ ∃ ts ∈ gO.language, Interleaves a.implicitTokens ts w := by
  have haccepted := (exists_ofDescription_iff kind a).mp ⟨g, h⟩
  obtain ⟨gE, hE⟩ := (exists_ofDescription_iff .eco a).mpr haccepted
  obtain ⟨gO, hO⟩ := (exists_ofDescription_iff .original a).mpr haccepted
  refine ⟨gE, gO, hE, hO, ?_⟩
  -- both languages are compared with what the user's rules yield
  have hv := haccepted.1
  have htE := translates_of_lowerWith (ofDescription_eq_ok_iff.mp hE).2
  have htO := translates_of_lowerWith (ofDescription_eq_ok_iff.mp hO).2
  obtain ⟨woven, hw⟩ := Option.isSome_iff_exists.mp (htE.woven_iff.mpr ⟨rfl, himplicit⟩)
  have hplain : (a.syntheticNames .original).woven = none := by
    rw [← Option.not_isSome_iff_eq_none, htO.woven_iff]
    exact fun hk => absurd hk.1 (by decide)
  intro w
  rw [htE.mem_language_woven_iff hv hw]
  constructor
  · rintro ⟨ts, hts, hspread⟩
    exact ⟨ts, (htO.mem_language_plain_iff hv hplain ts).mpr hts, hspread⟩
  · rintro ⟨ts, hts, hspread⟩
    exact ⟨ts, (htO.mem_language_plain_iff hv hplain ts).mp hts, hspread⟩

theorem eco_language_markerNames : Description.markerNames.implicitTokens ≠ [] ∧
    ∃ gE gO, ofDescription .eco .markerNames = .ok gE ∧
      ofDescription .original .markerNames = .ok gO ∧
      ∀ w, w ∈ gE.language ↔
        ∃ ts ∈ gO.language, Interleaves Description.markerNames.implicitTokens ts w := by
  obtain ⟨g, hg⟩ := markerNames_accepted .original
  exact ⟨by decide, eco_language_iff_interleaves hg (by decide)⟩

end Grammar

end YaccTables
