import Mathlib.Data.List.Induction
import YaccTables.Proofs.Translation

/-!
# Precedences in a grammar

A production has the precedence of the symbol that its `%prec` names, else that of its last token.
`Production.HasPrec` says so of the production as its user wrote it, and `Grammar.KeepsPrecedence`
that a grammar has these precedences, each at the number of the production it was resolved for, and
no others: whether implicit tokens are woven in makes no difference, synthetic rules have none, and
neither has the end of the input.

Lowering computes both sides of a production at once (`Lowering.body_eq_ok`), so that its symbols
and its precedence are found under one number (`Lowering.Trace.user_prods`).
-/

namespace YaccTables

/-! ## The precedence of a production as it was written -/

/-- The precedence of a production, which may be none, by what its user wrote. -/
inductive Production.HasPrec (a : Description) (p : Production) : Option Precedence → Prop
  /-- It names the symbol whose precedence it takes. -/
  | named {prec : Precedence} (hne : p.prec ≠ []) (h : a.prec? p.prec = some prec) :
      HasPrec a p (some prec)
  /-- Else its last token decides, also by having none. -/
  | lastToken {before after : List SymbolRef} {name : Name} (hprec : p.prec = [])
      (hsymbols : p.symbols = before ++ .token name :: after)
      (hafter : ∀ n, SymbolRef.token n ∉ after) : HasPrec a p (a.prec? name)
  | noToken (hprec : p.prec = []) (hnone : ∀ n, SymbolRef.token n ∉ p.symbols) : HasPrec a p none

namespace SymbolRef

/-- The tokens among references. -/
theorem mem_tokenNames_iff {refs : List SymbolRef} {name : Name} :
    name ∈ tokenNames refs ↔ SymbolRef.token name ∈ refs := by
  unfold tokenNames
  rw [List.mem_filterMap]
  constructor
  · rintro ⟨ref, href, h⟩
    cases ref with
    | token n => exact Option.some.inj h ▸ href
    | _ => exact absurd h (by simp)
  · intro h
    exact ⟨.token name, h, rfl⟩

/-- There are no tokens among references without any. -/
theorem tokenNames_eq_nil_iff {refs : List SymbolRef} :
    tokenNames refs = [] ↔ ∀ n, SymbolRef.token n ∉ refs := by
  simp only [List.eq_nil_iff_forall_not_mem, mem_tokenNames_iff]

/-- Tokens are listed in order. -/
theorem tokenNames_append (refs more : List SymbolRef) :
    tokenNames (refs ++ more) = tokenNames refs ++ tokenNames more :=
  List.filterMap_append

/-- The last of the token names is that of the last token. -/
theorem getLast?_tokenNames_iff {refs : List SymbolRef} {name : Name} :
    (tokenNames refs).getLast? = some name ↔
      ∃ before after, refs = before ++ .token name :: after ∧ ∀ n, SymbolRef.token n ∉ after := by
  constructor
  · -- from the end, where the token is looked for
    induction refs using List.reverseRecOn with
    | nil => exact fun h => absurd h (by simp [tokenNames])
    | append_singleton refs ref ih =>
      intro h
      rw [tokenNames_append] at h
      cases ref with
      | token n =>
        rw [show tokenNames [.token n] = [n] from rfl, List.getLast?_concat] at h
        obtain rfl := Option.some.inj h
        exact ⟨refs, [], rfl, by simp⟩
      | rule n | other code n =>
        obtain ⟨before, after, rfl, hafter⟩ := ih (by simpa [tokenNames] using h)
        refine ⟨before, after ++ [_], List.append_assoc .., ?_⟩
        intro m hm
        rcases List.mem_append.mp hm with hm | hm
        · exact hafter m hm
        · exact absurd (List.mem_singleton.mp hm) (by simp)
  · rintro ⟨before, after, rfl, hafter⟩
    have hcons : tokenNames (.token name :: after) = name :: tokenNames after := rfl
    rw [tokenNames_append, hcons, tokenNames_eq_nil_iff.mpr hafter, List.getLast?_concat]

end SymbolRef

namespace Lowering

/-- Lowering gives a production exactly the precedence that it has by what its user wrote. -/
theorem precedence_eq_ok_iff {a : Description} (rule : Name) {p : Production}
    {prec : Option Precedence} : precedence a rule p = .ok prec ↔ p.HasPrec a prec := by
  unfold precedence
  by_cases hp : p.prec = []
  · rw [if_pos hp, Except.ok.injEq]
    constructor
    · rintro rfl
      cases hlast : (SymbolRef.tokenNames p.symbols).getLast? with
      | none =>
        exact .noToken hp (SymbolRef.tokenNames_eq_nil_iff.mp (List.getLast?_eq_none_iff.mp hlast))
      | some name =>
        obtain ⟨before, after, hsymbols, hafter⟩ := SymbolRef.getLast?_tokenNames_iff.mp hlast
        exact .lastToken hp hsymbols hafter
    · intro h
      cases h with
      | named hne _ => exact absurd hp hne
      | lastToken _ hsymbols hafter =>
        rw [SymbolRef.getLast?_tokenNames_iff.mpr ⟨_, _, hsymbols, hafter⟩, Option.bind_some]
      | noToken _ hnone =>
        rw [SymbolRef.tokenNames_eq_nil_iff.mpr hnone]
        rfl
  · rw [if_neg hp]
    constructor
    · intro h
      split at h
      · next found hfound => exact Except.ok.inj h ▸ .named hp hfound
      · exact absurd h (by simp)
    · intro h
      cases h with
      | named _ hfound => rw [hfound]
      | lastToken hp' _ _ => exact absurd hp' hp
      | noToken hp' _ => exact absurd hp' hp

end Lowering

/-- What a user wrote leaves no choice. -/
theorem Production.hasPrec_rightUnique (a : Description) :
    Relator.RightUnique (Production.HasPrec a) := by
  intro p prec prec' h h'
  have hprec := (Lowering.precedence_eq_ok_iff []).mpr h
  rw [(Lowering.precedence_eq_ok_iff []).mpr h'] at hprec
  exact (Except.ok.inj hprec).symm

/-! ## What lowering computes -/

namespace Lowering

/-- A user's production is lowered to its symbols, padded, and to the precedence that it has without
the padding. -/
theorem body_eq_ok {sc : Scope} {rule : Name} {p : Production} {b : Body}
    (h : body sc rule p = .ok b) :
    sc.refs? b.symbols = some (p.padded sc.names.padding) ∧ p.HasPrec sc.description b.prec := by
  obtain ⟨found, hfound, h⟩ := bind_eq_ok_iff.mp h
  obtain ⟨prec, hprec, heq⟩ := bind_eq_ok_iff.mp h
  obtain rfl := Except.ok.inj heq
  exact ⟨symbols_refs? hfound, (precedence_eq_ok_iff rule).mp hprec⟩

/-- The productions of a rule of the user are lowered one by one. -/
theorem user_bodies_eq_ok {sc : Scope} {kind : Kind} {a : Description} {found : List Body}
    (hsc : sc.Represents kind a) {r : Rule} (hr : r ∈ a.rules)
    (h : bodies sc r.name = .ok found) :
    List.Forall₂ (fun p b => body sc r.name p = .ok b) r.productions found := by
  have hname := hsc.notMem_nonterminals (List.mem_map_of_mem hr)
  have hfound := ((bodies_user_iff hname).mp h).1
  unfold userBodies at hfound
  rw [hsc.description_eq, hsc.rule?_eq_some hr] at hfound
  exact mapM_eq_ok_iff.mp hfound

/-- Productions of synthetic rules have no precedence. -/
theorem synthetic_bodies_prec {sc : Scope} {kind : Kind} {a : Description} {name : Name}
    {found : List Body} (hsc : sc.Represents kind a) (hname : name ∈ sc.names.nonterminals)
    (h : bodies sc name = .ok found) : ∀ b ∈ found, b.prec = none := by
  intro b hb
  rcases List.mem_cons.mp hname with rfl | hname
  · obtain ⟨s, -, heq⟩ := bind_eq_ok_iff.mp (bodies_start_iff.mp h).1
    obtain rfl := Except.ok.inj heq
    rw [List.mem_singleton.mp hb]
  · cases hw : sc.names.woven with
    | none => simp [hw] at hname
    | some woven =>
      obtain ⟨hne, hne', hdiff⟩ := hsc.woven_ne hw
      simp only [hw, List.mem_cons, List.not_mem_nil, or_false] at hname
      rcases hname with rfl | rfl
      · obtain ⟨terms, -, heq⟩ := bind_eq_ok_iff.mp ((bodies_implicit_iff hw hne hdiff).mp h).1
        obtain rfl := Except.ok.inj heq
        rcases List.mem_append.mp hb with hb | hb
        · obtain ⟨t, -, rfl⟩ := List.mem_map.mp hb
          rfl
        · rw [List.mem_singleton.mp hb]
      · obtain ⟨implicit, -, hrest⟩ :=
          bind_eq_ok_iff.mp ((bodies_implicitStart_iff hw hne').mp h).1
        obtain ⟨start, -, heq⟩ := bind_eq_ok_iff.mp hrest
        obtain rfl := Except.ok.inj heq
        rw [List.mem_singleton.mp hb]

end Lowering

/-! ## What a grammar answers -/

namespace Grammar

/-- The precedences of the productions of the nonterminal of a name. -/
def namedPrecs? (g : Grammar) (name : Name) : Option (List (Option Precedence)) := do
  let i ← g.nontermIdx? name
  let prods ← g.nontermProds? i
  prods.mapM g.prodPrec?

/-- The production with this number reads back as the user's production, padded, and has the
precedence that the user gave it. -/
def Carries (g : Grammar) (kind : Kind) (a : Description) (p : Production) (i : ProdIdx) : Prop :=
  g.prodRefs? i = some (p.padded (a.syntheticNames kind).padding) ∧
    ∃ prec, g.prodPrec? i = some prec ∧ p.HasPrec a prec

/-- The grammar has the precedences that the user declared where they belong, and no others. -/
structure KeepsPrecedence (g : Grammar) (kind : Kind) (a : Description) : Prop where
  /-- One by one, the productions of a user's rule have what the user wrote. -/
  user_prods : ∀ r ∈ a.rules, ∃ n prods, g.nontermIdx? r.name = some n ∧
    g.nontermProds? n = some prods ∧ List.Forall₂ (g.Carries kind a) r.productions prods
  synthetic_prods : ∀ i name, g.prodRuleName? i = some name →
    name ∈ (a.syntheticNames kind).nonterminals → g.prodPrec? i = some none
  tokens : ∀ name ∈ a.tokens, ∃ i, g.termIdx? name = some i ∧ g.termPrec? i = some (a.prec? name)
  /-- The end of the input has none, whatever is declared under its name. -/
  endTerm : g.termName? g.endTerm = some (a.syntheticNames kind).endName ∧
    g.termPrec? g.endTerm = some none

/-- The precedences of the productions of a rule, in order. -/
theorem KeepsPrecedence.exists_namedPrecs {g : Grammar} {kind : Kind} {a : Description}
    (h : g.KeepsPrecedence kind a) {r : Rule} (hr : r ∈ a.rules) :
    ∃ precs, g.namedPrecs? r.name = some precs ∧
      List.Forall₂ (Production.HasPrec a) r.productions precs := by
  obtain ⟨n, prods, hn, hprods, hcarries⟩ := h.user_prods r hr
  -- collect what the productions carry
  have hcollect : ∀ {ps : List Production} {is : List ProdIdx},
      List.Forall₂ (g.Carries kind a) ps is → ∃ precs,
        List.Forall₂ (fun i prec => g.prodPrec? i = some prec) is precs ∧
          List.Forall₂ (Production.HasPrec a) ps precs := by
    intro ps is his
    induction his with
    | nil => exact ⟨[], .nil, .nil⟩
    | cons hp _ ih =>
      obtain ⟨-, prec, hprec, hhas⟩ := hp
      obtain ⟨precs, hprecs, hall⟩ := ih
      exact ⟨prec :: precs, .cons hprec hprecs, .cons hhas hall⟩
  obtain ⟨precs, hprecs, hall⟩ := hcollect hcarries
  refine ⟨precs, ?_, hall⟩
  rw [namedPrecs?, hn, Option.bind_eq_bind, Option.bind_some, hprods]
  exact mapM_eq_some_iff.mpr hprecs

end Grammar

namespace Lowering.Trace

variable {kind : Kind} {a : Description} {g : Grammar} (tr : Trace kind a g)

include tr in
/-- A production of the user has the precedence that it asks for. -/
theorem user_prods {r : Rule} (hr : r ∈ a.rules) :
    ∃ n prods, g.nontermIdx? r.name = some n ∧ g.nontermProds? n = some prods ∧
      List.Forall₂ (g.Carries kind a) r.productions prods := by
  have hrep := tr.represents
  obtain ⟨i, found, hn, hg, hfound⟩ :=
    tr.exists_group (hrep.mem_nonterms_iff.mpr (.inr (List.mem_map_of_mem hr)))
  refine ⟨⟨i⟩, _, tr.nontermIdx?_eq hn, tr.nontermProds?_eq hg, ?_⟩
  have hbodies := user_bodies_eq_ok hrep hr hfound
  have hprods := tr.production?_group hg
  refine List.forall₂_iff_get.mpr ⟨by rw [hbodies.length_eq, hprods.length_eq], ?_⟩
  intro j hj hj'
  -- at each place stands the body that was found for the production at that place
  have hlen := hbodies.length_eq
  have hbody := (List.forall₂_iff_get.mp hbodies).2 j hj (by omega)
  have hprod := (List.forall₂_iff_get.mp hprods).2 j hj' (by omega)
  obtain ⟨hrefs, hprec⟩ := body_eq_ok hbody
  rw [hrep.description_eq] at hprec
  constructor
  · rw [Grammar.prodRefs?, Grammar.prodSymbols?, hprod, tr.ref?_eq, ← hrep.names_eq]
    exact hrefs
  · exact ⟨_, by rw [Grammar.prodPrec?, hprod]; rfl, hprec⟩

include tr in
/-- A synthetic production has no precedence. -/
theorem synthetic_prods {i : ProdIdx} {name : Name} (hi : g.prodRuleName? i = some name)
    (hname : name ∈ (a.syntheticNames kind).nonterminals) : g.prodPrec? i = some none := by
  obtain ⟨n, hn, hnt⟩ := Option.bind_eq_some_iff.mp hi
  obtain ⟨prods, hprods, hmem⟩ := (tr.prodRule?_iff i n).mp hn
  obtain ⟨found, hg, rfl⟩ := tr.exists_group_of_nontermProds? hprods
  rw [tr.nontermName?_eq] at hnt
  obtain ⟨j, found', hj, hg', hfound⟩ := tr.exists_group (List.mem_of_getElem? hnt)
  -- the name stands at one place only
  have hplace : n = ⟨j⟩ := by
    have h := tr.nontermIdx?_eq hnt
    rw [tr.nontermIdx?_eq hj] at h
    exact (Option.some.inj h).symm
  subst hplace
  obtain rfl := Option.some.inj (hg.symm.trans hg')
  obtain ⟨b, hb, hprod⟩ := exists_mem_of_forall₂ (tr.production?_group hg) hmem
  rw [← tr.represents.names_eq] at hname
  rw [Grammar.prodPrec?, hprod, Option.map_some]
  exact congrArg some (synthetic_bodies_prec tr.represents hname hfound b hb)

include tr in
/-- Tokens keep their precedences, and the end of the input has none. -/
theorem terminals_of_tokens : g.terminals
    = ⟨(a.syntheticNames kind).endName, none⟩ :: a.tokens.map fun name => ⟨name, a.prec? name⟩ := by
  rw [tr.terminals_eq, tr.represents.terms_eq, tr.represents.description_eq,
    tr.represents.names_eq]
  rfl

include tr in
/-- A lowered grammar keeps precedences. -/
theorem keepsPrecedence : g.KeepsPrecedence kind a := by
  have hend := tr.endTerm_eq
  have hterms := tr.terminals_of_tokens
  constructor
  case user_prods => exact fun r hr => tr.user_prods hr
  case synthetic_prods => exact fun i name hi hname => tr.synthetic_prods hi hname
  case tokens =>
    intro name hname
    have hnd : (g.terminals.map Terminal.name).Nodup := by
      rw [tr.terminal_names]
      exact tr.represents.terms_nodup
    obtain ⟨j, hj⟩ := List.mem_iff_getElem?.mp hname
    -- behind the end of the input, the tokens stand in their order
    have hterm : g.terminal? ⟨j + 1⟩ = some ⟨name, a.prec? name⟩ := by
      rw [Grammar.terminal?, hterms, List.getElem?_cons_succ, List.getElem?_map, hj]
      rfl
    refine ⟨⟨j + 1⟩, (Grammar.termIdx?_eq_some_iff hnd).mpr ?_, ?_⟩
    · rw [Grammar.termName?, hterm]
      rfl
    · rw [Grammar.termPrec?, hterm]
      rfl
  case endTerm =>
    rw [Grammar.termName?, Grammar.termPrec?, Grammar.terminal?, hend, hterms]
    exact ⟨rfl, rfl⟩

end Lowering.Trace

namespace Grammar

/-- Lowering keeps precedences, however nonterminals are ordered. -/
theorem keepsPrecedence_of_lowerWith {fold : Bytes → Bytes} {kind : Kind} {a : Description}
    {g : Grammar} (h : a.lowerWith fold kind = .ok g) : g.KeepsPrecedence kind a := by
  obtain ⟨tr⟩ := Lowering.exists_trace h
  exact tr.keepsPrecedence

/-- **A grammar has the precedences that its user declared**, and the productions of a rule have the
same ones in a grammar of another kind. -/
theorem keepsPrecedence_of_ofDescription {kind : Kind} {a : Description} {g : Grammar}
    (h : ofDescription kind a = .ok g) :
    g.KeepsPrecedence kind a ∧
      ∀ kind' g', ofDescription kind' a = .ok g' → ∀ r ∈ a.rules,
        ∃ precs, g.namedPrecs? r.name = some precs ∧ g'.namedPrecs? r.name = some precs := by
  have hkeeps := keepsPrecedence_of_lowerWith (ofDescription_eq_ok_iff.mp h).2
  refine ⟨hkeeps, ?_⟩
  intro kind' g' h' r hr
  have hkeeps' := keepsPrecedence_of_lowerWith (ofDescription_eq_ok_iff.mp h').2
  obtain ⟨precs, hprecs, hall⟩ := hkeeps.exists_namedPrecs hr
  obtain ⟨precs', hprecs', hall'⟩ := hkeeps'.exists_namedPrecs hr
  obtain rfl := (Production.hasPrec_rightUnique a).forall₂ hall hall'
  exact ⟨precs, hprecs, hprecs'⟩

end Grammar

/-- Operators with precedences. A rule stands behind the last token of the first production, the
second one names a symbol that is no token, and in the third one `x`, which has no precedence, hides
the plus sign. An entry stands under the name that the end of the input will get. -/
def Description.operators : Description :=
  { start := utf8 "e"
    rules :=
      [⟨utf8 "e", [⟨[.rule (utf8 "e"), .token (utf8 "+"), .rule (utf8 "e")], []⟩,
        ⟨[.token (utf8 "-"), .rule (utf8 "e")], utf8 "neg"⟩,
        ⟨[.token (utf8 "+"), .token (utf8 "x")], []⟩]⟩]
    tokens := [utf8 "+", utf8 "-", utf8 "x", utf8 "ws"]
    precs := [(utf8 "+", ⟨0, .left⟩), (utf8 "-", ⟨0, .left⟩), (utf8 "neg", ⟨1, .right⟩),
      (utf8 "$", ⟨1, .right⟩)]
    implicitTokens := [utf8 "ws"]
    nextLevel := 2 }

namespace Grammar

theorem keepsPrecedence_operators :
    (Description.operators.prec? (Description.operators.syntheticNames .eco).endName).isSome ∧
      ∃ g g', ofDescription .eco .operators = .ok g ∧ ofDescription .original .operators = .ok g' ∧
        g.KeepsPrecedence .eco .operators ∧
        g.namedPrecs? (utf8 "e") = some [some ⟨0, .left⟩, some ⟨1, .right⟩, none] ∧
        g'.namedPrecs? (utf8 "e") = some [some ⟨0, .left⟩, some ⟨1, .right⟩, none] := by
  have haccepted : ∀ kind, ∃ g, ofDescription kind .operators = .ok g := fun kind =>
    (exists_ofDescription_iff kind .operators).mpr
      ⟨(Description.problems_eq_nil_iff .operators).mp (by decide), by decide⟩
  have hwritten : ∀ r ∈ Description.operators.rules,
      List.Forall₂ (Production.HasPrec .operators) r.productions
        [some ⟨0, .left⟩, some ⟨1, .right⟩, none] := by
    intro r hr
    obtain rfl := List.mem_singleton.mp hr
    exact .cons ((Lowering.precedence_eq_ok_iff []).mp (by decide))
      (.cons ((Lowering.precedence_eq_ok_iff []).mp (by decide))
        (.cons ((Lowering.precedence_eq_ok_iff []).mp (by decide)) .nil))
  obtain ⟨g, hg⟩ := haccepted .eco
  obtain ⟨g', hg'⟩ := haccepted .original
  obtain ⟨hkeeps, hsame⟩ := keepsPrecedence_of_ofDescription hg
  have hr : _ ∈ Description.operators.rules := List.mem_cons_self
  obtain ⟨precs, hprecs, hall⟩ := hkeeps.exists_namedPrecs hr
  obtain ⟨precs', hprecs', hother⟩ := hsame .original g' hg' _ hr
  obtain rfl := Option.some.inj (hprecs.symm.trans hprecs')
  obtain rfl := (Production.hasPrec_rightUnique _).forall₂ hall (hwritten _ hr)
  exact ⟨by decide, g, g', hg, hg', hkeeps, hprecs, hother⟩

end Grammar

end YaccTables
