import YaccTables.Proofs.Parsing
import YaccTables.Proofs.Problems

/-!
# Which names become tokens

A name becomes a token by being declared as one or by being used as one, and a use is told by the
declarations alone: it is quoted, or some declaration mentions its name. `Document.tokenNames` reads
both off the document, and `Document.description_tokens` says that the tokens of the description
are these names, each where it stands first.

A description grows by one declaration or alternative after another. `Description.Collects` says of
one such step that it adds names to a list without repetitions; steps are put together with
`Collects.foldl`, and so the lists of a whole document come out at once, whatever the order in
which its uses stand.

Since the reader adds what it refers to, few sorts of problems can be left
(`Document.kind_mem_textKinds`).
-/

namespace YaccTables

/-- The names that a declaration makes tokens. Precedence makes no tokens. -/
def Declaration.tokenNames : Declaration → List Name
  | .tokens names | .implicit names => names
  | .start _ | .precedence _ _ => []

/-- The names that a declaration makes implicit tokens. -/
def Declaration.implicitNames : Declaration → List Name
  | .implicit names => names
  | .start _ | .tokens _ | .precedence _ _ => []

namespace Written

/-- The name that is written. -/
def name : Written → Name
  | .bare name | .quoted name => name

/-- What a written symbol means, given the names that are declared before the rules. -/
inductive Means (declared : List Name) : Written → SymbolRef → Prop
  | quoted (name : Name) : Means declared (.quoted name) (.token name)
  | declared {name : Name} (h : name ∈ declared) : Means declared (.bare name) (.token name)
  | rule {name : Name} (h : name ∉ declared) : Means declared (.bare name) (.rule name)

/-- The name of a written symbol that means a token. -/
def token? (declared : List Name) : Written → Option Name
  | .quoted name => some name
  | .bare name => if declared.contains name then some name else none

/-- What a written symbol resolves to is what it means. -/
theorem means_resolve (declared : List Name) (w : Written) :
    Means declared w (w.resolve declared) := by
  cases w with
  | quoted name => exact .quoted name
  | bare name =>
    show Means declared (.bare name)
      (if declared.contains name then SymbolRef.token name else SymbolRef.rule name)
    by_cases h : name ∈ declared
    · rw [if_pos (List.contains_iff_mem.mpr h)]
      exact .declared h
    · rw [if_neg (by simpa using h)]
      exact .rule h

/-- A written symbol counts as a token if it resolves to one. -/
theorem token?_eq_some_iff {declared : List Name} {w : Written} {name : Name} :
    w.token? declared = some name ↔ w.resolve declared = .token name := by
  cases w with
  | quoted n => simp [token?, resolve]
  | bare n =>
    by_cases h : n ∈ declared
    · simp [token?, resolve, h]
    · simp [token?, resolve, h]

/-- A token has the name that it is written with. -/
theorem name_of_token? {declared : List Name} {w : Written} {n : Name}
    (h : w.token? declared = some n) : w.name = n := by
  cases w with
  | quoted m => exact Option.some.inj h
  | bare m =>
    have hm : m ∈ declared ∧ m = n := by simpa [token?] using h
    exact hm.2

end Written

/-- The tokens among resolved symbols are those that count as such. -/
theorem tokenNames_map_resolve (declared : List Name) (symbols : List Written) :
    SymbolRef.tokenNames (symbols.map (Written.resolve declared))
      = symbols.filterMap (Written.token? declared) := by
  unfold SymbolRef.tokenNames
  rw [List.filterMap_map]
  congr 1
  funext w
  cases w with
  | quoted name => rfl
  | bare name =>
    by_cases h : name ∈ declared
    · simp [Written.resolve, Written.token?, h]
    · simp [Written.resolve, Written.token?, h]

namespace Document

/-- The symbols of all alternatives, in the order of the text. -/
def symbols (doc : Document) : List Written :=
  (doc.definitions.flatMap Definition.alternatives).flatMap Alternative.symbols

/-- The names that become tokens, in the order of the text: first those declared, then those used.
-/
def tokenNames (doc : Document) : List Name :=
  doc.declarations.flatMap Declaration.tokenNames
    ++ doc.symbols.filterMap (Written.token? doc.declared)

end Document

namespace Description

/-! ## Lists that grow without repetitions -/

/-- The step adds new names to a list that keeps of every name the first. -/
def Collects {β : Type} (get : Description → List Name) (step : Description → β → Description)
    (new : β → List Name) : Prop :=
  ∀ a names x, get a = names.eraseDups → get (step a x) = (names ++ new x).eraseDups

namespace Collects

variable {β : Type} {get : Description → List Name} {step : Description → β → Description}
  {new : β → List Name}

/-- What each step collects is collected by all of them. -/
theorem foldl (h : Collects get step new) {a : Description} {names : List Name}
    (ha : get a = names.eraseDups) (xs : List β) :
    get (xs.foldl step a) = (names ++ xs.flatMap new).eraseDups := by
  induction xs generalizing a names with
  | nil => simpa using ha
  | cons x xs ih =>
    rw [List.foldl_cons, ih (h a names x ha), List.flatMap_cons, List.append_assoc]

/-- Names are collected one by one. -/
theorem foldl_names {step : Description → Name → Description}
    (h : Collects get step fun name => [name]) {a : Description} {names : List Name}
    (ha : get a = names.eraseDups) (new : List Name) :
    get (new.foldl step a) = (names ++ new).eraseDups := by
  rw [h.foldl ha, List.flatMap_singleton']

end Collects

theorem declarePrec_tokens (p : Precedence) (a : Description) (name : Name) :
    (a.declarePrec p name).tokens = a.tokens := by
  unfold declarePrec
  split <;> rfl

theorem declarePrec_implicitTokens (p : Precedence) (a : Description) (name : Name) :
    (a.declarePrec p name).implicitTokens = a.implicitTokens := by
  unfold declarePrec
  split <;> rfl

theorem addToken_implicitTokens (a : Description) (name : Name) :
    (a.addToken name).implicitTokens = a.implicitTokens := by
  unfold addToken
  split <;> rfl

theorem addRule_tokens (a : Description) (name : Name) :
    (a.addRule name).tokens = a.tokens := by
  unfold addRule
  split <;> rfl

theorem addRule_implicitTokens (a : Description) (name : Name) :
    (a.addRule name).implicitTokens = a.implicitTokens := by
  unfold addRule
  split <;> rfl

/-- Adding a name unless it is there keeps of every name the first. -/
theorem insert_eraseDups (names : List Name) (name : Name) :
    (if names.eraseDups.contains name then names.eraseDups else names.eraseDups ++ [name])
      = (names ++ [name]).eraseDups := by
  by_cases h : name ∈ names
  · rw [if_pos (by simpa using h), eraseDups_concat_of_mem h]
  · rw [if_neg (by simpa using h), eraseDups_concat_of_notMem h]

theorem addToken_tokens (a : Description) (name : Name) : (a.addToken name).tokens
    = if a.tokens.contains name then a.tokens else a.tokens ++ [name] := by
  unfold addToken
  split <;> rfl

theorem addImplicitToken_tokens (a : Description) (name : Name) :
    (a.addImplicitToken name).tokens = (a.addToken name).tokens := by
  unfold addImplicitToken
  dsimp only
  split <;> rfl

theorem addImplicitToken_implicitTokens (a : Description) (name : Name) :
    (a.addImplicitToken name).implicitTokens
      = if a.implicitTokens.contains name then a.implicitTokens
        else a.implicitTokens ++ [name] := by
  unfold addImplicitToken
  dsimp only
  rw [addToken_implicitTokens]
  split
  · exact addToken_implicitTokens a name
  · rfl

/-- Adding tokens collects them. -/
theorem collects_addToken : Collects tokens addToken fun name => [name] := by
  intro a names name ha
  rw [addToken_tokens, ha, insert_eraseDups]

/-- Adding implicit tokens collects them as tokens. -/
theorem collects_addImplicitToken_tokens :
    Collects tokens addImplicitToken fun name => [name] := by
  intro a names name ha
  rw [addImplicitToken_tokens, addToken_tokens, ha, insert_eraseDups]

/-- Adding implicit tokens collects them as implicit. -/
theorem collects_addImplicitToken :
    Collects implicitTokens addImplicitToken fun name => [name] := by
  intro a names name ha
  rw [addImplicitToken_implicitTokens, ha, insert_eraseDups]

/-! ## What a document adds -/

/-- Declarations collect the tokens that they declare. -/
theorem collects_declare : Collects tokens declare Declaration.tokenNames := by
  intro a names d ha
  cases d with
  | start rule => exact ha.trans (by rw [Declaration.tokenNames, List.append_nil])
  | tokens new => exact collects_addToken.foldl_names ha new
  | precedence assoc new =>
    have hprec : (a.declare (.precedence assoc new)).tokens = a.tokens :=
      foldl_eq_of_step (declarePrec_tokens _) _ new
    rw [hprec, ha, Declaration.tokenNames, List.append_nil]
  | implicit new => exact collects_addImplicitToken_tokens.foldl_names ha new

/-- Declarations collect the implicit tokens that they declare. -/
theorem collects_declare_implicit :
    Collects implicitTokens declare Declaration.implicitNames := by
  intro a names d ha
  cases d with
  | start rule => exact ha.trans (by rw [Declaration.implicitNames, List.append_nil])
  | tokens new =>
    have htokens : (a.declare (.tokens new)).implicitTokens = a.implicitTokens :=
      foldl_eq_of_step addToken_implicitTokens a new
    rw [htokens, ha, Declaration.implicitNames, List.append_nil]
  | precedence assoc new =>
    have hprec : (a.declare (.precedence assoc new)).implicitTokens = a.implicitTokens :=
      foldl_eq_of_step (declarePrec_implicitTokens _) _ new
    rw [hprec, ha, Declaration.implicitNames, List.append_nil]
  | implicit new => exact collects_addImplicitToken.foldl_names ha new

/-- Alternatives collect the tokens that they use. -/
theorem collects_addAlternative (declared : List Name) (rule : Name) :
    Collects tokens (addAlternative declared rule) fun alt =>
      alt.symbols.filterMap (Written.token? declared) := by
  intro a names alt ha
  have hprod : (a.addAlternative declared rule alt).tokens
      = ((alt.symbols.filterMap (Written.token? declared)).foldl addToken a).tokens := by
    unfold addAlternative addProduction Alternative.production
    dsimp only
    rw [addRule_tokens, tokenNames_map_resolve]
  rw [hprod]
  exact collects_addToken.foldl_names ha _

/-- Definitions collect the tokens that they use. -/
theorem collects_define (declared : List Name) :
    Collects tokens (define declared) fun d =>
      (d.alternatives.flatMap Alternative.symbols).filterMap (Written.token? declared) := by
  intro a names d ha
  have hrule : (a.addRule d.rule).tokens = names.eraseDups := (addRule_tokens a d.rule).trans ha
  have hadded := (collects_addAlternative declared d.rule).foldl hrule d.alternatives
  rw [← List.filterMap_flatMap] at hadded
  exact hadded

/-- Only what is declared matters for a definition. -/
theorem define_congr {declared declared' : List Name}
    (h : ∀ name, name ∈ declared ↔ name ∈ declared') : define declared = define declared' := by
  unfold define addAlternative Alternative.production
  rw [Written.resolve_congr h]

/-- Definitions add no implicit tokens. -/
theorem define_implicitTokens (declared : List Name) (a : Description) (d : Definition) :
    (a.define declared d).implicitTokens = a.implicitTokens := by
  have halt : ∀ b alt,
      (addAlternative declared d.rule b alt).implicitTokens = b.implicitTokens := by
    intro b alt
    unfold addAlternative addProduction
    dsimp only
    rw [addRule_implicitTokens]
    exact foldl_eq_of_step addToken_implicitTokens b _
  rw [define, foldl_eq_of_step halt, addRule_implicitTokens]

end Description

namespace Document

/-- **The tokens of a description are the names of its document that are declared or used as
tokens**, each where it stands first. -/
theorem description_tokens (doc : Document) :
    doc.description.tokens = doc.tokenNames.eraseDups := by
  have hempty : Description.empty.tokens = [].eraseDups := rfl
  have hdeclared := Description.collects_declare.foldl hempty doc.declarations
  have hused := (Description.collects_define doc.declared).foldl hdeclared doc.definitions
  unfold description
  dsimp only
  rw [Description.define_congr doc.mem_declaredNames_iff, hused, List.nil_append, tokenNames,
    symbols, List.flatMap_assoc, List.filterMap_flatMap]

/-- The implicit tokens of a document are those declared so, in order. -/
theorem description_implicitTokens (doc : Document) :
    doc.description.implicitTokens
      = (doc.declarations.flatMap Declaration.implicitNames).eraseDups := by
  have hempty : Description.empty.implicitTokens = [].eraseDups := rfl
  have hdeclared := Description.collects_declare_implicit.foldl hempty doc.declarations
  unfold description
  dsimp only
  rw [Description.foldl_eq_of_step (Description.define_implicitTokens _), hdeclared,
    List.nil_append]

/-- The tokens of a document are those declared and those used. -/
theorem mem_description_tokens {doc : Document} {name : Name} :
    name ∈ doc.description.tokens ↔
      (∃ d ∈ doc.declarations, name ∈ d.tokenNames) ∨
        ∃ w ∈ doc.symbols, w.token? doc.declared = some name := by
  rw [description_tokens, List.mem_eraseDups, tokenNames, List.mem_append, List.mem_flatMap,
    List.mem_filterMap]

/-- Rule by rule and alternative by alternative, every symbol means what the declarations make of
it. -/
def MeaningIn (doc : Document) (a : Description) : Prop :=
  List.Forall₂ (fun name r => r.name = name ∧
    List.Forall₂ (fun alt p => List.Forall₂ (Written.Means doc.declared) alt.symbols p.symbols)
      (doc.alternativesOf name) r.productions) doc.ruleNames a.rules

/-- The symbols of a document mean the same in its description. -/
theorem meaningIn_description (doc : Document) : doc.MeaningIn doc.description := by
  unfold MeaningIn
  rw [description_rules, rules, List.forall₂_map_right_iff, List.forall₂_same]
  intro name _
  refine ⟨rfl, ?_⟩
  rw [List.forall₂_map_right_iff, List.forall₂_same]
  intro alt _
  rw [List.forall₂_map_right_iff, List.forall₂_same]
  exact fun w _ => Written.means_resolve doc.declared w

/-! ## What is left to go wrong -/

/-- Of different names none stands at an earlier place as well. -/
theorem notMem_take_of_nodup {names : List Name} (h : names.Nodup) {i : Nat} {name : Name}
    (hi : names[i]? = some name) : name ∉ names.take i := by
  have hdrop : name ∈ names.drop i := by
    refine List.mem_of_getElem? (i := 0) ?_
    rw [List.getElem?_drop, Nat.add_zero, hi]
  exact fun htake => List.disjoint_take_drop h (Nat.le_refl i) htake hdrop

/-- The rules of a document are those that it defines. -/
theorem description_ruleNames (doc : Document) : doc.description.ruleNames = doc.ruleNames := by
  rw [Description.ruleNames, description_rules, rules, List.map_map]
  exact List.map_id _

/-- What a rule refers to was written somewhere. -/
theorem exists_written_of_ref {doc : Document} {r : Rule} {p : Production} {ref : SymbolRef}
    (hr : r ∈ doc.description.rules) (hp : p ∈ r.productions) (href : ref ∈ p.symbols) :
    ∃ w ∈ doc.symbols, w.resolve doc.declared = ref := by
  rw [description_rules] at hr
  obtain ⟨rule, -, rfl⟩ := List.mem_map.mp hr
  obtain ⟨alt, halt, rfl⟩ := List.mem_map.mp hp
  obtain ⟨w, hw, hresolve⟩ := List.mem_map.mp href
  obtain ⟨d, hd, halt⟩ := List.mem_flatMap.mp halt
  refine ⟨w, ?_, hresolve⟩
  refine List.mem_flatMap.mpr ⟨alt, List.mem_flatMap.mpr ⟨d, ?_, halt⟩, hw⟩
  exact (List.mem_filter.mp hd).1

/-- A token that a rule refers to became a token where it was written. -/
theorem mem_tokens_of_ref {doc : Document} {r : Rule} {p : Production} {name : Name}
    (hr : r ∈ doc.description.rules) (hp : p ∈ r.productions)
    (hname : SymbolRef.token name ∈ p.symbols) : name ∈ doc.description.tokens := by
  obtain ⟨w, hw, hresolve⟩ := exists_written_of_ref hr hp hname
  exact mem_description_tokens.mpr (.inr ⟨w, hw, Written.token?_eq_some_iff.mpr hresolve⟩)

/-- Implicit tokens are tokens. -/
theorem implicitTokens_subset (doc : Document) {name : Name}
    (h : name ∈ doc.description.implicitTokens) : name ∈ doc.description.tokens := by
  rw [description_implicitTokens, List.mem_eraseDups] at h
  obtain ⟨d, hd, hname⟩ := List.mem_flatMap.mp h
  refine mem_description_tokens.mpr (.inl ⟨d, hd, ?_⟩)
  cases d with
  | implicit names => exact hname
  | _ => exact absurd hname (by simp [Declaration.implicitNames])

/-- Every rule has a definition, and every definition an alternative. -/
theorem productions_ne_nil {doc : Document} (halts : ∀ d ∈ doc.definitions, d.alternatives ≠ [])
    {r : Rule} (hr : r ∈ doc.description.rules) : r.productions ≠ [] := by
  rw [description_rules] at hr
  obtain ⟨name, hname, rfl⟩ := List.mem_map.mp hr
  obtain ⟨d, hd, rfl⟩ := List.mem_map.mp (List.mem_eraseDups.mp hname)
  have hmem : d ∈ doc.definitions.filter (·.rule = d.rule) :=
    List.mem_filter.mpr ⟨hd, decide_eq_true rfl⟩
  intro hnil
  exact halts d hd (List.flatMap_eq_nil_iff.mp (List.map_eq_nil_iff.mp hnil) d hmem)

/-- The sorts of problems that a description can have that was read from text. -/
def textKinds : List ProblemKind :=
  [.noStartRule, .unknownStartRule, .unknownRule, .unknownPrecedence, .duplicatePrecedence]

/-- Only some kinds of problems can come from a text. -/
theorem kind_mem_textKinds {doc : Document}
    (halts : ∀ d ∈ doc.definitions, d.alternatives ≠ []) {p : Problem}
    (hp : p ∈ doc.description.problems) : p.kind ∈ textKinds := by
  obtain ⟨site, hfaulty⟩ := Description.mem_problems_iff.mp hp
  cases hfaulty with
  | duplicateRule hi hearlier =>
    rw [description_ruleNames] at hi hearlier
    exact absurd hearlier (notMem_take_of_nodup (Description.nodup_eraseDups _) hi)
  | duplicateToken hi hearlier =>
    rw [description_tokens] at hi hearlier
    exact absurd hearlier (notMem_take_of_nodup (Description.nodup_eraseDups _) hi)
  | emptyRule hr hnil => exact absurd hnil (productions_ne_nil halts (List.mem_of_getElem? hr))
  | unknownToken hr hprod hk hnot =>
    have hmem := mem_tokens_of_ref (List.mem_of_getElem? hr) (List.mem_of_getElem? hprod)
      (List.mem_of_getElem? hk)
    exact absurd hmem hnot
  | unknownImplicitToken hi hnot =>
    exact absurd (doc.implicitTokens_subset (List.mem_of_getElem? hi)) hnot
  | duplicateImplicitToken hi hearlier =>
    rw [description_implicitTokens] at hi hearlier
    exact absurd hearlier (notMem_take_of_nodup (Description.nodup_eraseDups _) hi)
  | _ => simp [textKinds]

/-- A definition that is written has an alternative. -/
theorem WrittenIn.alternatives_ne_nil {doc : Document} {text : Bytes} (h : doc.WrittenIn text)
    {d : Definition} (hd : d ∈ doc.definitions) : d.alternatives ≠ [] := by
  obtain ⟨ts, rest, -, hform⟩ := h
  cases hform with
  | mk _ _ hdefined _ _ =>
    obtain ⟨us, -, hdef⟩ := exists_mem_of_forall₂ (List.Forall₂.flip hdefined) hd
    cases hdef with
    | mk _ _ halts =>
      cases halts with
      | last _ _ => exact List.cons_ne_nil _ _
      | more _ _ _ => exact List.cons_ne_nil _ _

/-- What a description owes to its document as far as tokens go. -/
structure NamesTokens (doc : Document) (a : Description) : Prop where
  /-- A symbol is a token if it is quoted or its name is declared, wherever it stands. -/
  meaning : doc.MeaningIn a
  /-- Declared and used tokens, each where it stands first. -/
  tokens : a.tokens = doc.tokenNames.eraseDups
  nodup : a.tokens.Nodup
  /-- A name that neither a list of tokens nor an alternative mentions as a symbol is none. -/
  precOnly : ∀ name, (∀ d ∈ doc.declarations, name ∉ d.tokenNames) →
    (∀ w ∈ doc.symbols, w.name ≠ name) → name ∉ a.tokens
  problems : ∀ p ∈ a.problems, p.kind ∈ textKinds

/-- A document that is written names its tokens. -/
theorem WrittenIn.namesTokens {doc : Document} {text : Bytes} (h : doc.WrittenIn text) :
    doc.NamesTokens doc.description where
  meaning := doc.meaningIn_description
  tokens := doc.description_tokens
  nodup := doc.description_tokens ▸ Description.nodup_eraseDups _
  precOnly := by
    intro name hdeclared hused hmem
    rcases mem_description_tokens.mp hmem with ⟨d, hd, hname⟩ | ⟨w, hw, htoken⟩
    · exact hdeclared d hd hname
    · exact hused w hw (Written.name_of_token? htoken)
  problems := fun _ hp => kind_mem_textKinds (fun _ hd => h.alternatives_ne_nil hd) hp

end Document

namespace Description

/-- **Which names of a text become tokens is told by its document.** -/
theorem namesTokens_of_parse {source : Source} {a : Description} (h : parse source = .ok a) :
    ∃ doc : Document, doc.WrittenIn source.text ∧ doc.NamesTokens a := by
  obtain ⟨doc, hdoc, rfl⟩ := parse_eq_ok_iff.mp h
  exact ⟨doc, hdoc, hdoc.namesTokens⟩

/-- The name `p` has only precedence until it is used, `q` stands only behind `%prec`, and `x` is
quoted at one place and bare at another. -/
def mixedUses : Source :=
  { text := utf8 "%left p q %token b %implicit_tokens w b %start s %% s: x 'x' p | b %prec q;" }

theorem namesTokens_mixedUses : ∃ a, parse mixedUses = .ok a ∧
    a.tokens = [utf8 "b", utf8 "w", utf8 "x", utf8 "p"] ∧
    (∃ p ∈ a.problems, p.kind = .unknownRule) ∧
    ∃ doc : Document, doc.WrittenIn mixedUses.text ∧ doc.NamesTokens a := by
  let doc : Document :=
    { declarations := [.precedence .left [utf8 "p", utf8 "q"], .tokens [utf8 "b"],
        .implicit [utf8 "w", utf8 "b"], .start (utf8 "s")]
      definitions :=
        [⟨utf8 "s", [⟨[.bare (utf8 "x"), .quoted (utf8 "x"), .bare (utf8 "p")], none⟩,
          ⟨[.bare (utf8 "b")], some (utf8 "q")⟩]⟩] }
  have hdoc : doc.WrittenIn mixedUses.text := Document.ofText_eq_ok_iff.mp (by decide +kernel)
  have hparse : parse mixedUses = .ok doc.description := parse_eq_ok_iff.mpr ⟨doc, hdoc, rfl⟩
  exact ⟨doc.description, hparse, by decide +kernel, by decide +kernel, namesTokens_of_parse hparse⟩

end Description

end YaccTables
