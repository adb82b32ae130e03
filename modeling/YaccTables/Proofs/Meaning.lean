import Mathlib.Data.List.Induction
import YaccTables.Document.Meaning
import YaccTables.Proofs.Validation

/-!
# Documents and what they describe

A description is built by adding to it, one declaration and one alternative after another. Here its
parts are read off the document at once: the start rule (`Document.description_start`) and the rules
with their productions (`Document.description_rules`). Declarations leave the rules alone and
definitions leave the start rule alone, so each is an induction over one section.
-/

namespace YaccTables

/-- The operand of `%start`. -/
def Declaration.start? : Declaration → Option Name
  | .start rule => some rule
  | _ => none

/-- The names that a declaration makes tokens or gives precedence. -/
def Declaration.names : Declaration → List Name
  | .start _ => []
  | .tokens names => names
  | .precedence _ names => names
  | .implicit names => names

namespace Document

/-- The operand of `%start`, empty if there is none. -/
def start (doc : Document) : Name := (doc.declarations.findSome? Declaration.start?).getD []

/-- The names declared before the first `%%`. -/
def declared (doc : Document) : List Name := doc.declarations.flatMap Declaration.names

/-- The names of the rules in order of first definition. -/
def ruleNames (doc : Document) : List Name := (doc.definitions.map Definition.rule).eraseDups

/-- The alternatives of all definitions of a rule. -/
def alternativesOf (doc : Document) (name : Name) : List Alternative :=
  (doc.definitions.filter (·.rule = name)).flatMap Definition.alternatives

/-- The rules that the definitions give. -/
def rules (doc : Document) : List Rule :=
  doc.ruleNames.map fun name =>
    { name := name
      productions := (doc.alternativesOf name).map fun alt =>
        { symbols := alt.symbols.map (Written.resolve doc.declared)
          prec := alt.prec.getD [] } }

end Document

namespace Description

/-! ## What the operations leave alone -/

@[simp] theorem addToken_start (a : Description) (name : Name) :
    (a.addToken name).start = a.start := by
  unfold addToken
  split <;> rfl

@[simp] theorem addToken_rules (a : Description) (name : Name) :
    (a.addToken name).rules = a.rules := by
  unfold addToken
  split <;> rfl

@[simp] theorem addToken_precs (a : Description) (name : Name) :
    (a.addToken name).precs = a.precs := by
  unfold addToken
  split <;> rfl

@[simp] theorem addImplicitToken_start (a : Description) (name : Name) :
    (a.addImplicitToken name).start = a.start := by
  unfold addImplicitToken
  dsimp only
  split <;> simp

@[simp] theorem addImplicitToken_rules (a : Description) (name : Name) :
    (a.addImplicitToken name).rules = a.rules := by
  unfold addImplicitToken
  dsimp only
  split <;> simp

@[simp] theorem declarePrec_start (p : Precedence) (a : Description) (name : Name) :
    (a.declarePrec p name).start = a.start := by
  unfold declarePrec
  split <;> rfl

@[simp] theorem declarePrec_rules (p : Precedence) (a : Description) (name : Name) :
    (a.declarePrec p name).rules = a.rules := by
  unfold declarePrec
  split <;> rfl

/-- What no step changes is the same after all of them. -/
theorem foldl_eq_of_step {α β : Type} {f : Description → β → Description} {get : Description → α}
    (hstep : ∀ a x, get (f a x) = get a) (a : Description) (xs : List β) :
    get (xs.foldl f a) = get a := by
  induction xs generalizing a with
  | nil => rfl
  | cons x xs ih => rw [List.foldl_cons, ih, hstep]

/-- Declarations define no rules. -/
theorem declare_rules (a : Description) (d : Declaration) : (a.declare d).rules = a.rules := by
  cases d with
  | start rule => rfl
  | tokens names => exact foldl_eq_of_step addToken_rules a names
  | precedence assoc names => exact foldl_eq_of_step (declarePrec_rules _) _ names
  | implicit names => exact foldl_eq_of_step addImplicitToken_rules a names

/-- A declaration of the start rule counts, and no other changes it. -/
theorem declare_start (a : Description) (d : Declaration) :
    (a.declare d).start = d.start?.getD a.start := by
  cases d with
  | start rule => rfl
  | tokens names => exact foldl_eq_of_step addToken_start a names
  | precedence assoc names => exact foldl_eq_of_step (declarePrec_start _) _ names
  | implicit names => exact foldl_eq_of_step addImplicitToken_start a names

@[simp] theorem addRule_start (a : Description) (name : Name) :
    (a.addRule name).start = a.start := by
  unfold addRule
  split <;> rfl

theorem addAlternative_start (declared : List Name) (rule : Name) (a : Description)
    (alt : Alternative) : (a.addAlternative declared rule alt).start = a.start := by
  unfold addAlternative addProduction
  dsimp only
  rw [addRule_start]
  exact foldl_eq_of_step addToken_start a _

/-- Definitions leave the start rule alone. -/
theorem define_start (declared : List Name) (a : Description) (d : Definition) :
    (a.define declared d).start = a.start := by
  unfold define
  rw [foldl_eq_of_step (addAlternative_start declared d.rule), addRule_start]

/-! ## Declared names -/

/-- A name is declared as a token or with a precedence. -/
theorem mem_declaredNames {a : Description} {name : Name} :
    name ∈ a.declaredNames ↔ name ∈ a.tokens ∨ ∃ p, (name, p) ∈ a.precs := by
  simp [declaredNames]

/-- A token that is added is there, and nothing else is new. -/
theorem mem_addToken_tokens {a : Description} {name n : Name} :
    n ∈ (a.addToken name).tokens ↔ n ∈ a.tokens ∨ n = name := by
  unfold addToken
  split
  · next h =>
    have hmem : name ∈ a.tokens := List.contains_iff_mem.mp h
    constructor
    · exact .inl
    · rintro (hn | rfl)
      · exact hn
      · exact hmem
  · simp

/-- Adding a token declares its name. -/
theorem mem_declaredNames_addToken {a : Description} {name n : Name} :
    n ∈ (a.addToken name).declaredNames ↔ n ∈ a.declaredNames ∨ n = name := by
  simp only [mem_declaredNames, mem_addToken_tokens, addToken_precs]
  tauto

/-- Adding an implicit token declares its name. -/
theorem mem_declaredNames_addImplicitToken {a : Description} {name n : Name} :
    n ∈ (a.addImplicitToken name).declaredNames ↔ n ∈ a.declaredNames ∨ n = name := by
  have hnames : (a.addImplicitToken name).declaredNames = (a.addToken name).declaredNames := by
    unfold addImplicitToken
    dsimp only
    split <;> rfl
  rw [hnames, mem_declaredNames_addToken]

/-- Giving a name a precedence declares it. -/
theorem mem_declaredNames_declarePrec {p : Precedence} {a : Description} {name n : Name} :
    n ∈ (a.declarePrec p name).declaredNames ↔ n ∈ a.declaredNames ∨ n = name := by
  unfold declarePrec
  split
  · next q h =>
    -- a name with precedence is declared already
    have hmem : name ∈ a.declaredNames := by
      obtain ⟨before, after, hprecs, -⟩ := List.lookup_eq_some_iff.mp h
      exact mem_declaredNames.mpr (.inr ⟨q, by simp [hprecs]⟩)
    constructor
    · exact .inl
    · rintro (hn | rfl)
      · exact hn
      · exact hmem
  · simp [declaredNames, or_assoc]

/-- If each step declares its name, all steps declare all names. -/
theorem mem_declaredNames_foldl {f : Description → Name → Description}
    (hstep : ∀ {a name n}, n ∈ (f a name).declaredNames ↔ n ∈ a.declaredNames ∨ n = name)
    {a : Description} {names : List Name} {n : Name} :
    n ∈ (names.foldl f a).declaredNames ↔ n ∈ a.declaredNames ∨ n ∈ names := by
  induction names generalizing a with
  | nil => simp
  | cons name names ih => rw [List.foldl_cons, ih, hstep, List.mem_cons, or_assoc]

/-- A declaration declares its names. -/
theorem mem_declaredNames_declare {a : Description} {d : Declaration} {n : Name} :
    n ∈ (a.declare d).declaredNames ↔ n ∈ a.declaredNames ∨ n ∈ d.names := by
  cases d with
  | start rule => simp [declare, declaredNames, Declaration.names]
  | tokens names => exact mem_declaredNames_foldl mem_declaredNames_addToken
  | precedence assoc names => exact mem_declaredNames_foldl mem_declaredNames_declarePrec
  | implicit names => exact mem_declaredNames_foldl mem_declaredNames_addImplicitToken

/-- Declarations declare the names of all of them. -/
theorem mem_declaredNames_foldl_declare {a : Description} {decls : List Declaration} {n : Name} :
    n ∈ (decls.foldl declare a).declaredNames ↔
      n ∈ a.declaredNames ∨ n ∈ decls.flatMap Declaration.names := by
  induction decls generalizing a with
  | nil => simp
  | cons d decls ih =>
    rw [List.foldl_cons, ih, mem_declaredNames_declare, List.flatMap_cons, List.mem_append,
      or_assoc]

/-! ## Rules -/

/-- A name that was there already is dropped. -/
theorem eraseDups_concat_of_mem {names : List Name} {name : Name} (h : name ∈ names) :
    (names ++ [name]).eraseDups = names.eraseDups := by
  rw [List.eraseDups_append]
  simp [List.removeAll, h]

/-- A new name is kept at the end. -/
theorem eraseDups_concat_of_notMem {names : List Name} {name : Name} (h : name ∉ names) :
    (names ++ [name]).eraseDups = names.eraseDups ++ [name] := by
  rw [List.eraseDups_append, show [name].removeAll names = [name] by simp [List.removeAll, h]]
  rfl

theorem nodup_eraseDups (names : List Name) : names.eraseDups.Nodup := by
  induction names using List.reverseRecOn with
  | nil => exact List.nodup_nil
  | append_singleton names name ih =>
    by_cases h : name ∈ names
    · rwa [eraseDups_concat_of_mem h]
    · rw [eraseDups_concat_of_notMem h]
      refine List.nodup_append.mpr ⟨ih, List.nodup_singleton name, ?_⟩
      intro n hn m hm heq
      rw [List.mem_singleton.mp hm] at heq
      exact h (heq ▸ List.mem_eraseDups.mp hn)

/-- Rules by their names, given the productions of each. -/
def rulesOf (names : List Name) (prods : Name → List Production) : List Rule :=
  names.map fun name => ⟨name, prods name⟩

/-- The rules that are found are those that have been made. -/
theorem rule?_isSome_iff {a : Description} {names : List Name} {prods : Name → List Production}
    (h : a.rules = rulesOf names prods) {name : Name} :
    (a.rule? name).isSome = true ↔ name ∈ names := by
  simp [rule?, h, rulesOf]

/-- A rule that is there already is not added. -/
theorem addRule_of_mem {a : Description} {names : List Name} {prods : Name → List Production}
    (h : a.rules = rulesOf names prods) {name : Name} (hmem : name ∈ names) :
    a.addRule name = a := by
  unfold addRule
  rw [if_pos ((rule?_isSome_iff h).mpr hmem)]

/-- A new rule comes last. -/
theorem addRule_of_notMem {a : Description} {names : List Name} {prods : Name → List Production}
    (h : a.rules = rulesOf names prods) {name : Name} (hmem : name ∉ names)
    (hprods : prods name = []) : (a.addRule name).rules = rulesOf (names ++ [name]) prods := by
  unfold addRule
  rw [if_neg fun hsome => hmem ((rule?_isSome_iff h).mp hsome)]
  simp [h, rulesOf, hprods]

/-- Productions of a name that has no rule do not matter. -/
theorem rulesOf_update_of_notMem {names : List Name} {prods : Name → List Production}
    {name : Name} (hmem : name ∉ names) (ps : List Production) :
    rulesOf names (Function.update prods name ps) = rulesOf names prods := by
  refine List.map_congr_left fun n hn => ?_
  rw [Function.update_of_ne (ne_of_mem_of_not_mem hn hmem)]

/-- A production goes to the end of its rule. -/
theorem appendTo_rulesOf {names : List Name} {prods : Name → List Production} {name : Name}
    (hnodup : names.Nodup) (hmem : name ∈ names) (p : Production) :
    appendTo name p (rulesOf names prods) =
      rulesOf names (Function.update prods name (prods name ++ [p])) := by
  induction names with
  | nil => exact absurd hmem (by simp)
  | cons n names ih =>
    -- only the first rule of the name gets the production, but there is no second one
    obtain ⟨hn, hnodup⟩ := List.nodup_cons.mp hnodup
    show appendTo name p (⟨n, prods n⟩ :: rulesOf names prods) =
      ⟨n, Function.update prods name (prods name ++ [p]) n⟩ :: rulesOf names _
    rw [appendTo]
    by_cases h : n = name
    · subst h
      rw [if_pos rfl, rulesOf_update_of_notMem hn, Function.update_self]
    · have hmem : name ∈ names := (List.mem_cons.mp hmem).resolve_left (Ne.symm h)
      rw [if_neg h, ih hnodup hmem, Function.update_of_ne h]

/-- An alternative becomes the last production of its rule. -/
theorem addAlternative_rules {declared names : List Name} {prods : Name → List Production}
    {name : Name} {a : Description} (h : a.rules = rulesOf names prods) (hnodup : names.Nodup)
    (hmem : name ∈ names) (alt : Alternative) :
    (a.addAlternative declared name alt).rules =
      rulesOf names (Function.update prods name (prods name ++ [alt.production declared])) := by
  unfold addAlternative addProduction
  dsimp only
  -- the tokens that the alternative uses are declared first, which leaves the rules alone
  have htokens : ((SymbolRef.tokenNames (alt.production declared).symbols).foldl addToken a).rules =
      rulesOf names prods := (foldl_eq_of_step addToken_rules a _).trans h
  rw [addRule_of_mem htokens hmem, htokens, appendTo_rulesOf hnodup hmem]

/-- Alternatives become productions of their rule, in order. -/
theorem foldl_addAlternative_rules {declared names : List Name} {prods : Name → List Production}
    {name : Name} {a : Description} (h : a.rules = rulesOf names prods) (hnodup : names.Nodup)
    (hmem : name ∈ names) (alts : List Alternative) :
    (alts.foldl (addAlternative declared name) a).rules =
      rulesOf names (Function.update prods name
        (prods name ++ alts.map (Alternative.production declared))) := by
  induction alts generalizing a prods with
  | nil => simp [h]
  | cons alt alts ih =>
    rw [List.foldl_cons, ih (addAlternative_rules h hnodup hmem alt)]
    simp

/-- A definition adds its alternatives to those of its rule, which becomes the last rule unless it
was defined before. -/
theorem define_rules {declared names : List Name} {prods : Name → List Production}
    {a : Description} (h : a.rules = rulesOf names.eraseDups prods)
    (hprods : ∀ name, name ∉ names → prods name = []) (d : Definition) :
    (a.define declared d).rules =
      rulesOf (names ++ [d.rule]).eraseDups (Function.update prods d.rule
        (prods d.rule ++ d.alternatives.map (Alternative.production declared))) := by
  have hrule : (a.addRule d.rule).rules = rulesOf (names ++ [d.rule]).eraseDups prods := by
    by_cases hmem : d.rule ∈ names
    · rw [addRule_of_mem h (List.mem_eraseDups.mpr hmem), h, eraseDups_concat_of_mem hmem]
    · rw [addRule_of_notMem h (fun hd => hmem (List.mem_eraseDups.mp hd)) (hprods _ hmem),
        eraseDups_concat_of_notMem hmem]
  have hmem : d.rule ∈ (names ++ [d.rule]).eraseDups := List.mem_eraseDups.mpr (by simp)
  exact foldl_addAlternative_rules hrule (nodup_eraseDups _) hmem d.alternatives

/-- Definitions of one rule are put together, in the order of the first of them. -/
theorem foldl_define_rules (declared : List Name) {a : Description} (ha : a.rules = [])
    (defs : List Definition) :
    (defs.foldl (define declared) a).rules =
      rulesOf (defs.map Definition.rule).eraseDups fun name =>
        ((defs.filter (·.rule = name)).flatMap Definition.alternatives).map
          (Alternative.production declared) := by
  -- from the last definition, since the rules grow at their end
  induction defs using List.reverseRecOn with
  | nil => exact ha
  | append_singleton defs d ih =>
    rw [List.foldl_append, List.foldl_cons, List.foldl_nil, define_rules ih, List.map_append]
    · congr 1
      funext name
      by_cases h : d.rule = name
      · subst h
        simp
      · simp [Function.update_of_ne (Ne.symm h), h]
    · -- a rule that was not defined yet has no alternatives
      intro name hname
      have hnone : defs.filter (·.rule = name) = [] := by
        rw [List.filter_eq_nil_iff]
        intro d hd hrule
        exact hname (List.mem_map.mpr ⟨d, hd, of_decide_eq_true hrule⟩)
      rw [hnone]
      rfl

end Description

/-- Only what is declared matters for what a name refers to. -/
theorem Written.resolve_congr {declared declared' : List Name}
    (h : ∀ name, name ∈ declared ↔ name ∈ declared') :
    Written.resolve declared = Written.resolve declared' := by
  funext w
  cases w with
  | quoted name => rfl
  | bare name => simp only [resolve, List.contains_iff_mem, h name]

/-- A written symbol refers to a rule or a token. -/
theorem Written.resolve_isKnown (declared : List Name) (w : Written) :
    (w.resolve declared).IsKnown := by
  cases w with
  | quoted name => trivial
  | bare name =>
    show (if declared.contains name then SymbolRef.token name else SymbolRef.rule name).IsKnown
    split <;> trivial

namespace Document

/-! ## The parts of a description -/

/-- Where no declaration is of the start rule, none is found. -/
theorem start?_eq_none {decls : List Declaration}
    (h : decls.countP Declaration.isStart = 0) : decls.findSome? Declaration.start? = none := by
  rw [List.findSome?_eq_none_iff]
  intro d hd
  have hstart := List.countP_eq_zero.mp h d hd
  cases d with
  | start rule => exact absurd rfl hstart
  | _ => rfl

/-- Of one declaration of the start rule at most, it is the one that counts. -/
theorem foldl_declare_start {decls : List Declaration}
    (h : decls.countP Declaration.isStart ≤ 1) (a : Description) :
    (decls.foldl Description.declare a).start =
      (decls.findSome? Declaration.start?).getD a.start := by
  induction decls generalizing a with
  | nil => rfl
  | cons d decls ih =>
    rw [List.countP_cons] at h
    rw [List.foldl_cons, ih (by omega), Description.declare_start, List.findSome?_cons]
    cases d with
    | start rule =>
      -- this was the only `%start`
      have hnone : decls.countP Declaration.isStart = 0 := by
        rw [show (Declaration.start rule).isStart = true from rfl, if_pos rfl] at h
        omega
      rw [start?_eq_none hnone]
      rfl
    | _ => rfl

/-- The start rule of a document is the one that it declares. -/
theorem description_start {doc : Document}
    (h : doc.declarations.countP Declaration.isStart ≤ 1) : doc.description.start = doc.start := by
  unfold description
  rw [Description.foldl_eq_of_step (Description.define_start _), foldl_declare_start h]
  rfl

/-- Names count as declared whichever declaration mentions them, and how often. -/
theorem mem_declaredNames_iff (doc : Document) (name : Name) :
    name ∈ (doc.declarations.foldl Description.declare .empty).declaredNames ↔
      name ∈ doc.declared := by
  rw [Description.mem_declaredNames_foldl_declare]
  simp [Description.declaredNames, Description.empty, declared]

/-- The rules of a document are those that it defines. -/
theorem description_rules (doc : Document) : doc.description.rules = doc.rules := by
  have hrules : (doc.declarations.foldl Description.declare .empty).rules = [] :=
    Description.foldl_eq_of_step Description.declare_rules .empty doc.declarations
  unfold description
  dsimp only
  rw [Description.foldl_define_rules _ hrules]
  unfold Alternative.production
  rw [Written.resolve_congr doc.mem_declaredNames_iff]
  rfl

/-- No text makes a reference other than to a rule or to a token. -/
theorem description_hasKnownKinds (doc : Document) : doc.description.HasKnownKinds := by
  unfold Description.HasKnownKinds
  rw [description_rules]
  intro r hr p hp ref href
  obtain ⟨name, -, rfl⟩ := List.mem_map.mp hr
  obtain ⟨alt, -, rfl⟩ := List.mem_map.mp hp
  obtain ⟨w, -, rfl⟩ := List.mem_map.mp href
  exact Written.resolve_isKnown doc.declared w

end Document

end YaccTables
