import Mathlib.Data.Finset.Card
import YaccTables.Proofs.Parsing
import YaccTables.Proofs.Problems

/-!
# What a run of precedence declarations leaves

A description gets its precedences group by group, with a counter for the levels, a table of what
was declared and a list of what was declared again. Here all three are told from the groups alone:
a name has the level and the associativity of the first group that mentions it, and it was declared
again wherever it stands a second time, in the same group or in another
(`Description.DeclaredBy`). A group whose names were all declared before still takes a level.

The invariant is `Description.Tracks`. One declaration of one name keeps it
(`Records.declarePrec`), hence so does a group (`Tracks.addPrecGroup`); everything else that builds
up a description leaves its precedences alone, and so the invariant holds after every run, whether
the description is built by hand (`Description.tracks_build`) or read from text
(`Document.tracks_description`).
-/

namespace YaccTables

/-- The names that one declaration puts on a level. -/
structure PrecGroup where
  assoc : Assoc
  names : List Name
  deriving DecidableEq, Repr

/-! ## Names that stand again -/

/-- The last name is checked against all before it. -/
theorem overEarlier_concat {β : Type} (check : List Name → Name → List β) (names : List Name)
    (name : Name) :
    overEarlier check (names ++ [name]) = overEarlier check names ++ check names name := by
  unfold overEarlier
  rw [List.zipIdx_append, List.flatMap_append]
  congr 1
  · refine List.flatMap_congr fun entry hentry => ?_
    have hlt := (List.mem_zipIdx' hentry).1
    rw [List.take_append_of_le_length (by omega)]
  · simp

/-- The last name counts as declared again if it was there before. -/
theorem again_concat (names : List Name) (name : Name) :
    again (names ++ [name]) = again names ++ if name ∈ names then [name] else [] :=
  overEarlier_concat _ names name

/-- Every place of a list is the first one of its name or a later one. -/
theorem length_again (names : List Name) :
    (again names).length + names.toFinset.card = names.length := by
  induction names using List.reverseRecOn with
  | nil => rfl
  | append_singleton names name ih =>
    rw [again_concat, List.toFinset_append, List.toFinset_cons, List.toFinset_nil,
      insert_empty_eq, Finset.union_singleton, List.length_append, List.length_append]
    by_cases h : name ∈ names
    · rw [if_pos h, Finset.insert_eq_of_mem (List.mem_toFinset.mpr h)]
      simp only [List.length_singleton]
      omega
    · rw [if_neg h, Finset.card_insert_of_notMem (fun hmem => h (List.mem_toFinset.mp hmem))]
      simp only [List.length_singleton, List.length_nil]
      omega

/-! ## Groups name by name -/

/-- What groups declare, name by name, with their levels counted from a number. -/
def declarationsFrom (level : Nat) (groups : List PrecGroup) : List (Name × Precedence) :=
  (groups.zipIdx level).flatMap fun entry =>
    entry.1.names.map fun name => (name, ⟨entry.2, entry.1.assoc⟩)

/-- The last group gets the next level. -/
theorem declarationsFrom_concat (groups : List PrecGroup) (group : PrecGroup) :
    declarationsFrom 0 (groups ++ [group]) = declarationsFrom 0 groups
      ++ group.names.map fun name => (name, ⟨groups.length, group.assoc⟩) := by
  simp [declarationsFrom, List.zipIdx_append]

/-- The names of all groups are declared, in order. -/
theorem map_fst_declarationsFrom (level : Nat) (groups : List PrecGroup) :
    (declarationsFrom level groups).map Prod.fst = groups.flatMap PrecGroup.names := by
  induction groups generalizing level with
  | nil => rfl
  | cons group groups ih =>
    have hrest := ih (level + 1)
    simp only [declarationsFrom] at hrest
    simp [declarationsFrom, hrest, Function.comp_def]

/-- Names that all get the same precedence. -/
theorem lookup_map_const (names : List Name) (p : Precedence) (name : Name) :
    (names.map fun n => (n, p)).lookup name = if name ∈ names then some p else none := by
  induction names with
  | nil => rfl
  | cons n names ih =>
    rw [List.map_cons, List.lookup_cons, ih]
    by_cases h : name = n
    · simp [h]
    · have hbeq : (name == n) = false := beq_eq_false_iff_ne.mpr h
      simp [hbeq, h]

/-- The first declaration of a name stands in the first group that mentions it. -/
theorem lookup_declarationsFrom {level : Nat} {groups : List PrecGroup} {name : Name}
    {p : Precedence} :
    (declarationsFrom level groups).lookup name = some p ↔
      ∃ i group, groups[i]? = some group ∧ name ∈ group.names ∧
        (∀ earlier ∈ groups.take i, name ∉ earlier.names) ∧ p = ⟨level + i, group.assoc⟩ := by
  induction groups generalizing level with
  | nil => simp [declarationsFrom]
  | cons first groups ih =>
    have hsplit : declarationsFrom level (first :: groups)
        = (first.names.map fun n => (n, ⟨level, first.assoc⟩))
          ++ declarationsFrom (level + 1) groups := rfl
    rw [hsplit, List.lookup_append, lookup_map_const]
    by_cases h : name ∈ first.names
    · rw [if_pos h, Option.some_or, Option.some.injEq]
      constructor
      · rintro rfl
        exact ⟨0, first, rfl, h, by simp, rfl⟩
      · rintro ⟨i, group, hi, -, hearlier, rfl⟩
        cases i with
        | zero =>
          obtain rfl := Option.some.inj hi
          rfl
        | succ i => exact absurd h (hearlier first (by simp))
    · rw [if_neg h, Option.none_or, ih]
      constructor
      · rintro ⟨i, group, hi, hname, hearlier, rfl⟩
        refine ⟨i + 1, group, hi, hname, ?_, by rw [Nat.add_assoc, Nat.add_comm 1 i]⟩
        intro earlier hmem
        rcases List.mem_cons.mp hmem with rfl | hmem
        · exact h
        · exact hearlier earlier hmem
      · rintro ⟨i, group, hi, hname, hearlier, rfl⟩
        cases i with
        | zero => exact absurd (Option.some.inj hi ▸ hname) h
        | succ i =>
          refine ⟨i, group, hi, hname, ?_, by rw [Nat.add_assoc, Nat.add_comm 1 i]⟩
          exact fun earlier hmem => hearlier earlier (List.mem_cons_of_mem first hmem)

namespace Description

/-! ## One declaration -/

/-- The description holds the first of the declarations of each name and lists the others. -/
structure Records (a : Description) (declared : List (Name × Precedence)) : Prop where
  prec?_eq : ∀ name, a.prec? name = declared.lookup name
  keys_nodup : (a.precs.map Prod.fst).Nodup
  redeclared_eq : a.redeclared = again (declared.map Prod.fst)

/-- A name is found if it has been declared. -/
theorem lookup_isSome_iff {declared : List (Name × Precedence)} {name : Name} :
    (declared.lookup name).isSome ↔ name ∈ declared.map Prod.fst := by
  rw [← prec?.eq_1 { precs := declared } name, isSome_prec?_iff]
  simp

namespace Records

variable {a : Description} {declared : List (Name × Precedence)}

/-- The names with a precedence are those declared so far. -/
theorem mem_keys_iff (h : a.Records declared) {name : Name} :
    name ∈ a.precs.map Prod.fst ↔ name ∈ declared.map Prod.fst := by
  rw [← lookup_isSome_iff, ← lookup_isSome_iff, ← h.prec?_eq, prec?]

/-- One more declaration is recorded, unless the name has a precedence already. -/
theorem declarePrec (h : a.Records declared) (p : Precedence) (name : Name) :
    (a.declarePrec p name).Records (declared ++ [(name, p)]) := by
  have hmem : (declared.lookup name).isSome ↔ name ∈ declared.map Prod.fst := lookup_isSome_iff
  unfold Description.declarePrec
  cases hprec : a.prec? name with
  | some q =>
    -- the name has its entry, and what comes after the entry is not seen
    rw [h.prec?_eq] at hprec
    rw [hprec] at hmem
    replace hmem := hmem.mp rfl
    constructor
    case prec?_eq =>
      intro n
      rw [List.lookup_append, ← h.prec?_eq]
      by_cases hn : n = name
      · subst hn
        show a.prec? n = _
        rw [h.prec?_eq, hprec, Option.some_or]
      · have hbeq : (n == name) = false := beq_eq_false_iff_ne.mpr hn
        rw [List.lookup_cons, hbeq, List.lookup_nil, Option.or_none]
        rfl
    case keys_nodup => exact h.keys_nodup
    case redeclared_eq =>
      show a.redeclared ++ [name] = _
      rw [List.map_append, List.map_singleton, again_concat, if_pos hmem, h.redeclared_eq]
  | none =>
    rw [h.prec?_eq] at hprec
    rw [hprec] at hmem
    have hnot : name ∉ declared.map Prod.fst := fun hn => absurd (hmem.mpr hn) (by simp)
    constructor
    case prec?_eq =>
      intro n
      have hold := h.prec?_eq n
      simp only [prec?] at hold ⊢
      rw [List.lookup_append, List.lookup_append, hold]
    case keys_nodup =>
      show ((a.precs ++ [(name, p)]).map Prod.fst).Nodup
      rw [List.map_append]
      refine List.nodup_append.mpr ⟨h.keys_nodup, List.nodup_singleton name, ?_⟩
      intro n hn m hm heq
      rw [List.map_singleton, List.mem_singleton] at hm
      rw [heq, hm] at hn
      exact hnot (h.mem_keys_iff.mp hn)
    case redeclared_eq =>
      show a.redeclared = _
      rw [List.map_append, List.map_singleton, again_concat, if_neg hnot, List.append_nil,
        h.redeclared_eq]

/-- The names of a group are recorded one after the other. -/
theorem foldl_declarePrec (h : a.Records declared) (p : Precedence) (names : List Name) :
    (names.foldl (Description.declarePrec p) a).Records
      (declared ++ names.map fun name => (name, p)) := by
  induction names generalizing a declared with
  | nil => simpa using h
  | cons name names ih =>
    have hrest := ih (h.declarePrec p name)
    rwa [List.append_assoc] at hrest

end Records

/-- Declaring a name leaves the level of the next group alone. -/
theorem declarePrec_nextLevel (p : Precedence) (a : Description) (name : Name) :
    (a.declarePrec p name).nextLevel = a.nextLevel := by
  unfold declarePrec
  split <;> rfl

/-! ## One step of a run -/

/-- The precedences of the description are those of the groups. -/
structure Tracks (a : Description) (groups : List PrecGroup) : Prop where
  nextLevel_eq : a.nextLevel = groups.length
  records : a.Records (declarationsFrom 0 groups)

/-- Nothing tracks no groups. -/
theorem tracks_empty : Description.empty.Tracks [] :=
  ⟨rfl, fun _ => rfl, List.nodup_nil, rfl⟩

/-- One more group is tracked. -/
theorem Tracks.addPrecGroup {a : Description} {groups : List PrecGroup} (h : a.Tracks groups)
    (group : PrecGroup) : (a.addPrecGroup group.assoc group.names).Tracks (groups ++ [group]) := by
  constructor
  case nextLevel_eq =>
    have hlevel := foldl_eq_of_step (declarePrec_nextLevel ⟨a.nextLevel, group.assoc⟩)
      { a with nextLevel := a.nextLevel + 1 } group.names
    rw [List.length_append, List.length_singleton, ← h.nextLevel_eq]
    exact hlevel
  case records =>
    have hstart : Records { a with nextLevel := a.nextLevel + 1 } (declarationsFrom 0 groups) :=
      ⟨h.records.prec?_eq, h.records.keys_nodup, h.records.redeclared_eq⟩
    rw [declarationsFrom_concat, ← h.nextLevel_eq]
    exact hstart.foldl_declarePrec ⟨a.nextLevel, group.assoc⟩ group.names

/-- What a description knows of precedences. -/
def precState (a : Description) : List (Name × Precedence) × Nat × List Name :=
  (a.precs, a.nextLevel, a.redeclared)

/-- Only what is recorded of precedences matters. -/
theorem Tracks.congr {a b : Description} {groups : List PrecGroup} (h : a.Tracks groups)
    (hb : b.precState = a.precState) : b.Tracks groups := by
  obtain ⟨hprecs, hrest⟩ := Prod.mk.inj hb
  obtain ⟨hlevel, hredeclared⟩ := Prod.mk.inj hrest
  exact
    { nextLevel_eq := hlevel.trans h.nextLevel_eq
      records :=
        { prec?_eq := fun name => by rw [← h.records.prec?_eq, prec?, prec?, hprecs]
          keys_nodup := hprecs ▸ h.records.keys_nodup
          redeclared_eq := hredeclared.trans h.records.redeclared_eq } }

/-- A step that leaves precedences alone declares no group. -/
theorem Tracks.keep {a b : Description} {groups : List PrecGroup} (h : a.Tracks groups)
    (hb : b.precState = a.precState) : b.Tracks (groups ++ []) := by
  rw [List.append_nil]
  exact h.congr hb

/-- What holds of each step holds of a run of steps. -/
theorem Tracks.foldl {β : Type} {step : Description → β → Description}
    {group? : β → Option PrecGroup}
    (hstep : ∀ {a groups}, Tracks a groups → ∀ x, (step a x).Tracks (groups ++ (group? x).toList))
    {a : Description} {groups : List PrecGroup} (h : a.Tracks groups) (xs : List β) :
    (xs.foldl step a).Tracks (groups ++ xs.filterMap group?) := by
  induction xs generalizing a groups with
  | nil => simpa using h
  | cons x xs ih =>
    have hrest := ih (hstep h x)
    rw [List.append_assoc] at hrest
    rw [List.foldl_cons, List.filterMap_cons]
    cases hx : group? x with
    | none => simpa [hx] using hrest
    | some group => simpa [hx] using hrest

/-! ## What leaves precedences alone -/

theorem addToken_precState (a : Description) (name : Name) :
    (a.addToken name).precState = a.precState := by
  unfold addToken
  split <;> rfl

theorem addRule_precState (a : Description) (name : Name) :
    (a.addRule name).precState = a.precState := by
  unfold addRule
  split <;> rfl

theorem addProduction_precState (a : Description) (name : Name) (p : Production) :
    (a.addProduction name p).precState = a.precState :=
  addRule_precState a name

theorem addImplicitToken_precState (a : Description) (name : Name) :
    (a.addImplicitToken name).precState = a.precState := by
  unfold addImplicitToken
  dsimp only
  split
  · exact addToken_precState a name
  · exact addToken_precState a name

/-- Definitions leave precedences alone. -/
theorem define_precState (declared : List Name) (a : Description) (d : Definition) :
    (a.define declared d).precState = a.precState := by
  have halt : ∀ b alt, (addAlternative declared d.rule b alt).precState = b.precState := by
    intro b alt
    unfold addAlternative
    dsimp only
    rw [addProduction_precState]
    exact foldl_eq_of_step addToken_precState b _
  rw [define, foldl_eq_of_step halt, addRule_precState]

/-! ## Whole runs -/

/-- One way to add to a description. -/
inductive Addition
  | token (name : Name)
  | rule (name : Name)
  | production (rule : Name) (p : Production)
  | implicitTokens (names : List Name)
  | precGroup (group : PrecGroup)
  deriving DecidableEq, Repr

/-- The description after an addition. -/
def add (a : Description) : Addition → Description
  | .token name => a.addToken name
  | .rule name => a.addRule name
  | .production rule p => a.addProduction rule p
  | .implicitTokens names => a.addImplicitTokens names
  | .precGroup group => a.addPrecGroup group.assoc group.names

/-- The description that additions build up, one after the other. -/
def build (additions : List Addition) : Description := additions.foldl add .empty

/-- The group that an addition declares. -/
def Addition.precGroup? : Addition → Option PrecGroup
  | .precGroup group => some group
  | _ => none

/-- The groups that a run of additions declares. -/
def precGroups (additions : List Addition) : List PrecGroup :=
  additions.filterMap Addition.precGroup?

/-- An addition adds its group, if it is one. -/
theorem Tracks.add {a : Description} {groups : List PrecGroup} (h : a.Tracks groups)
    (addition : Addition) : (a.add addition).Tracks (groups ++ addition.precGroup?.toList) := by
  cases addition with
  | precGroup group => exact h.addPrecGroup group
  | token name => exact h.keep (addToken_precState a name)
  | rule name => exact h.keep (addRule_precState a name)
  | production rule p => exact h.keep (addProduction_precState a rule p)
  | implicitTokens names => exact h.keep (foldl_eq_of_step addImplicitToken_precState a names)

/-- What is built tracks the groups that were added. -/
theorem tracks_build (additions : List Addition) :
    (build additions).Tracks (precGroups additions) :=
  tracks_empty.foldl Tracks.add additions

end Description

/-- The group that a declaration of a document makes. -/
def Declaration.precGroup? : Declaration → Option PrecGroup
  | .precedence assoc names => some ⟨assoc, names⟩
  | .start _ | .tokens _ | .implicit _ => none

namespace Document

/-- The precedence groups of a document, in order. -/
def precGroups (doc : Document) : List PrecGroup :=
  doc.declarations.filterMap Declaration.precGroup?

/-- A declaration adds its group, if it is one. -/
theorem tracks_declare {a : Description} {groups : List PrecGroup} (h : a.Tracks groups)
    (d : Declaration) : (a.declare d).Tracks (groups ++ d.precGroup?.toList) := by
  cases d with
  | precedence assoc names => exact h.addPrecGroup ⟨assoc, names⟩
  | start rule => exact h.keep rfl
  | tokens names =>
    exact h.keep (Description.foldl_eq_of_step Description.addToken_precState a names)
  | implicit names =>
    exact h.keep (Description.foldl_eq_of_step Description.addImplicitToken_precState a names)

/-- The description of a document tracks the groups that it declares. -/
theorem tracks_description (doc : Document) : doc.description.Tracks doc.precGroups := by
  refine (Description.tracks_empty.foldl tracks_declare doc.declarations).congr ?_
  exact Description.foldl_eq_of_step (Description.define_precState _) _ doc.definitions

end Document

/-! ## The closed form -/

/-- Whatever is listed has a site. -/
theorem Listed.exists_site {σ β : Type} {before : σ → σ → Prop} {holds : σ → β → Prop}
    {found : List β} (h : Listed before holds found) {b : β} (hb : b ∈ found) :
    ∃ site, holds site b := by
  obtain ⟨marked, -, hmem, rfl⟩ := h
  obtain ⟨entry, hentry, rfl⟩ := List.mem_map.mp hb
  exact ⟨entry.1, (hmem _ _).mp hentry⟩

namespace Description

/-- Precedences that are declared twice are found at one stage. -/
theorem Faulty.stage_of_duplicatePrecedence {a : Description} {site : Site} {p : Problem}
    (h : a.Faulty site p) (hp : p.kind = .duplicatePrecedence) : site.stage = 4 := by
  cases h with
  | duplicatePrecedence _ => rfl
  | _ => exact absurd hp (by simp)

/-- Redeclared names, and only they, are reported as declared again. -/
theorem filter_duplicatePrecedence (a : Description) :
    a.problems.filter (·.kind = .duplicatePrecedence)
      = a.redeclared.map fun name => { kind := .duplicatePrecedence, name } := by
  -- no other stage finds a problem of this sort
  have hnone : ∀ {n : Nat} {found : List Problem}, n ≠ 4 →
      Listed Site.Before (fun s p => a.Faulty s p ∧ s.stage = n) found →
      found.filter (·.kind = .duplicatePrecedence) = [] := by
    intro n found hn hlisted
    rw [List.filter_eq_nil_iff]
    intro p hp hkind
    obtain ⟨site, hfaulty, hstage⟩ := Listed.exists_site hlisted hp
    have := hfaulty.stage_of_duplicatePrecedence (of_decide_eq_true hkind)
    omega
  unfold problems
  simp only [List.filter_append]
  rw [hnone (by decide) a.ruleNames_listed, hnone (by decide) a.tokens_listed,
    hnone (by decide) a.start_listed, hnone (by decide) a.rules_listed,
    hnone (by decide) a.implicitTokens_listed, List.filter_eq_self.mpr (by simp)]
  simp

/-- The precedences of the description are those that the groups declare. -/
structure DeclaredBy (a : Description) (groups : List PrecGroup) : Prop where
  /-- There is one entry for each name that a group mentions, and no other. -/
  hasEntry_iff : ∀ name, name ∈ a.precs.map Prod.fst ↔ ∃ group ∈ groups, name ∈ group.names
  entries_nodup : (a.precs.map Prod.fst).Nodup
  /-- It has the number and the associativity of the first group that mentions the name. -/
  prec?_iff : ∀ name p, a.prec? name = some p ↔
    ∃ i group, groups[i]? = some group ∧ name ∈ group.names ∧
      (∀ earlier ∈ groups.take i, name ∉ earlier.names) ∧ p = ⟨i, group.assoc⟩
  /-- Every mention of a name but its first is listed, in order. -/
  redeclared_eq : a.redeclared = again (groups.flatMap PrecGroup.names)
  /-- As many problems are reported as there are mentions beyond the first ones. -/
  count_problems : a.problems.countP (·.kind = .duplicatePrecedence)
    = (groups.flatMap PrecGroup.names).length - (groups.flatMap PrecGroup.names).toFinset.card
  problems_eq : a.problems.filter (·.kind = .duplicatePrecedence)
    = (again (groups.flatMap PrecGroup.names)).map fun name => ⟨.duplicatePrecedence, [], name⟩

/-- What tracks groups is what these declare. -/
theorem Tracks.declaredBy {a : Description} {groups : List PrecGroup} (h : a.Tracks groups) :
    a.DeclaredBy groups := by
  have hredeclared : a.redeclared = again (groups.flatMap PrecGroup.names) := by
    rw [h.records.redeclared_eq, map_fst_declarationsFrom]
  constructor
  case hasEntry_iff =>
    intro name
    rw [h.records.mem_keys_iff, map_fst_declarationsFrom, List.mem_flatMap]
  case entries_nodup => exact h.records.keys_nodup
  case prec?_iff =>
    intro name p
    rw [h.records.prec?_eq, lookup_declarationsFrom]
    simp only [Nat.zero_add]
  case redeclared_eq => exact hredeclared
  case count_problems =>
    have hlength := length_again (groups.flatMap PrecGroup.names)
    rw [List.countP_eq_length_filter, filter_duplicatePrecedence, List.length_map, hredeclared]
    omega
  case problems_eq => rw [filter_duplicatePrecedence, hredeclared]

/-- **After every run of additions the precedences are those of its groups**, and so are those of
every description that was read from text. -/
theorem declaredBy_groups :
    (∀ additions, (build additions).DeclaredBy (precGroups additions)) ∧
      ∀ source a, parse source = .ok a →
        ∃ doc : Document, doc.WrittenIn source.text ∧ a.DeclaredBy doc.precGroups := by
  refine ⟨fun additions => (tracks_build additions).declaredBy, ?_⟩
  intro source a h
  obtain ⟨doc, hdoc, rfl⟩ := parse_eq_ok_iff.mp h
  exact ⟨doc, hdoc, doc.tracks_description.declaredBy⟩

/-- The name `a` stands twice in the first group and in all others, and the second group declares
nothing new. -/
def redeclarations : Source :=
  { text := utf8 "%left a 'a' %right a %token x %nonassoc b a %start s %% s: x %prec b;" }

theorem declaredBy_redeclarations : ∃ a, parse redeclarations = .ok a ∧
    a.prec? (utf8 "b") = some ⟨2, .nonassoc⟩ ∧
    a.problems.countP (·.kind = .duplicatePrecedence) = 3 ∧
    ∃ doc : Document, doc.WrittenIn redeclarations.text ∧ a.DeclaredBy doc.precGroups := by
  let doc : Document :=
    { declarations := [.precedence .left [utf8 "a", utf8 "a"], .precedence .right [utf8 "a"],
        .tokens [utf8 "x"], .precedence .nonassoc [utf8 "b", utf8 "a"], .start (utf8 "s")]
      definitions := [⟨utf8 "s", [⟨[.bare (utf8 "x")], some (utf8 "b")⟩]⟩] }
  have hdoc : doc.WrittenIn redeclarations.text :=
    Document.ofText_eq_ok_iff.mp (by decide +kernel)
  have hparse : parse redeclarations = .ok doc.description := parse_eq_ok_iff.mpr ⟨doc, hdoc, rfl⟩
  exact ⟨doc.description, hparse, by decide +kernel, by decide +kernel,
    declaredBy_groups.2 redeclarations _ hparse⟩

end Description

end YaccTables
