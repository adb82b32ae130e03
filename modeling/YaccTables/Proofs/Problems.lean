import Mathlib.Data.List.Induction
import YaccTables.Proofs.Validation

/-!
# Where the problems of a description are found

`Description.problems` runs its checks one after the other, some of them with the names seen so
far. Here the same list is told from the description alone: `Faulty` says which site of a
description has which problem, with nothing about the order of the checks, and `Site.Before` puts
the sites in order. `problems_listed` says that the list goes through the faulty sites in that
order and names the problem of each, so that none is missing, made up, reported twice or out of
place.

The proof follows the shape of the list. `Listed` is the relation between a list and the sites it
goes through; it is kept by appending (`Listed.append`) and by running over the entries of a list
(`Listed.flatMap`), and a single check is its base case (`Listed.check`). The two checks that carry
names along are first brought into that shape (`repeated_eq`, `implicitProblems_eq`).
-/

namespace YaccTables

/-! ## Lists that go through sites -/

/-- The list names, in order of the sites, what holds of each. -/
def Listed {σ β : Type} (before : σ → σ → Prop) (holds : σ → β → Prop) (found : List β) : Prop :=
  ∃ marked : List (σ × β), marked.Pairwise (fun x y => before x.1 y.1) ∧
    (∀ site b, (site, b) ∈ marked ↔ holds site b) ∧ found = marked.map Prod.snd

namespace Listed

variable {α β σ : Type} {before : σ → σ → Prop} {holds more : σ → β → Prop} {found rest : List β}

/-- It does not matter how it is said what is wrong at a site. -/
theorem congr (h : Listed before holds found) (hiff : ∀ site b, holds site b ↔ more site b) :
    Listed before more found := by
  obtain ⟨marked, hpair, hmem, heq⟩ := h
  exact ⟨marked, hpair, fun site b => (hmem site b).trans (hiff site b), heq⟩

/-- Nothing is listed where nothing is wrong. -/
theorem nil (h : ∀ s b, ¬ holds s b) : Listed before holds [] :=
  ⟨[], List.Pairwise.nil, by simpa using h, rfl⟩

/-- One problem at one site. -/
theorem single (before : σ → σ → Prop) (site : σ) (b : β) :
    Listed before (fun s c => s = site ∧ c = b) [b] :=
  ⟨[(site, b)], List.pairwise_singleton _ _, by simp, rfl⟩

/-- One check of one site. -/
theorem check (before : σ → σ → Prop) (site : σ) (b : β) (cause : Prop) [Decidable cause] :
    Listed before (fun s c => cause ∧ s = site ∧ c = b) (if cause then [b] else []) := by
  by_cases h : cause
  · rw [if_pos h]
    exact (single before site b).congr (by simp [h])
  · rw [if_neg h]
    exact nil (by simp [h])

/-- Problems of two sorts, if all sites of the first come before those of the second. -/
theorem append (h : Listed before holds found) (h' : Listed before more rest)
    (hbefore : ∀ s b t c, holds s b → more t c → before s t) :
    Listed before (fun s b => holds s b ∨ more s b) (found ++ rest) := by
  obtain ⟨marked, hpair, hmem, rfl⟩ := h
  obtain ⟨marked', hpair', hmem', rfl⟩ := h'
  refine ⟨marked ++ marked', List.pairwise_append.mpr ⟨hpair, hpair', ?_⟩, ?_, ?_⟩
  · intro x hx y hy
    exact hbefore _ _ _ _ ((hmem x.1 x.2).mp hx) ((hmem' y.1 y.2).mp hy)
  · intro site b
    rw [List.mem_append, hmem, hmem']
  · rw [List.map_append]

/-- Entries are gone through one after the other. The induction is on the entries from the end,
where a list grows without a change to the numbers of the others. -/
theorem zipIdx_flatMap {f : Nat → α → List β} {holds : Nat → α → σ → β → Prop} {xs : List α}
    (h : ∀ i x, Listed before (holds i x) (f i x))
    (hbefore : ∀ i j x y s b t c, i < j → holds i x s b → holds j y t c → before s t) :
    Listed before (fun s b => ∃ i x, xs[i]? = some x ∧ holds i x s b)
      (xs.zipIdx.flatMap fun entry => f entry.2 entry.1) := by
  induction xs using List.reverseRecOn with
  | nil => exact .nil (by simp)
  | append_singleton xs x ih =>
    have hlast := h xs.length x
    have hsplit : ((xs ++ [x]).zipIdx.flatMap fun entry => f entry.2 entry.1)
        = (xs.zipIdx.flatMap fun entry => f entry.2 entry.1) ++ f xs.length x := by
      simp [List.zipIdx_append]
    rw [hsplit]
    refine (ih.append hlast ?_).congr ?_
    · rintro s b t c ⟨i, y, hi, hy⟩ hx
      have hlt : i < xs.length := (List.getElem?_eq_some_iff.mp hi).1
      exact hbefore i xs.length y x s b t c hlt hy hx
    · intro s b
      constructor
      · rintro (⟨i, y, hi, hy⟩ | hx)
        · have hlt : i < xs.length := (List.getElem?_eq_some_iff.mp hi).1
          exact ⟨i, y, by rw [List.getElem?_append_left hlt, hi], hy⟩
        · exact ⟨xs.length, x, List.getElem?_concat_length, hx⟩
      · rintro ⟨i, y, hi, hy⟩
        rcases Nat.lt_trichotomy i xs.length with hlt | rfl | hgt
        · rw [List.getElem?_append_left hlt] at hi
          exact .inl ⟨i, y, hi, hy⟩
        · rw [List.getElem?_concat_length] at hi
          exact .inr (Option.some.inj hi ▸ hy)
        · rw [List.getElem?_eq_none (by simp; omega)] at hi
          exact absurd hi (by simp)

/-- Problems of several things one after the other, if their sites are in this order. -/
theorem flatMap {f : α → List β} {holds : Nat → α → σ → β → Prop} {xs : List α}
    (h : ∀ i x, Listed before (holds i x) (f x))
    (hbefore : ∀ i j x y s b t c, i < j → holds i x s b → holds j y t c → before s t) :
    Listed before (fun s b => ∃ i x, xs[i]? = some x ∧ holds i x s b) (xs.flatMap f) := by
  have heq : xs.flatMap f = xs.zipIdx.flatMap fun entry => f entry.1 := by
    rw [← List.flatMap_map Prod.fst f, List.zipIdx_map_fst]
  rw [heq]
  exact zipIdx_flatMap (f := fun _ x => f x) h hbefore

end Listed

/-! ## Checks that carry the names seen so far -/

/-- What a check gives that sees of each name the ones before it. -/
def overEarlier {β : Type} (check : List Name → Name → List β) (names : List Name) : List β :=
  names.zipIdx.flatMap fun entry => check (names.take entry.2) entry.1

/-- The names that stand at an earlier place of the list as well, in order. -/
def again (names : List Name) : List Name :=
  overEarlier (fun earlier name => if name ∈ earlier then [name] else []) names

theorem overEarlier_cons {β : Type} (check : List Name → Name → List β) (name : Name)
    (names : List Name) : overEarlier check (name :: names)
      = check [] name ++ overEarlier (fun earlier => check (name :: earlier)) names := by
  unfold overEarlier
  rw [List.zipIdx_cons', List.flatMap_cons, List.flatMap_map]
  rfl

/-- Problems of names that are each checked against those before. -/
theorem Listed.overEarlier {β σ : Type} {before : σ → σ → Prop}
    {check : List Name → Name → List β} {holds : Nat → Name → σ → β → Prop} {names : List Name}
    (h : ∀ i name, Listed before (holds i name) (check (names.take i) name))
    (hbefore : ∀ i j m n s b t c, i < j → holds i m s b → holds j n t c → before s t) :
    Listed before (fun s b => ∃ i name, names[i]? = some name ∧ holds i name s b)
      (overEarlier check names) :=
  zipIdx_flatMap (f := fun i name => check (names.take i) name) h hbefore

/-- It makes no difference whether a name was seen before the list or stands at its head. -/
theorem mem_cons_or_mem_iff {n name : Name} {seen earlier : List Name} :
    (n ∈ name :: seen ∨ n ∈ earlier) ↔ n ∈ seen ∨ n ∈ name :: earlier := by
  rw [List.mem_cons, List.mem_cons]
  tauto

/-- Repeated names are found by a check against those before. -/
theorem repeated_eq (seen names : List Name) : repeated seen names
    = overEarlier (fun earlier name => if name ∈ seen ∨ name ∈ earlier then [name] else [])
      names := by
  induction names generalizing seen with
  | nil => rfl
  | cons name names ih =>
    rw [repeated, overEarlier_cons]
    by_cases h : name ∈ seen
    · rw [if_pos (List.contains_iff_mem.mpr h), if_pos (.inl h), ih, List.singleton_append]
      -- a name that was seen before adds nothing to what was seen
      have hiff : ∀ n earlier, (n ∈ seen ∨ n ∈ name :: earlier) ↔ n ∈ seen ∨ n ∈ earlier := by
        intro n earlier
        rw [List.mem_cons]
        constructor
        · rintro (hn | rfl | hn)
          · exact .inl hn
          · exact .inl h
          · exact .inr hn
        · tauto
      simp only [hiff]
    · rw [if_neg (by simpa using h), if_neg (by simpa using h), ih, List.nil_append]
      simp only [mem_cons_or_mem_iff]

namespace Description

/-- The problems of an implicit token, given whether it was declared as one before. -/
def implicitProblemsOf (a : Description) (again : Bool) (name : Name) : List Problem :=
  (if name ∉ a.tokens then [⟨.unknownImplicitToken, [], name⟩] else [])
    ++ if again then [⟨.duplicateImplicitToken, [], name⟩] else []

/-- Implicit tokens are checked one by one against those before. -/
theorem implicitProblems_eq (a : Description) (seen names : List Name) :
    a.implicitProblems seen names
      = overEarlier (fun earlier name =>
          a.implicitProblemsOf (decide (name ∈ seen ∨ name ∈ earlier)) name) names := by
  induction names generalizing seen with
  | nil => rfl
  | cons name names ih =>
    rw [implicitProblems, overEarlier_cons, ih (name :: seen)]
    congr 1
    · simp [implicitProblemsOf]
    · simp only [mem_cons_or_mem_iff]

/-! ## Sites and their faults -/

/-- What a problem can be found at: entries of the description by their numbers. -/
inductive Site
  /-- The name of a rule. -/
  | rule (i : Nat)
  | token (i : Nat)
  | start
  /-- A rule as a whole. -/
  | body (i : Nat)
  /-- A symbol of a production of a rule. -/
  | symbol (i j k : Nat)
  /-- The `%prec` of a production of a rule. -/
  | prec (i j : Nat)
  | redeclared (i : Nat)
  | implicit (i : Nat)
  /-- An implicit token as a repetition. -/
  | implicitAgain (i : Nat)
  deriving DecidableEq, Repr

/-- When a site is looked at: the names of rules, the tokens and the start rule come before the
rules with all that is in them, then come redeclared precedences and implicit tokens. -/
def Site.stage : Site → Nat
  | .rule _ => 0
  | .token _ => 1
  | .start => 2
  | .body _ | .symbol _ _ _ | .prec _ _ => 3
  | .redeclared _ => 4
  | .implicit _ | .implicitAgain _ => 5

/-- The numbers that put the sites of one stage in order. -/
def Site.numbers : Site → List Nat
  | .rule i | .token i | .body i | .redeclared i => [i]
  | .start => []
  | .symbol i j k => [i, j, 0, k]
  | .prec i j => [i, j, 1]
  | .implicit i => [i, 0]
  | .implicitAgain i => [i, 1]

/-- The site is looked at before the other. -/
def Site.Before (s t : Site) : Prop :=
  s.stage < t.stage ∨ s.stage = t.stage ∧ s.numbers < t.numbers

instance (s t : Site) : Decidable (s.Before t) :=
  inferInstanceAs (Decidable (s.stage < t.stage ∨ s.stage = t.stage ∧ s.numbers < t.numbers))

/-- The site has the problem. -/
inductive Faulty (a : Description) : Site → Problem → Prop
  | duplicateRule {i : Nat} {name : Name} (hi : a.ruleNames[i]? = some name)
      (hearlier : name ∈ a.ruleNames.take i) : Faulty a (.rule i) ⟨.duplicateRule, [], name⟩
  | duplicateToken {i : Nat} {name : Name} (hi : a.tokens[i]? = some name)
      (hearlier : name ∈ a.tokens.take i) : Faulty a (.token i) ⟨.duplicateToken, [], name⟩
  | noStartRule (h : a.start = []) : Faulty a .start ⟨.noStartRule, [], []⟩
  | unknownStartRule (hne : a.start ≠ []) (hnot : a.start ∉ a.ruleNames) :
      Faulty a .start ⟨.unknownStartRule, [], a.start⟩
  | emptyRule {i : Nat} {r : Rule} (hr : a.rules[i]? = some r) (hnil : r.productions = []) :
      Faulty a (.body i) ⟨.emptyRule, r.name, []⟩
  | unknownRule {i j k : Nat} {r : Rule} {p : Production} {name : Name}
      (hr : a.rules[i]? = some r) (hp : r.productions[j]? = some p)
      (hk : p.symbols[k]? = some (.rule name)) (hnot : name ∉ a.ruleNames) :
      Faulty a (.symbol i j k) ⟨.unknownRule, r.name, name⟩
  | unknownToken {i j k : Nat} {r : Rule} {p : Production} {name : Name}
      (hr : a.rules[i]? = some r) (hp : r.productions[j]? = some p)
      (hk : p.symbols[k]? = some (.token name)) (hnot : name ∉ a.tokens) :
      Faulty a (.symbol i j k) ⟨.unknownToken, r.name, name⟩
  | unknownPrecedence {i j : Nat} {r : Rule} {p : Production}
      (hr : a.rules[i]? = some r) (hp : r.productions[j]? = some p) (hne : p.prec ≠ [])
      (hnot : ∀ q, (p.prec, q) ∉ a.precs) :
      Faulty a (.prec i j) ⟨.unknownPrecedence, r.name, p.prec⟩
  | duplicatePrecedence {i : Nat} {name : Name} (hi : a.redeclared[i]? = some name) :
      Faulty a (.redeclared i) ⟨.duplicatePrecedence, [], name⟩
  | unknownImplicitToken {i : Nat} {name : Name} (hi : a.implicitTokens[i]? = some name)
      (hnot : name ∉ a.tokens) : Faulty a (.implicit i) ⟨.unknownImplicitToken, [], name⟩
  | duplicateImplicitToken {i : Nat} {name : Name} (hi : a.implicitTokens[i]? = some name)
      (hearlier : name ∈ a.implicitTokens.take i) :
      Faulty a (.implicitAgain i) ⟨.duplicateImplicitToken, [], name⟩

/-! ## Each check goes through its sites -/

/-- Repeated names are listed in the order of their places. -/
theorem repeated_listed (site : Nat → Site) (kind : ProblemKind) (names : List Name)
    (hsite : ∀ i j, i < j → (site i).Before (site j)) :
    Listed Site.Before
      (fun s (p : Problem) => ∃ i name, names[i]? = some name ∧
        name ∈ names.take i ∧ s = site i ∧ p = ⟨kind, [], name⟩)
      ((repeated [] names).map fun name => { kind, name }) := by
  have heq : ((repeated [] names).map fun name => ({ kind, name } : Problem))
      = overEarlier (fun earlier name => if name ∈ earlier then [⟨kind, [], name⟩] else [])
        names := by
    simp only [repeated_eq, overEarlier, List.map_flatMap, List.not_mem_nil, false_or]
    congr 1
    funext entry
    split <;> rfl
  rw [heq]
  refine Listed.overEarlier (fun i name => Listed.check _ (site i) _ _) ?_
  rintro i j _ _ _ _ _ _ hlt ⟨-, rfl, -⟩ ⟨-, rfl, -⟩
  exact hsite i j hlt

/-- What can be wrong with the start rule. -/
theorem startProblems_listed (a : Description) :
    Listed Site.Before
      (fun s p => (a.start = [] ∧ s = .start ∧ p = ⟨.noStartRule, [], []⟩) ∨
        ((a.start ≠ [] ∧ a.start ∉ a.ruleNames) ∧ s = .start ∧
          p = ⟨.unknownStartRule, [], a.start⟩))
      a.startProblems := by
  have heq : a.startProblems
      = (if a.start = [] then [⟨.noStartRule, [], []⟩] else [])
        ++ if a.start ≠ [] ∧ a.start ∉ a.ruleNames then
          [⟨.unknownStartRule, [], a.start⟩] else [] := by
    unfold startProblems
    by_cases hs : a.start = []
    · simp [hs]
    · by_cases hm : a.start ∈ a.ruleNames
      · simp [hs, hm]
      · simp [hs, hm]
  rw [heq]
  refine (Listed.check _ _ _ _).append (Listed.check _ _ _ _) ?_
  -- the two exclude each other
  rintro _ _ _ _ ⟨hnil, -⟩ ⟨⟨hne, -⟩, -⟩
  exact absurd hnil hne

/-- A reference is wrong if it is to a rule or a token that is not there. -/
theorem mem_refProblems_iff {a : Description} {rule : Name} {ref : SymbolRef} {p : Problem} :
    p ∈ a.refProblems rule ref ↔
      ∃ name, (ref = .rule name ∧ name ∉ a.ruleNames ∧ p = ⟨.unknownRule, rule, name⟩) ∨
        (ref = .token name ∧ name ∉ a.tokens ∧ p = ⟨.unknownToken, rule, name⟩) := by
  cases ref with
  | rule name => simp [refProblems]
  | token name => simp [refProblems]
  | other code name => simp [refProblems]

/-- What can be wrong with a symbol. -/
theorem refProblems_listed (a : Description) (rule : Name) (ref : SymbolRef) (site : Site) :
    Listed Site.Before (fun s p => s = site ∧ p ∈ a.refProblems rule ref)
      (a.refProblems rule ref) := by
  have hcases : a.refProblems rule ref = [] ∨ ∃ p, a.refProblems rule ref = [p] := by
    cases ref with
    | rule name =>
      rw [refProblems]
      split
      · exact .inl rfl
      · exact .inr ⟨_, rfl⟩
    | token name =>
      rw [refProblems]
      split
      · exact .inl rfl
      · exact .inr ⟨_, rfl⟩
    | other code name => exact .inl rfl
  rcases hcases with h | ⟨p, h⟩
  · rw [h]
    exact .nil (by simp)
  · rw [h]
    exact (Listed.single _ site p).congr (by simp)

/-- A name is without precedence if no entry gives it one. -/
theorem isSome_prec?_iff {a : Description} {name : Name} :
    (a.prec? name).isSome ↔ ∃ q, (name, q) ∈ a.precs := by
  unfold prec?
  induction a.precs with
  | nil => simp
  | cons entry rest ih =>
    obtain ⟨key, q⟩ := entry
    rw [List.lookup_cons]
    by_cases h : name = key
    · simp [h]
    · have hbeq : (name == key) = false := by simpa using h
      simp [hbeq, ih, h]

/-- What can be wrong with a production: first its symbols, then its precedence. -/
theorem productionProblems_listed (a : Description) (rule : Name) (i j : Nat) (p : Production) :
    Listed Site.Before
      (fun s q => (∃ k ref, p.symbols[k]? = some ref ∧ s = .symbol i j k ∧
          q ∈ a.refProblems rule ref) ∨
        (¬ (p.prec = [] ∨ (a.prec? p.prec).isSome) ∧ s = .prec i j ∧
          q = ⟨.unknownPrecedence, rule, p.prec⟩))
      (a.productionProblems rule p) := by
  rw [productionProblems, ← ite_not]
  refine Listed.append (Listed.flatMap (fun k ref => refProblems_listed a rule ref _) ?_)
    (Listed.check _ _ _ _) ?_
  · rintro k l _ _ _ _ _ _ hlt ⟨rfl, -⟩ ⟨rfl, -⟩
    simp [Site.Before, Site.stage, Site.numbers, List.cons_lt_cons_iff, hlt]
  · rintro _ _ _ _ ⟨k, _, -, rfl, -⟩ ⟨-, rfl, -⟩
    simp [Site.Before, Site.stage, Site.numbers, List.cons_lt_cons_iff]

/-- What can be wrong with a rule: that it is empty, or its productions in order. -/
theorem ruleProblems_listed (a : Description) (i : Nat) (r : Rule) :
    Listed Site.Before
      (fun s q => (r.productions = [] ∧ s = .body i ∧ q = ⟨.emptyRule, r.name, []⟩) ∨
        ∃ j p, r.productions[j]? = some p ∧
          ((∃ k ref, p.symbols[k]? = some ref ∧ s = .symbol i j k ∧
              q ∈ a.refProblems r.name ref) ∨
            (¬ (p.prec = [] ∨ (a.prec? p.prec).isSome) ∧ s = .prec i j ∧
              q = ⟨.unknownPrecedence, r.name, p.prec⟩)))
      (a.ruleProblems r) := by
  unfold ruleProblems
  refine (Listed.check _ _ _ _).append
    (Listed.flatMap (fun j p => a.productionProblems_listed r.name i j p) ?_) ?_
  · rintro j l _ _ _ _ _ _ hlt (⟨k, _, -, rfl, -⟩ | ⟨-, rfl, -⟩) (⟨k', _, -, rfl, -⟩ | ⟨-, rfl, -⟩)
    all_goals simp [Site.Before, Site.stage, Site.numbers, List.cons_lt_cons_iff, hlt]
  · rintro _ _ _ _ ⟨-, rfl, -⟩ ⟨j, _, -, (⟨k, _, -, rfl, -⟩ | ⟨-, rfl, -⟩)⟩
    all_goals simp [Site.Before, Site.stage, Site.numbers]

/-- What can be wrong with implicit tokens: that they are no tokens, or come again. -/
theorem implicitProblems_listed (a : Description) :
    Listed Site.Before
      (fun s p => ∃ i name, a.implicitTokens[i]? = some name ∧
        ((name ∉ a.tokens ∧ s = .implicit i ∧ p = ⟨.unknownImplicitToken, [], name⟩) ∨
          (name ∈ a.implicitTokens.take i ∧ s = .implicitAgain i ∧
            p = ⟨.duplicateImplicitToken, [], name⟩)))
      (a.implicitProblems [] a.implicitTokens) := by
  rw [implicitProblems_eq]
  refine Listed.overEarlier (fun i name => ?_) ?_
  · rw [implicitProblemsOf]
    refine ((Listed.check _ (.implicit i) _ _).append
      (Listed.check _ (.implicitAgain i) _ _) ?_).congr ?_
    · rintro _ _ _ _ ⟨-, rfl, -⟩ ⟨-, rfl, -⟩
      simp [Site.Before, Site.stage, Site.numbers, List.cons_lt_cons_iff]
    · simp
  · rintro i j _ _ _ _ _ _ hlt (⟨-, rfl, -⟩ | ⟨-, rfl, -⟩) (⟨-, rfl, -⟩ | ⟨-, rfl, -⟩)
    all_goals simp [Site.Before, Site.stage, Site.numbers, List.cons_lt_cons_iff, hlt]

/-! ## All checks in order -/

/-- Stage by stage: what was found before a stage, and what the stage finds. -/
theorem listed_append_stage {a : Description} {n : Nat} {found rest : List Problem}
    (h : Listed Site.Before (fun s p => a.Faulty s p ∧ s.stage < n) found)
    (h' : Listed Site.Before (fun s p => a.Faulty s p ∧ s.stage = n) rest) :
    Listed Site.Before (fun s p => a.Faulty s p ∧ s.stage < n + 1) (found ++ rest) := by
  refine (h.append h' ?_).congr ?_
  · rintro s _ t _ ⟨-, hs⟩ ⟨-, ht⟩
    exact .inl (by omega)
  · intro s p
    rw [← and_or_left, Nat.lt_succ_iff_lt_or_eq]

/-- The first stage finds rules of the same name. -/
theorem ruleNames_listed (a : Description) :
    Listed Site.Before (fun s p => a.Faulty s p ∧ s.stage = 0)
      ((repeated [] a.ruleNames).map fun name => { kind := .duplicateRule, name }) := by
  refine (repeated_listed .rule .duplicateRule a.ruleNames ?_).congr ?_
  · intro i j hlt
    simp [Site.Before, Site.stage, Site.numbers, List.cons_lt_cons_iff, hlt]
  · intro s p
    constructor
    · rintro ⟨i, name, hi, hearlier, rfl, rfl⟩
      exact ⟨.duplicateRule hi hearlier, rfl⟩
    · rintro ⟨h, hs⟩
      cases h with
      | duplicateRule hi hearlier => exact ⟨_, _, hi, hearlier, rfl, rfl⟩
      | _ => cases hs

/-- The second stage finds tokens of the same name. -/
theorem tokens_listed (a : Description) :
    Listed Site.Before (fun s p => a.Faulty s p ∧ s.stage = 1)
      ((repeated [] a.tokens).map fun name => { kind := .duplicateToken, name }) := by
  refine (repeated_listed .token .duplicateToken a.tokens ?_).congr ?_
  · intro i j hlt
    simp [Site.Before, Site.stage, Site.numbers, List.cons_lt_cons_iff, hlt]
  · intro s p
    constructor
    · rintro ⟨i, name, hi, hearlier, rfl, rfl⟩
      exact ⟨.duplicateToken hi hearlier, rfl⟩
    · rintro ⟨h, hs⟩
      cases h with
      | duplicateToken hi hearlier => exact ⟨_, _, hi, hearlier, rfl, rfl⟩
      | _ => cases hs

/-- The third stage looks at the start rule. -/
theorem start_listed (a : Description) :
    Listed Site.Before (fun s p => a.Faulty s p ∧ s.stage = 2) a.startProblems := by
  refine a.startProblems_listed.congr ?_
  intro s p
  constructor
  · rintro (⟨hnil, rfl, rfl⟩ | ⟨⟨hne, hnot⟩, rfl, rfl⟩)
    · exact ⟨.noStartRule hnil, rfl⟩
    · exact ⟨.unknownStartRule hne hnot, rfl⟩
  · rintro ⟨h, hs⟩
    cases h with
    | noStartRule hnil => exact .inl ⟨hnil, rfl, rfl⟩
    | unknownStartRule hne hnot => exact .inr ⟨⟨hne, hnot⟩, rfl, rfl⟩
    | _ => cases hs

/-- A `%prec` fails its check if it names something without an entry. -/
theorem prec_unknown_iff {a : Description} {p : Production} :
    ¬ (p.prec = [] ∨ (a.prec? p.prec).isSome) ↔ p.prec ≠ [] ∧ ∀ q, (p.prec, q) ∉ a.precs := by
  rw [isSome_prec?_iff]
  push Not
  rfl

/-- The fourth stage looks at the rules. -/
theorem rules_listed (a : Description) :
    Listed Site.Before (fun s p => a.Faulty s p ∧ s.stage = 3)
      (a.rules.flatMap a.ruleProblems) := by
  refine (Listed.flatMap (fun i r => a.ruleProblems_listed i r) ?_).congr ?_
  · -- of two rules, all sites of the first come before those of the second
    rintro i j _ _ _ _ _ _ hlt
      (⟨-, rfl, -⟩ | ⟨_, _, -, (⟨_, _, -, rfl, -⟩ | ⟨-, rfl, -⟩)⟩)
      (⟨-, rfl, -⟩ | ⟨_, _, -, (⟨_, _, -, rfl, -⟩ | ⟨-, rfl, -⟩)⟩)
    all_goals simp [Site.Before, Site.stage, Site.numbers, List.cons_lt_cons_iff, hlt]
  · intro s q
    constructor
    · rintro ⟨i, r, hr,
        (⟨hnil, rfl, rfl⟩ | ⟨j, p, hp, (⟨k, ref, hk, rfl, hq⟩ | ⟨hprec, rfl, rfl⟩)⟩)⟩
      · exact ⟨.emptyRule hr hnil, rfl⟩
      · obtain ⟨name, ⟨rfl, hnot, rfl⟩ | ⟨rfl, hnot, rfl⟩⟩ := mem_refProblems_iff.mp hq
        · exact ⟨.unknownRule hr hp hk hnot, rfl⟩
        · exact ⟨.unknownToken hr hp hk hnot, rfl⟩
      · obtain ⟨hne, hnot⟩ := prec_unknown_iff.mp hprec
        exact ⟨.unknownPrecedence hr hp hne hnot, rfl⟩
    · rintro ⟨h, hs⟩
      cases h with
      | emptyRule hr hnil => exact ⟨_, _, hr, .inl ⟨hnil, rfl, rfl⟩⟩
      | @unknownRule i j k r p name hr hp hk hnot =>
        refine ⟨i, r, hr, .inr ⟨j, p, hp, .inl ⟨k, _, hk, rfl, ?_⟩⟩⟩
        exact mem_refProblems_iff.mpr ⟨name, .inl ⟨rfl, hnot, rfl⟩⟩
      | @unknownToken i j k r p name hr hp hk hnot =>
        refine ⟨i, r, hr, .inr ⟨j, p, hp, .inl ⟨k, _, hk, rfl, ?_⟩⟩⟩
        exact mem_refProblems_iff.mpr ⟨name, .inr ⟨rfl, hnot, rfl⟩⟩
      | @unknownPrecedence i j r p hr hp hne hnot =>
        exact ⟨i, r, hr, .inr ⟨j, p, hp, .inr ⟨prec_unknown_iff.mpr ⟨hne, hnot⟩, rfl, rfl⟩⟩⟩
      | _ => cases hs

/-- The fifth stage finds precedences that are declared again. -/
theorem redeclared_listed (a : Description) :
    Listed Site.Before (fun s p => a.Faulty s p ∧ s.stage = 4)
      (a.redeclared.map fun name => { kind := .duplicatePrecedence, name }) := by
  rw [List.map_eq_flatMap]
  refine (Listed.flatMap (fun i name =>
    Listed.single _ (Site.redeclared i) (Problem.mk .duplicatePrecedence [] name)) ?_).congr ?_
  · rintro i j _ _ _ _ _ _ hlt ⟨rfl, -⟩ ⟨rfl, -⟩
    simp [Site.Before, Site.stage, Site.numbers, List.cons_lt_cons_iff, hlt]
  · intro s p
    constructor
    · rintro ⟨i, name, hi, rfl, rfl⟩
      exact ⟨.duplicatePrecedence hi, rfl⟩
    · rintro ⟨h, hs⟩
      cases h with
      | duplicatePrecedence hi => exact ⟨_, _, hi, rfl, rfl⟩
      | _ => cases hs

/-- The last stage looks at the implicit tokens. -/
theorem implicitTokens_listed (a : Description) :
    Listed Site.Before (fun s p => a.Faulty s p ∧ s.stage = 5)
      (a.implicitProblems [] a.implicitTokens) := by
  refine a.implicitProblems_listed.congr ?_
  intro s p
  constructor
  · rintro ⟨i, name, hi, (⟨hnot, rfl, rfl⟩ | ⟨hearlier, rfl, rfl⟩)⟩
    · exact ⟨.unknownImplicitToken hi hnot, rfl⟩
    · exact ⟨.duplicateImplicitToken hi hearlier, rfl⟩
  · rintro ⟨h, hs⟩
    cases h with
    | unknownImplicitToken hi hnot => exact ⟨_, _, hi, .inl ⟨hnot, rfl, rfl⟩⟩
    | duplicateImplicitToken hi hearlier => exact ⟨_, _, hi, .inr ⟨hearlier, rfl, rfl⟩⟩
    | _ => cases hs

/-- All problems are listed in the order of their sites. -/
theorem problems_listed (a : Description) : Listed Site.Before a.Faulty a.problems := by
  have h0 : Listed Site.Before (fun s p => a.Faulty s p ∧ s.stage < 0) [] := .nil (by simp)
  have h1 := listed_append_stage h0 a.ruleNames_listed
  have h2 := listed_append_stage h1 a.tokens_listed
  have h3 := listed_append_stage h2 a.start_listed
  have h4 := listed_append_stage h3 a.rules_listed
  have h5 := listed_append_stage h4 a.redeclared_listed
  have h6 := listed_append_stage h5 a.implicitTokens_listed
  refine h6.congr fun s p => ⟨And.left, fun h => ⟨h, ?_⟩⟩
  cases s <;> simp [Site.stage]

/-- A problem is reported exactly if it has a site. -/
theorem mem_problems_iff {a : Description} {p : Problem} :
    p ∈ a.problems ↔ ∃ site, a.Faulty site p := by
  obtain ⟨faults, -, hmem, heq⟩ := a.problems_listed
  rw [heq, List.mem_map]
  constructor
  · rintro ⟨fault, hfault, rfl⟩
    exact ⟨fault.1, (hmem _ _).mp hfault⟩
  · rintro ⟨site, hfaulty⟩
    exact ⟨(site, p), (hmem site p).mpr hfaulty, rfl⟩

/-! ## The verdict -/

/-- The same entries in another order. -/
structure Reordered (a b : Description) : Prop where
  start : a.start = b.start
  rules : a.rules.Perm b.rules
  tokens : a.tokens.Perm b.tokens
  precs : a.precs.Perm b.precs
  implicitTokens : a.implicitTokens.Perm b.implicitTokens
  redeclared : a.redeclared.Perm b.redeclared

namespace Reordered

variable {a b : Description}

/-- Reordering can be undone. -/
theorem symm (h : a.Reordered b) : b.Reordered a :=
  ⟨h.start.symm, h.rules.symm, h.tokens.symm, h.precs.symm, h.implicitTokens.symm,
    h.redeclared.symm⟩

theorem ruleNames (h : a.Reordered b) : a.ruleNames.Perm b.ruleNames := h.rules.map Rule.name

/-- A description stays valid when it is reordered. -/
theorem valid (h : a.Reordered b) (hv : a.Valid) : b.Valid := by
  have hrule : ∀ r ∈ b.rules, r ∈ a.rules := fun r hr => h.rules.mem_iff.mpr hr
  constructor
  case ruleNames_nodup => exact h.ruleNames.nodup_iff.mp hv.ruleNames_nodup
  case tokens_nodup => exact h.tokens.nodup_iff.mp hv.tokens_nodup
  case start_ne_nil => exact h.start ▸ hv.start_ne_nil
  case start_mem => exact h.ruleNames.mem_iff.mp (h.start ▸ hv.start_mem)
  case productions_ne_nil => exact fun r hr => hv.productions_ne_nil r (hrule r hr)
  case rule_mem =>
    intro r hr p hp name hname
    exact h.ruleNames.mem_iff.mp (hv.rule_mem r (hrule r hr) p hp name hname)
  case token_mem =>
    intro r hr p hp name hname
    exact h.tokens.mem_iff.mp (hv.token_mem r (hrule r hr) p hp name hname)
  case prec_declared =>
    intro r hr p hp
    refine (hv.prec_declared r (hrule r hr) p hp).imp_right fun hsome => ?_
    obtain ⟨q, hq⟩ := isSome_prec?_iff.mp hsome
    exact isSome_prec?_iff.mpr ⟨q, h.precs.mem_iff.mp hq⟩
  case redeclared_eq_nil => exact List.nil_perm.mp (hv.redeclared_eq_nil ▸ h.redeclared)
  case implicit_mem =>
    intro name hname
    exact h.tokens.mem_iff.mp (hv.implicit_mem name (h.implicitTokens.mem_iff.mpr hname))
  case implicit_nodup => exact h.implicitTokens.nodup_iff.mp hv.implicit_nodup

/-- A description has problems or none in whatever order it stands. -/
theorem unproblematic_iff (h : a.Reordered b) : b.problems = [] ↔ a.problems = [] := by
  rw [Description.problems_eq_nil_iff, Description.problems_eq_nil_iff]
  exact ⟨h.symm.valid, h.valid⟩

end Reordered

/-- **The problems of a description are those of its faulty sites, each once and in order.** So
there are none exactly if no site is faulty, and that does not depend on the order of entries. -/
theorem problems_of_faulty_sites (a : Description) :
    (∃ faults : List (Site × Problem), faults.Pairwise (fun x y => x.1.Before y.1) ∧
        (∀ site p, (site, p) ∈ faults ↔ a.Faulty site p) ∧
        a.problems = faults.map Prod.snd) ∧
      (a.problems = [] ↔ ∀ site p, ¬ a.Faulty site p) ∧
      ∀ b : Description, a.Reordered b → (b.problems = [] ↔ a.problems = []) := by
  refine ⟨a.problems_listed, ?_, fun b hb => hb.unproblematic_iff⟩
  rw [List.eq_nil_iff_forall_not_mem]
  constructor
  · exact fun h site p hfaulty => h p (mem_problems_iff.mpr ⟨site, hfaulty⟩)
  · intro h p hp
    obtain ⟨site, hfaulty⟩ := mem_problems_iff.mp hp
    exact h site p hfaulty

/-- A description with something wrong in every part of it. -/
def troubled : Description :=
  { start := utf8 "u"
    rules :=
      [⟨utf8 "s", [⟨[.rule (utf8 "t"), .token (utf8 "y"), .rule (utf8 "s")], utf8 "q"⟩]⟩,
       ⟨utf8 "r", []⟩, ⟨utf8 "s", [⟨[], utf8 "x"⟩]⟩]
    tokens := [utf8 "x", utf8 "x"]
    precs := [(utf8 "x", ⟨0, .left⟩), (utf8 "z", ⟨0, .left⟩)]
    implicitTokens := [utf8 "w", utf8 "x", utf8 "w"]
    redeclared := [utf8 "z"] }

/-- The same description with its rules, precedences and implicit tokens back to front. -/
def troubledBackwards : Description :=
  { troubled with
    rules := troubled.rules.reverse
    precs := troubled.precs.reverse
    implicitTokens := troubled.implicitTokens.reverse }

theorem problems_of_faulty_sites_troubled : troubled.Reordered troubledBackwards ∧
    troubled.Faulty (.rule 2) ⟨.duplicateRule, [], utf8 "s"⟩ ∧
    troubled.problems.map Problem.kind =
      [.duplicateRule, .duplicateToken, .unknownStartRule, .unknownRule, .unknownToken,
        .unknownPrecedence, .emptyRule, .duplicatePrecedence, .unknownImplicitToken,
        .unknownImplicitToken, .duplicateImplicitToken] ∧
    troubled.problems ≠ [] ∧ troubledBackwards.problems ≠ [] := by
  have hperm : troubled.Reordered troubledBackwards :=
    ⟨rfl, (List.reverse_perm _).symm, .refl _, (List.reverse_perm _).symm,
      (List.reverse_perm _).symm, .refl _⟩
  have hfaulty : troubled.Faulty (.rule 2) ⟨.duplicateRule, [], utf8 "s"⟩ :=
    .duplicateRule rfl (by decide)
  obtain ⟨-, hnil, hverdict⟩ := problems_of_faulty_sites troubled
  have hne : troubled.problems ≠ [] := fun h => hnil.mp h _ _ hfaulty
  exact ⟨hperm, hfaulty, by decide, hne, fun h => hne ((hverdict _ hperm).mp h)⟩

end Description

end YaccTables
