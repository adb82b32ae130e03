import YaccTables.Proofs.Resolution

/-!
# The order of the rules does not matter

A description lists its rules in the order of their first definition. Lowering looks at that list
in three ways, none of which sees the order: it takes the names of all rules as a set to keep the
synthetic names clear of, it sorts them, and it looks a rule up by its name. So a grammar stays the
same, down to its last number, if the rules are put in another order.
-/

namespace YaccTables

namespace Description

variable {a : Description} {rules : List Rule}

/-- Moved rules have moved names. -/
theorem ruleNames_perm (hperm : rules.Perm a.rules) :
    ({ a with rules }).ruleNames.Perm a.ruleNames :=
  hperm.map Rule.name

/-- The order of rules does not matter for the synthetic names. -/
theorem syntheticNames_eq_of_perm (kind : Kind) (hperm : rules.Perm a.rules) :
    ({ a with rules }).syntheticNames kind = a.syntheticNames kind := by
  have htaken := ruleNames_perm hperm
  -- each marker is repeated until it is clear of the same names as before
  have hstart := freshName_eq_of_perm (utf8 "^") htaken
  have himplicit := freshName_eq_of_perm (utf8 "~")
    (htaken.cons (freshName (utf8 "^") a.ruleNames))
  have hfirst := freshName_eq_of_perm (utf8 "^~")
    ((htaken.cons (freshName (utf8 "^") a.ruleNames)).cons
      (freshName (utf8 "~") (freshName (utf8 "^") a.ruleNames :: a.ruleNames)))
  simp only [syntheticNames, hstart, himplicit, hfirst]
  rfl

/-- The order of rules does not matter for what is found by name. -/
theorem rule?_eq_of_perm (hnd : a.ruleNames.Nodup) (hperm : rules.Perm a.rules) :
    ({ a with rules }).rule? = a.rule? := by
  funext name
  refine Option.ext fun r => ?_
  have hnd' : ({ a with rules }).ruleNames.Nodup := (ruleNames_perm hperm).nodup_iff.mpr hnd
  rw [rule?_eq_some_iff hnd', rule?_eq_some_iff hnd, hperm.mem_iff]

end Description

namespace Lowering

variable {fold : Bytes → Bytes} {kind : Kind} {a : Description} {rules : List Rule} {sc : Scope}

/-- The order of rules does not matter for how names are numbered. -/
theorem scope_of_perm (hperm : rules.Perm a.rules) (h : scope fold kind a = .ok sc) :
    scope fold kind { a with rules } = .ok { sc with description := { a with rules } } := by
  obtain ⟨hnd, htd, rfl⟩ := scope_eq_ok_iff.mp h
  have hnames : ((({ a with rules }).syntheticNames kind).nonterminals
      ++ ({ a with rules }).ruleNames).Perm
        ((a.syntheticNames kind).nonterminals ++ a.ruleNames) := by
    rw [Description.syntheticNames_eq_of_perm kind hperm]
    exact (Description.ruleNames_perm hperm).append_left _
  refine scope_eq_ok_iff.mpr ⟨hnames.nodup_iff.mpr hnd, ?_, ?_⟩
  · rw [Description.syntheticNames_eq_of_perm kind hperm]
    exact htd
  · rw [Numbering.sorted_eq_of_perm fold hnames, Description.syntheticNames_eq_of_perm kind hperm]

/-- The productions of a nonterminal depend on the rules only through what is found by name. -/
theorem bodies_eq_of_perm (hsc : sc.description = a)
    (hrule : ({ a with rules }).rule? = a.rule?) :
    bodies { sc with description := { a with rules } } = bodies sc := by
  subst hsc
  funext name
  have huser : userBodies { sc with description := { sc.description with rules } } name
      = userBodies sc name := by
    rw [userBodies, userBodies, hrule]
    rfl
  rw [bodies, bodies, huser]
  rfl

end Lowering

namespace Description

/-- **Lowering gives the same grammar whatever order the rules are in**, and whatever folding
orders their names: the same numbers, tables and fingerprint, and so the same answer from every
accessor. -/
theorem lowerWith_perm {fold : Bytes → Bytes} {kind : Kind} {a : Description} {rules : List Rule}
    {g : Grammar} (hperm : rules.Perm a.rules) (h : a.lowerWith fold kind = .ok g) :
    ({ a with rules }).lowerWith fold kind = .ok g := by
  obtain ⟨sc, groups, hscope, hgroups, rfl⟩ := lowerWith_eq_ok_iff.mp h
  have hsc := Lowering.scope_represents hscope
  have hrule := rule?_eq_of_perm hsc.ruleNames_nodup hperm
  refine lowerWith_eq_ok_iff.mpr ⟨_, groups, Lowering.scope_of_perm hperm hscope, ?_, ?_⟩
  · rw [Lowering.bodies_eq_of_perm hsc.description_eq hrule]
    exact hgroups
  · -- beside the scope, a grammar takes from the description only the precedences of its tokens
    rw [Lowering.grammar, Lowering.grammar, hsc.description_eq]
    rfl

/-- A description with two rules whose names differ only in case. -/
def caseTwins : Description :=
  { start := utf8 "a"
    rules := [⟨utf8 "a", [⟨[.rule (utf8 "A"), .token (utf8 "x")], []⟩]⟩,
      ⟨utf8 "b", [⟨[.rule (utf8 "a")], []⟩]⟩,
      ⟨utf8 "A", [⟨[.rule (utf8 "b")], []⟩, ⟨[], []⟩]⟩]
    tokens := [utf8 "x"]
    implicitTokens := [utf8 "x"] }

theorem lowerWith_perm_caseTwins : ∃ g, caseTwins.lowerWith Text.foldCase .eco = .ok g ∧
    caseTwins.rules.reverse.Perm caseTwins.rules ∧ caseTwins.rules.reverse ≠ caseTwins.rules ∧
    ({ caseTwins with rules := caseTwins.rules.reverse }).lowerWith Text.foldCase .eco
      = .ok g := by
  obtain ⟨g, hg⟩ := (caseTwins.exists_lowerWith_iff Text.foldCase .eco).mpr (by decide)
  have hperm : caseTwins.rules.reverse.Perm caseTwins.rules := List.reverse_perm _
  exact ⟨g, hg, hperm, by decide, lowerWith_perm hperm hg⟩

end Description

end YaccTables
