import YaccTables.Proofs.Building
import YaccTables.Proofs.CanonicalForm

/-!
# What a fingerprint identifies

The fingerprint is a digest of the canonical form of the tables, so it cannot tell grammars apart
that have one canonical form. Most texts in the tables of a grammar that was read from text are
legible: rules are defined under bare names, the names made up for lowering repeat their markers,
and kinds and precedences are written in words. Only the quoted name of a token can hold a double
quote. If no name holds the text that stands between a name and a precedence, equal canonical forms
come from equal tables (`Grammar.tables_eq_of_canonicalForm_eq`).

Without that condition they need not (`Grammar.canonicalForm_ambiguous`): the name is written as it
is, and one that spells the end of an entry and the beginning of the next one reads like two names.
-/

namespace YaccTables

open Tables (quote nameGap)

/-! ## Words -/

theorem quote_notMem_decimal (n : Nat) : quote ∉ decimal n :=
  fun h => absurd (isDecimal_of_mem_decimal h) (by decide)

theorem quote_notMem_decimalInt (n : Int) : quote ∉ decimalInt n := by
  cases n with
  | ofNat n => exact quote_notMem_decimal n
  | negSucc n =>
    rw [decimalInt, List.mem_append]
    rintro (h | h)
    · exact absurd h (by decide)
    · exact quote_notMem_decimal (n + 1) h

/-- A word with a number between parentheses. -/
theorem quote_notMem_numbered {word : Bytes} (hw : quote ∉ word) {digits : Bytes}
    (hd : quote ∉ digits) : quote ∉ word ++ digits ++ utf8 ")" := by
  have hparen : quote ∉ utf8 ")" := by decide
  simp [hw, hd, hparen]

theorem quote_notMem_kindText (kind : Kind) : quote ∉ kind.text := by
  cases kind with
  | original => decide
  | eco => decide
  | other code => exact quote_notMem_numbered (by decide) (quote_notMem_decimalInt code)

theorem quote_notMem_assocText (assoc : Assoc) : quote ∉ assoc.text := by
  cases assoc with
  | left => decide
  | right => decide
  | nonassoc => decide
  | other code => exact quote_notMem_numbered (by decide) (quote_notMem_decimalInt code)

/-- A precedence is written without quotes. -/
theorem quote_notMem_precText (prec : Option Precedence) : quote ∉ Precedence.textOf prec := by
  cases prec with
  | none => exact List.not_mem_nil
  | some p =>
    have hassoc := quote_notMem_assocText p.assoc
    have hparen : quote ∉ utf8 "(" := by decide
    exact quote_notMem_numbered (by simp [hassoc, hparen]) (quote_notMem_decimal p.level)

/-- A precedence does not begin with a comma. -/
theorem head?_precText (prec : Option Precedence) :
    (Precedence.textOf prec).head? ≠ some (ascii ',') := by
  cases prec with
  | none => exact fun h => absurd h (by decide)
  | some p =>
    obtain ⟨level, assoc⟩ := p
    cases assoc <;> exact fun h => absurd (Option.some.inj h) (by decide)

/-! ## Names of nonterminals -/

/-- Synthetic names hold no quotes. -/
theorem quote_notMem_synthetic {kind : Kind} {a : Description} {name : Name}
    (h : name ∈ (a.syntheticNames kind).nonterminals) : quote ∉ name := by
  have hfresh : ∀ (marker : Bytes) (taken : List Name), quote ∉ marker →
      quote ∉ freshName marker taken := fun marker taken hm hq => hm (mem_of_mem_freshName hq)
  have hwoven : ∀ woven, (a.syntheticNames kind).woven = some woven →
      quote ∉ woven.implicit ∧ quote ∉ woven.implicitStart := by
    intro woven hw
    simp only [Description.syntheticNames, Option.ite_none_right_eq_some, Option.some.injEq] at hw
    obtain ⟨-, rfl⟩ := hw
    exact ⟨hfresh _ _ (by decide), hfresh _ _ (by decide)⟩
  rw [SyntheticNames.nonterminals] at h
  rcases List.mem_cons.mp h with rfl | h
  · exact hfresh _ _ (by decide)
  · cases hw : (a.syntheticNames kind).woven with
    | none => simp [hw] at h
    | some woven =>
      obtain ⟨himplicit, himplicitStart⟩ := hwoven woven hw
      simp only [hw, List.mem_cons, List.not_mem_nil, or_false] at h
      rcases h with rfl | rfl
      · exact himplicit
      · exact himplicitStart

/-- Rules have names without quotes, since these are written without any. -/
theorem quote_notMem_ruleNames {source : Source} {a : Description}
    (h : Description.parse source = .ok a) {name : Name} (hname : name ∈ a.ruleNames) :
    quote ∉ name :=
  fun hq => absurd (Description.isWordPart_ruleNames h hname quote hq) (by decide)

namespace Grammar

variable {kind kind' : Kind} {source source' : Source} {g g' : Grammar}

/-- A grammar of a source is that of the description that it reads as. -/
theorem exists_of_ofSource (h : ofSource kind source = .ok g) :
    ∃ a, Description.parse source = .ok a ∧ ofDescription kind a = .ok g := by
  unfold ofSource at h
  cases hparse : Description.parse source with
  | error e => simp [hparse] at h
  | ok a =>
    rw [hparse] at h
    exact ⟨a, rfl, h⟩

/-- The tables of a source are legible if no token is named like a gap. -/
theorem tables_legible (h : ofSource kind source = .ok g)
    (hnames : ∀ t ∈ g.terminals, ¬ nameGap <:+: t.name) : g.tables.Legible := by
  obtain ⟨a, hparse, hg⟩ := exists_of_ofSource h
  have htranslates := translates_of_lowerWith (ofDescription_eq_ok_iff.mp hg).2
  constructor
  case kind => exact quote_notMem_kindText g.kind
  case nonterminals =>
    intro entry hentry
    obtain ⟨n, hn, rfl⟩ := List.mem_map.mp hentry
    have hname : n.name ∈ (a.syntheticNames kind).nonterminals ++ a.ruleNames :=
      htranslates.nonterminal_names.mem_iff.mp (List.mem_map_of_mem hn)
    rcases List.mem_append.mp hname with hname | hname
    · exact quote_notMem_synthetic hname
    · exact quote_notMem_ruleNames hparse hname
  case productions =>
    intro entry hentry
    obtain ⟨p, -, rfl⟩ := List.mem_map.mp hentry
    exact quote_notMem_precText p.prec
  case terminals =>
    intro entry hentry
    obtain ⟨t, ht, rfl⟩ := List.mem_map.mp hentry
    exact ⟨hnames t ht, quote_notMem_precText t.prec, head?_precText t.prec⟩

/-- The names of a description with its nonterminals in a given order. -/
def scopeOf (kind : Kind) (a : Description) (listed : List Name) : Lowering.Scope :=
  { description := a
    names := a.syntheticNames kind
    nontermTable := .ofNames listed
    termTable := .ofNames ((a.syntheticNames kind).endName :: a.tokens) }

/-- A grammar can be written down without sorting, once its nonterminals are listed in order. -/
theorem ofSource_of_listed (kind : Kind) {a : Description} {listed : List Name}
    (groups : List (List Lowering.Body)) (hparse : Description.parse source = .ok a)
    (hproblems : a.problems = [])
    (hperm : listed.Perm ((a.syntheticNames kind).nonterminals ++ a.ruleNames))
    (hlisted : listed.Pairwise (Numbering.Before Text.foldCase))
    (hgroups : listed.mapM (Lowering.bodies (scopeOf kind a listed)) = .ok groups) :
    ofSource kind source = .ok (Lowering.grammar kind (scopeOf kind a listed) groups) := by
  have hvalid := (Description.problems_eq_nil_iff a).mp hproblems
  have hscope : Lowering.scope Text.foldCase kind a = .ok (scopeOf kind a listed) := by
    refine Lowering.scope_eq_ok_iff.mpr ⟨a.syntheticNames_nodup kind hvalid.ruleNames_nodup, ?_, ?_⟩
    · exact List.nodup_cons.mpr ⟨a.endName_notMem kind, hvalid.tokens_nodup⟩
    · rw [scopeOf, Numbering.eq_sorted hperm hlisted]
  have hnonterms : (scopeOf kind a listed).nonterms = listed := Numbering.Table.names_ofNames listed
  have hgroups' : List.Forall₂
      (fun name found => Lowering.bodies (scopeOf kind a listed) name = .ok found)
      (scopeOf kind a listed).nonterms groups := by
    rw [hnonterms]
    exact mapM_eq_ok_iff.mp hgroups
  have hlower : a.lower kind = .ok (Lowering.grammar kind (scopeOf kind a listed) groups) :=
    Description.lowerWith_eq_ok_iff.mpr ⟨_, _, hscope, hgroups', rfl⟩
  unfold ofSource
  rw [hparse]
  exact ofDescription_eq_ok_iff.mpr ⟨hvalid, hlower⟩

/-- **Equal canonical forms come from equal tables**, if no name of a token holds the text that
stands between a name and a precedence. -/
theorem tables_eq_of_canonicalForm_eq (h : ofSource kind source = .ok g)
    (h' : ofSource kind' source' = .ok g')
    (hnames : ∀ t ∈ g.terminals, ¬ nameGap <:+: t.name)
    (hnames' : ∀ t ∈ g'.terminals, ¬ nameGap <:+: t.name)
    (hform : g.tables.canonicalForm = g'.tables.canonicalForm) : g.tables = g'.tables :=
  Tables.canonicalForm_inj (tables_legible h hnames) (tables_legible h' hnames') hform

theorem before_markers : [utf8 "^", utf8 "s"].Pairwise (Numbering.Before Text.foldCase) := by
  refine List.pairwise_pair.mpr (.inl ?_)
  decide +kernel

/-- A token with a double quote in its name. -/
def quotedQuote : Source :=
  { text := utf8 "%token a 'say \"' %start s %% s: a | s 'say \"' s;" }

/-- The same grammar in another layout and with other quotation. -/
def otherLayout : Source :=
  { text := utf8 "%start s\n%token \"a\" 'say \"'\n%%\ns: \"a\"; // first\ns: s 'say \"' s; %%" }

theorem tables_eq_quotedQuote : ∃ g g', ofSource .original quotedQuote = .ok g ∧
    ofSource .original otherLayout = .ok g' ∧
    (∀ t ∈ g.terminals, ¬ nameGap <:+: t.name) ∧ (∀ t ∈ g'.terminals, ¬ nameGap <:+: t.name) ∧
    g.tables.canonicalForm = g'.tables.canonicalForm ∧ g.tables = g'.tables := by
  let say : Name := utf8 "say \""
  let a : Description :=
    { start := utf8 "s"
      tokens := [utf8 "a", say]
      rules := [⟨utf8 "s", [⟨[.token (utf8 "a")], []⟩,
        ⟨[.rule (utf8 "s"), .token say, .rule (utf8 "s")], []⟩]⟩] }
  let groups : List (List Lowering.Body) :=
    [[⟨[.nonterminal ⟨1⟩], none⟩],
     [⟨[.terminal ⟨1⟩], none⟩, ⟨[.nonterminal ⟨1⟩, .terminal ⟨2⟩, .nonterminal ⟨1⟩], none⟩]]
  have hparse : Description.parse quotedQuote = .ok a := by decide +kernel
  have hparse' : Description.parse otherLayout = .ok a := by decide +kernel
  have h := ofSource_of_listed .original groups hparse (by decide) (by decide) before_markers
    (by decide)
  have h' := ofSource_of_listed .original groups hparse' (by decide) (by decide) before_markers
    (by decide)
  have hnames : ∀ t ∈ (Lowering.grammar .original (scopeOf .original a [utf8 "^", utf8 "s"])
      groups).terminals, ¬ nameGap <:+: t.name := by decide
  exact ⟨_, _, h, h', hnames, hnames, rfl, tables_eq_of_canonicalForm_eq h h' hnames hnames rfl⟩

/-- Two tokens, of which one is not used. -/
def twoTokens : Source := { text := utf8 "%token a b %start s %% s: a;" }

/-- One token, whose name spells the end of an entry and the beginning of the next one. -/
def spelledEntry : Source :=
  { text := utf8 "%start s %% s: 'a\",Prec:\"\"\x7d,\x7bName:\"b';" }

/-- A token name that is written without escapes passes for two. -/
theorem canonicalForm_ambiguous : ∃ g g', ofSource .original twoTokens = .ok g ∧
    ofSource .original spelledEntry = .ok g' ∧
    g.tables.canonicalForm = g'.tables.canonicalForm ∧ g.tables ≠ g'.tables := by
  let spelled : Name := utf8 "a\",Prec:\"\"\x7d,\x7bName:\"b"
  let a : Description :=
    { start := utf8 "s"
      tokens := [utf8 "a", utf8 "b"]
      rules := [⟨utf8 "s", [⟨[.token (utf8 "a")], []⟩]⟩] }
  let a' : Description :=
    { start := utf8 "s"
      tokens := [spelled]
      rules := [⟨utf8 "s", [⟨[.token spelled], []⟩]⟩] }
  let groups : List (List Lowering.Body) :=
    [[⟨[.nonterminal ⟨1⟩], none⟩], [⟨[.terminal ⟨1⟩], none⟩]]
  have hparse : Description.parse twoTokens = .ok a := by decide +kernel
  have hparse' : Description.parse spelledEntry = .ok a' := by decide +kernel
  have h := ofSource_of_listed .original groups hparse (by decide) (by decide) before_markers
    (by decide)
  have h' := ofSource_of_listed .original groups hparse' (by decide) (by decide) before_markers
    (by decide)
  exact ⟨_, _, h, h', by decide +kernel, by decide⟩

end Grammar

end YaccTables
