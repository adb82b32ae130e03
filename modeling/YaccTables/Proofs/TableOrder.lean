import Mathlib.Data.List.Count
import Mathlib.Order.Defs.Unbundled
import YaccTables.Proofs.Numbering

/-!
# The table of nonterminals

A table lists names in the order `Sooner`: by folded key, then by bytes. Whatever folding makes the
keys, and however many names share one, this is a strict total order, so distinct names can be
listed in increasing order in one way only. `nonterminals_eq_ok_iff_increasing` says that this
listing is the table, which leaves nothing of how it is computed: neither the order in which the
names come nor what the sort does with equal keys. The numbers written down with the names invert
the listing (`number?_eq_some_iff_of_nontermTable`).

Names that are not distinct have no table, and the one to blame is the first that stands at an
earlier place as well (`nontermTable_eq_error_iff`).
-/

namespace YaccTables

/-- The first entry of a list that stands at an earlier place as well. -/
def FirstRepeat (names : List Name) (name : Name) : Prop :=
  ∃ before after, names = before ++ name :: after ∧ before.Nodup ∧ name ∈ before

/-- The names seen before count as earlier places. -/
theorem head?_repeated_eq_some_iff (seen names : List Name) (name : Name) :
    (repeated seen names).head? = some name ↔
      ∃ before after, names = before ++ name :: after ∧ before.Nodup ∧
        (∀ n ∈ before, n ∉ seen) ∧ (name ∈ before ∨ name ∈ seen) := by
  induction names generalizing seen with
  | nil => simp [repeated]
  | cons first rest ih =>
    unfold repeated
    by_cases hs : first ∈ seen
    · rw [if_pos (by simpa using hs), List.head?_cons]
      constructor
      · intro h
        obtain rfl := Option.some.inj h
        exact ⟨[], rest, rfl, List.nodup_nil, by simp, .inr hs⟩
      · rintro ⟨before, after, hsplit, -, hunseen, -⟩
        cases before with
        | nil => rw [(List.cons.inj hsplit).1]
        | cons n before =>
          obtain ⟨rfl, -⟩ := List.cons.inj hsplit
          exact absurd hs (hunseen first List.mem_cons_self)
    · rw [if_neg (by simpa using hs), ih (first :: seen)]
      constructor
      · rintro ⟨before, after, rfl, hnd, hunseen, hname⟩
        refine ⟨first :: before, after, rfl, ?_, ?_, ?_⟩
        · have hfirst : first ∉ before := fun h => hunseen first h List.mem_cons_self
          exact List.nodup_cons.mpr ⟨hfirst, hnd⟩
        · intro n hn
          rcases List.mem_cons.mp hn with rfl | hn
          · exact hs
          · exact fun h => hunseen n hn (List.mem_cons_of_mem first h)
        · simp only [List.mem_cons] at hname ⊢
          tauto
      · rintro ⟨before, after, hsplit, hnd, hunseen, hname⟩
        cases before with
        | nil =>
          -- nothing stands before the first entry, and it was not seen
          obtain ⟨rfl, -⟩ := List.cons.inj hsplit
          exact absurd (hname.resolve_left List.not_mem_nil) hs
        | cons n before =>
          obtain ⟨rfl, rfl⟩ := List.cons.inj hsplit
          obtain ⟨hfirst, hnd⟩ := List.nodup_cons.mp hnd
          refine ⟨before, after, rfl, hnd, ?_, ?_⟩
          · intro n hn h
            rcases List.mem_cons.mp h with rfl | h
            · exact hfirst hn
            · exact hunseen n (List.mem_cons_of_mem first hn) h
          · simp only [List.mem_cons] at hname ⊢
            tauto

namespace Numbering

variable {fold : Bytes → Bytes} {names listed : List Name} {table : Table} {m n : Name}

/-- The name to blame is the first that repeats an earlier one. -/
theorem nontermTable_eq_error_iff {name : Name} :
    nontermTable fold names = .error name ↔ FirstRepeat names name := by
  have hhead : nontermTable fold names = .error name ↔ (repeated [] names).head? = some name := by
    unfold nontermTable
    cases repeated [] names with
    | nil => simp
    | cons first rest => simp
  rw [hhead, head?_repeated_eq_some_iff]
  simp [FirstRepeat]

/-- There is no table exactly if a name stands twice. -/
theorem exists_nontermTable_eq_error_iff :
    (∃ name, nontermTable fold names = .error name) ↔ ∃ name, 2 ≤ names.count name := by
  have hrepeat : (∃ name, 2 ≤ names.count name) ↔ ¬ names.Nodup := by
    rw [List.nodup_iff_count_le_one]
    simp only [not_forall, Nat.not_le, Nat.succ_le_iff]
  rw [hrepeat, ← repeated_nil_eq_nil_iff]
  unfold nontermTable
  cases repeated [] names with
  | nil => simp
  | cons first rest => simp

/-! ## The order of names -/

/-- A name stands before another one: by folded key, then by bytes. -/
def Sooner (fold : Bytes → Bytes) (m n : Name) : Prop :=
  fold m < fold n ∨ fold m = fold n ∧ m < n

instance (fold : Bytes → Bytes) (m n : Name) : Decidable (Sooner fold m n) :=
  inferInstanceAs (Decidable (fold m < fold n ∨ fold m = fold n ∧ m < n))

/-- To stand before is to be before or the same, and not the same. -/
theorem sooner_iff : Sooner fold m n ↔ Before fold m n ∧ m ≠ n := by
  constructor
  · rintro (hlt | ⟨hkey, hlt⟩)
    · refine ⟨.inl hlt, ?_⟩
      rintro rfl
      exact List.lt_irrefl _ hlt
    · refine ⟨.inr ⟨hkey, List.le_of_lt hlt⟩, ?_⟩
      rintro rfl
      exact List.lt_irrefl _ hlt
  · rintro ⟨hlt | ⟨hkey, hle⟩, hne⟩
    · exact .inl hlt
    · rcases Std.lt_trichotomy m n with hlt | heq | hgt
      · exact .inr ⟨hkey, hlt⟩
      · exact absurd heq hne
      · exact absurd hgt hle

theorem precedes_iff_before : precedes (fold m, m) (fold n, n) = true ↔ Before fold m n :=
  precedes_iff

/-- Names with equal keys differ in their bytes, so the keys need not tell all names apart. -/
instance sooner_isStrictTotalOrder (fold : Bytes → Bytes) :
    IsStrictTotalOrder Name (Sooner fold) where
  irrefl m h := (sooner_iff.mp h).2 rfl
  trans m n k hmn hnk := by
    obtain ⟨hmn, hne⟩ := sooner_iff.mp hmn
    obtain ⟨hnk, -⟩ := sooner_iff.mp hnk
    have hmk : Before fold m k := precedes_iff_before.mp
      (precedes_trans _ _ _ (precedes_iff_before.mpr hmn) (precedes_iff_before.mpr hnk))
    refine sooner_iff.mpr ⟨hmk, ?_⟩
    rintro rfl
    exact hne (hmn.antisymm hnk)
  trichotomous m n hmn hnm := by
    by_contra hne
    have htotal := precedes_total (fold m, m) (fold n, n)
    rw [Bool.or_eq_true, precedes_iff_before, precedes_iff_before] at htotal
    rcases htotal with h | h
    · exact hmn (sooner_iff.mpr ⟨h, hne⟩)
    · exact hnm (sooner_iff.mpr ⟨h, Ne.symm hne⟩)

/-! ## The table -/

/-- The nonterminals in order are the one increasing listing of the names. -/
theorem nonterminals_eq_ok_iff_increasing :
    nonterminals fold names = .ok listed ↔
      listed.Perm names ∧ listed.Pairwise (Sooner fold) := by
  rw [nonterminals_eq_ok_iff]
  constructor
  · rintro ⟨hnd, rfl⟩
    have hperm := sorted_perm fold names
    have hapart : (sorted fold names).Nodup := hperm.nodup_iff.mpr hnd
    exact ⟨hperm, (List.Pairwise.and (sorted_pairwise fold names) hapart).imp sooner_iff.mpr⟩
  · rintro ⟨hperm, hincreasing⟩
    have hapart : listed.Nodup := hincreasing.imp fun h => (sooner_iff.mp h).2
    refine ⟨hperm.nodup_iff.mp hapart, ?_⟩
    exact (eq_sorted hperm (hincreasing.imp fun h => (sooner_iff.mp h).1)).symm

/-- The names of a table are distinct, so its numbers invert them. -/
theorem number?_eq_some_iff_of_nontermTable (htable : nontermTable fold names = .ok table)
    {name : Name} {i : Nat} : table.number? name = some i ↔ table.names[i]? = some name := by
  obtain ⟨hnd, rfl⟩ := nontermTable_eq_ok_iff.mp htable
  apply Table.number?_eq_some_iff
  rw [Table.names_ofNames]
  exact (sorted_perm fold names).nodup_iff.mpr hnd

/-- Names in another order have the same table, with the same numbers. -/
theorem nontermTable_of_perm (htable : nontermTable fold names = .ok table)
    (hlisted : listed.Perm names) : nontermTable fold listed = .ok table := by
  obtain ⟨hnd, rfl⟩ := nontermTable_eq_ok_iff.mp htable
  refine nontermTable_eq_ok_iff.mpr ⟨hlisted.nodup_iff.mpr hnd, ?_⟩
  rw [sorted_eq_of_perm fold hlisted]

/-- **The table of nonterminals is the one increasing numbering of its names**, in the order of
folded keys and then of bytes, which is total. The number under which `Lowering.nonterm` finds a
name is the place where the table has it, and it does not matter how the names are listed. If a name
stands twice there is no table, and the first to repeat an earlier one is blamed. -/
theorem nonterminals_increasing_numbering (fold : Bytes → Bytes) (names : List Name) :
    IsStrictTotalOrder Name (Sooner fold) ∧
      ((∃ name, nontermTable fold names = .error name) ↔ ∃ name, 2 ≤ names.count name) ∧
      (∀ name, nontermTable fold names = .error name ↔ FirstRepeat names name) ∧
      (∀ listed, nonterminals fold names = .ok listed ↔
        listed.Perm names ∧ listed.Pairwise (Sooner fold)) ∧
      ∀ table, nontermTable fold names = .ok table →
        nonterminals fold names = .ok table.names ∧
        (∀ name i, table.number? name = some i ↔ table.names[i]? = some name) ∧
        ∀ listed, listed.Perm names → nontermTable fold listed = .ok table := by
  refine ⟨inferInstance, exists_nontermTable_eq_error_iff, fun name => nontermTable_eq_error_iff,
    fun listed => nonterminals_eq_ok_iff_increasing, ?_⟩
  intro table htable
  refine ⟨nonterminals_eq_ok_iff_exists.mpr ⟨table, htable, rfl⟩, ?_, ?_⟩
  · intro name i
    exact number?_eq_some_iff_of_nontermTable htable
  · intro listed hlisted
    exact nontermTable_of_perm htable hlisted

theorem nonterminals_increasing_numbering_caseTwins :
    ∃ table, nontermTable Text.foldCase (["b", "A", "a", "B"].map utf8) = .ok table ∧
      table.names = ["A", "a", "B", "b"].map utf8 ∧
      nontermTable Text.foldCase (["B", "a", "A", "b"].map utf8) = .ok table ∧
      table.number? (utf8 "B") = some 2 ∧
      nontermTable Text.foldCase (["b", "a", "A", "a", "b"].map utf8) = .error (utf8 "a") := by
  obtain ⟨-, -, -, hiff, htables⟩ :=
    nonterminals_increasing_numbering Text.foldCase (["b", "A", "a", "B"].map utf8)
  have hok := (hiff (["A", "a", "B", "b"].map utf8)).mpr ⟨by decide, by decide⟩
  obtain ⟨table, htable, hnames⟩ := nonterminals_eq_ok_iff_exists.mp hok
  obtain ⟨-, hnumber, hperm⟩ := htables table htable
  obtain ⟨-, -, hfirst, -⟩ :=
    nonterminals_increasing_numbering Text.foldCase (["b", "a", "A", "a", "b"].map utf8)
  have hrepeat : FirstRepeat (["b", "a", "A", "a", "b"].map utf8) (utf8 "a") :=
    ⟨["b", "a", "A"].map utf8, ["b"].map utf8, by decide, by decide, by decide⟩
  have htwo : table.number? (utf8 "B") = some 2 := by
    rw [hnumber, hnames]
    rfl
  exact ⟨table, htable, hnames, hperm _ (by decide), htwo, (hfirst _).mpr hrepeat⟩

end Numbering

end YaccTables
