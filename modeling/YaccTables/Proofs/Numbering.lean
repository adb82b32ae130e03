import Mathlib.Data.List.Nodup
import Mathlib.Data.List.Perm.Subperm
import YaccTables.Numbering

/-!
# Distinct names, fresh names and their order

The three facts that lowering needs of names, each stated without the function that computes it:

* `repeated` finds nothing exactly in a list without repetitions, so names are numbered exactly if
  they are distinct (`nontermTable_eq_ok_iff`, `termTable_eq_ok_iff`), and then the numbers invert
  the list of the names (`Table.number?_eq_some_iff`);
* `freshName` is not taken, whatever the taken names look like (`freshName_notMem`): the
  repetitions of a marker have pairwise different lengths, so one more of them than there are taken
  names cannot all be taken;
* sorting only moves names around (`sorted_perm`), and there is one order to move them into,
  whatever the keys are (`eq_sorted`).

Neither a fresh name nor the order depends on how the names are listed (`freshName_eq_of_perm`,
`sorted_eq_of_perm`).
-/

namespace YaccTables

/-! ## Repeated names -/

/-- Nothing is repeated if names differ from each other and from those seen before. -/
theorem repeated_eq_nil_iff (seen names : List Name) :
    repeated seen names = [] ↔ names.Nodup ∧ ∀ name ∈ names, name ∉ seen := by
  induction names generalizing seen with
  | nil => simp [repeated]
  | cons name rest ih =>
    rw [repeated]
    by_cases hs : name ∈ seen
    · simp [hs]
    · rw [if_neg (by simpa using hs), ih (name :: seen), List.nodup_cons]
      -- the name at hand joins those seen: of the rest it is what makes names distinct
      constructor
      · rintro ⟨hnd, hfresh⟩
        have hname : name ∉ rest := fun hmem => hfresh name hmem List.mem_cons_self
        refine ⟨⟨hname, hnd⟩, ?_⟩
        intro n hn
        rcases List.mem_cons.mp hn with rfl | hn
        · exact hs
        · exact fun hmem => hfresh n hn (List.mem_cons_of_mem name hmem)
      · rintro ⟨⟨hname, hnd⟩, hseen⟩
        refine ⟨hnd, ?_⟩
        intro n hn hmem
        rcases List.mem_cons.mp hmem with rfl | hmem
        · exact hname hn
        · exact hseen n (List.mem_cons_of_mem name hn) hmem

/-- Nothing is repeated exactly if names differ from each other. -/
theorem repeated_nil_eq_nil_iff (names : List Name) : repeated [] names = [] ↔ names.Nodup := by
  rw [repeated_eq_nil_iff]
  simp

/-! ## Fresh names -/

theorem repeatedMarker_length (marker : Bytes) (times : Nat) :
    (repeatedMarker marker times).length = times * marker.length := by
  simp [repeatedMarker]

/-- Repetitions of a marker differ. -/
theorem repeatedMarker_injective {marker : Bytes} (hm : marker ≠ []) :
    Function.Injective (repeatedMarker marker) := by
  intro m n h
  -- the length of a repetition tells how often a marker that is not empty stands in it
  have hlen := congrArg List.length h
  rw [repeatedMarker_length, repeatedMarker_length] at hlen
  exact Nat.eq_of_mul_eq_mul_right (List.length_pos_iff.mpr hm) hlen

/-- Of different texts, one more than there are taken ones, one is not taken. -/
theorem exists_notMem_of_injective {f : Nat → Bytes} (hf : Function.Injective f)
    (taken : List Bytes) : ∃ n ≤ taken.length, f n ∉ taken := by
  by_contra! hall
  have hsub : (List.range (taken.length + 1)).map f ⊆ taken := by
    intro text htext
    obtain ⟨n, hn, rfl⟩ := List.mem_map.mp htext
    exact hall n (Nat.le_of_lt_succ (List.mem_range.mp hn))
  have hle := ((List.nodup_range.map hf).subperm hsub).length_le
  rw [List.length_map, List.length_range] at hle
  omega

/-- One of the candidates is free. -/
theorem exists_candidate_notMem {marker : Bytes} (hm : marker ≠ []) (taken : List Name) :
    ∃ name ∈ (List.range (taken.length + 1)).map fun i => repeatedMarker marker (i + 1),
      name ∉ taken := by
  have hinj : Function.Injective fun i => repeatedMarker marker (i + 1) := by
    intro i j h
    exact Nat.succ.inj (repeatedMarker_injective hm h)
  obtain ⟨n, hn, hnot⟩ := exists_notMem_of_injective hinj taken
  exact ⟨_, List.mem_map.mpr ⟨n, List.mem_range.mpr (Nat.lt_succ_of_le hn), rfl⟩, hnot⟩

/-- **A fresh name is not taken.** The search among the candidates always ends with a free one. -/
theorem freshName_notMem {marker : Bytes} (hm : marker ≠ []) (taken : List Name) :
    freshName marker taken ∉ taken := by
  obtain ⟨name, hname, hnot⟩ := exists_candidate_notMem hm taken
  rw [freshName]
  cases hf : ((List.range (taken.length + 1)).map fun i => repeatedMarker marker (i + 1)).find?
      (!taken.contains ·) with
  | none =>
    have := List.find?_eq_none.mp hf name hname
    simp [hnot] at this
  | some found =>
    have hfound := List.find?_some hf
    rw [Option.getD_some]
    simpa using hfound

theorem mem_of_mem_repeatedMarker {marker : Bytes} {times : Nat} {b : UInt8}
    (h : b ∈ repeatedMarker marker times) : b ∈ marker := by
  obtain ⟨copy, hcopy, hb⟩ := List.mem_flatten.mp h
  exact List.eq_of_mem_replicate hcopy ▸ hb

/-- A fresh name is made of the bytes of its marker. -/
theorem mem_of_mem_freshName {marker : Bytes} {taken : List Name} {b : UInt8}
    (h : b ∈ freshName marker taken) : b ∈ marker := by
  rw [freshName] at h
  cases hf : ((List.range (taken.length + 1)).map fun i => repeatedMarker marker (i + 1)).find?
      (!taken.contains ·) with
  | none =>
    rw [hf] at h
    exact mem_of_mem_repeatedMarker h
  | some found =>
    obtain ⟨i, -, rfl⟩ := List.mem_map.mp (List.mem_of_find?_eq_some hf)
    rw [hf] at h
    exact mem_of_mem_repeatedMarker h

/-- It matters which names are taken, but not in which order they are listed. -/
theorem freshName_eq_of_perm (marker : Bytes) {taken taken' : List Name}
    (h : taken.Perm taken') : freshName marker taken = freshName marker taken' := by
  have hcontains : (fun name => !taken.contains name) = fun name => !taken'.contains name := by
    funext name
    rw [h.contains_eq]
  simp only [freshName, h.length_eq, hcontains]

/-! ## Numberings -/

namespace Numbering

/-- Sorting only moves names around. -/
theorem sorted_perm (fold : Bytes → Bytes) (names : List Name) :
    (sorted fold names).Perm names := by
  have hperm := (List.mergeSort_perm (names.map fun name => (fold name, name)) precedes).map
    Prod.snd
  have hback : (names.map fun name => (fold name, name)).map Prod.snd = names := by
    rw [List.map_map]
    exact List.map_id names
  rw [hback] at hperm
  exact hperm

/-- A name stands before another one or is the same: by folded key, then by bytes. -/
def Before (fold : Bytes → Bytes) (m n : Name) : Prop :=
  fold m < fold n ∨ fold m = fold n ∧ m ≤ n

/-- Keys are compared first, and names if these are equal. -/
theorem precedes_iff {p q : Bytes × Name} :
    precedes p q = true ↔ p.1 < q.1 ∨ p.1 = q.1 ∧ p.2 ≤ q.2 := by
  simp [precedes]

/-- The comparison is transitive, as sorting needs it. -/
theorem precedes_trans (p q r : Bytes × Name) (hpq : precedes p q = true)
    (hqr : precedes q r = true) : precedes p r = true := by
  rw [precedes_iff] at *
  rcases hpq with hpq | ⟨hpq, hpq'⟩
  · rcases hqr with hqr | ⟨hqr, -⟩
    · exact .inl (List.lt_trans hpq hqr)
    · exact .inl (hqr ▸ hpq)
  · rcases hqr with hqr | ⟨hqr, hqr'⟩
    · exact .inl (hpq ▸ hqr)
    · exact .inr ⟨hpq.trans hqr, List.le_trans hpq' hqr'⟩

/-- The comparison is total, as sorting needs it. -/
theorem precedes_total (p q : Bytes × Name) : (precedes p q || precedes q p) = true := by
  rw [Bool.or_eq_true, precedes_iff, precedes_iff]
  rcases Std.lt_trichotomy p.1 q.1 with hlt | heq | hgt
  · exact .inl (.inl hlt)
  · rcases List.le_total p.2 q.2 with hle | hle
    · exact .inl (.inr ⟨heq, hle⟩)
    · exact .inr (.inr ⟨heq.symm, hle⟩)
  · exact .inr (.inl hgt)

/-- Of two different names one stands before the other and not the other way round. -/
theorem Before.antisymm {fold : Bytes → Bytes} {m n : Name} (h : Before fold m n)
    (h' : Before fold n m) : m = n := by
  rcases h with hlt | ⟨hkey, hle⟩
  · -- names with different keys stand in one order only
    rcases h' with hlt' | ⟨hkey', -⟩
    · exact absurd hlt' (List.lt_asymm hlt)
    · exact absurd hlt (hkey' ▸ List.lt_irrefl _)
  · rcases h' with hlt' | ⟨-, hle'⟩
    · exact absurd hlt' (hkey ▸ List.lt_irrefl _)
    · exact List.le_antisymm hle hle'

/-- Sorted names stand in order. -/
theorem sorted_pairwise (fold : Bytes → Bytes) (names : List Name) :
    (sorted fold names).Pairwise (Before fold) := by
  -- the pairs are in order, and each of them has the key of its name
  have hpairs := List.pairwise_mergeSort precedes_trans precedes_total
    (names.map fun name => (fold name, name))
  have hkey : ∀ p ∈ (names.map fun name => (fold name, name)).mergeSort precedes,
      p.1 = fold p.2 := by
    intro p hp
    obtain ⟨name, -, rfl⟩ := List.mem_map.mp ((List.mergeSort_perm _ precedes).mem_iff.mp hp)
    rfl
  rw [sorted, List.pairwise_map]
  refine hpairs.imp_of_mem ?_
  intro p q hp hq hpq
  rw [precedes_iff, hkey p hp, hkey q hq] at hpq
  exact hpq

/-- **There is one way to put names in order**, so it does not matter how it is done. Names with
equal keys are told apart by their bytes. -/
theorem eq_sorted {fold : Bytes → Bytes} {names listed : List Name} (hperm : listed.Perm names)
    (hlisted : listed.Pairwise (Before fold)) : listed = sorted fold names :=
  List.Perm.eq_of_pairwise (fun _ _ _ _ => Before.antisymm) hlisted (sorted_pairwise fold names)
    (hperm.trans (sorted_perm fold names).symm)

/-- The sorted names do not depend on how they were listed. -/
theorem sorted_eq_of_perm (fold : Bytes → Bytes) {names names' : List Name}
    (h : names.Perm names') : sorted fold names = sorted fold names' :=
  eq_sorted ((sorted_perm fold names).trans h) (sorted_pairwise fold names)

/-! ## Tables -/

namespace Table

variable {t table : Table} {name : Name} {names : List Name}

/-- A name without a number is not in the table. -/
theorem number?_isSome_iff : (t.number? name).isSome ↔ name ∈ t.names := by
  constructor
  · intro h
    obtain ⟨i, hi⟩ := Option.isSome_iff_exists.mp h
    exact List.mem_of_getElem? (t.getElem?_of_lookup name i hi)
  · exact t.isSome_lookup name

/-- **The numbers of distinct names invert their list.** -/
theorem number?_eq_some_iff (hnd : t.names.Nodup) {i : Nat} :
    t.number? name = some i ↔ t.names[i]? = some name := by
  constructor
  · exact t.getElem?_of_lookup name i
  · intro h
    obtain ⟨j, hj⟩ := Option.isSome_iff_exists.mp
      (number?_isSome_iff.mpr (List.mem_of_getElem? h))
    have hplace := t.getElem?_of_lookup name j hj
    -- the name stands at one place only, so the number found is the one asked for
    have hlt := (List.getElem?_eq_some_iff.mp h).1
    rw [hj, (List.getElem?_inj hlt hnd).mp (h.trans hplace.symm)]

/-- A name of the table stands at its number. -/
theorem getElem?_number (h : name ∈ t.names) : t.names[t.number name]? = some name := by
  obtain ⟨i, hi⟩ := Option.isSome_iff_exists.mp (number?_isSome_iff.mpr h)
  rw [number, hi, Option.getD_some]
  exact t.getElem?_of_lookup name i hi

theorem names_add (t : Table) (name : Name) : (t.add name).names = t.names ++ [name] := rfl

/-- Names are added behind those of the table. -/
theorem names_foldl_add (t : Table) (names : List Name) :
    (names.foldl add t).names = t.names ++ names := by
  induction names generalizing t with
  | nil => rw [List.foldl_nil, List.append_nil]
  | cons name rest ih => rw [List.foldl_cons, ih, names_add, List.append_assoc]; rfl

/-- A table lists the names that it is made of. -/
@[simp] theorem names_ofNames (names : List Name) : (ofNames names).names = names :=
  names_foldl_add empty names

/-- The names seen before are those of the table at hand. -/
theorem addNew_eq_ok_iff :
    t.addNew names = .ok table ↔
      (names.Nodup ∧ ∀ name ∈ names, name ∉ t.names) ∧ names.foldl add t = table := by
  induction names generalizing t with
  | nil => simp [addNew]
  | cons name rest ih =>
    rw [addNew]
    cases hn : t.number? name with
    | some i =>
      have hmem : name ∈ t.names := number?_isSome_iff.mp (by rw [hn]; rfl)
      simp [hmem]
    | none =>
      have hmem : name ∉ t.names := by
        rw [← number?_isSome_iff, hn]
        exact Bool.false_ne_true
      show (t.add name).addNew rest = .ok table ↔ _
      rw [ih, names_add, List.nodup_cons, List.foldl_cons]
      simp only [List.forall_mem_cons, List.mem_append, List.mem_singleton, not_or]
      -- the name at hand joins those seen: of the rest it is what makes names distinct
      constructor
      · rintro ⟨⟨hnd, hrest⟩, htable⟩
        exact ⟨⟨⟨fun h => (hrest name h).2 rfl, hnd⟩, hmem, fun n hn => (hrest n hn).1⟩, htable⟩
      · rintro ⟨⟨⟨hname, hnd⟩, -, hrest⟩, htable⟩
        exact ⟨⟨hnd, fun n hn => ⟨hrest n hn, fun h => hname (h ▸ hn)⟩⟩, htable⟩

end Table

section Tables

variable {fold : Bytes → Bytes} {endName : Name} {names tokens numbered : List Name}
  {table : Table}

/-- Distinct names have a table, which numbers them in order. -/
theorem nontermTable_eq_ok_iff :
    nontermTable fold names = .ok table ↔
      names.Nodup ∧ Table.ofNames (sorted fold names) = table := by
  rw [← repeated_nil_eq_nil_iff, nontermTable]
  cases repeated [] names with
  | nil => simp
  | cons name rest => simp

/-- Distinct tokens apart from the end of the input have a table, which numbers them as declared. -/
theorem termTable_eq_ok_iff :
    termTable endName tokens = .ok table ↔
      (endName :: tokens).Nodup ∧ Table.ofNames (endName :: tokens) = table := by
  rw [termTable, Table.addNew_eq_ok_iff, Table.ofNames]
  simp [Table.empty]

/-- The nonterminals in order are the names of their table. -/
theorem nonterminals_eq_ok_iff_exists :
    nonterminals fold names = .ok numbered ↔
      ∃ table, nontermTable fold names = .ok table ∧ table.names = numbered := by
  unfold nonterminals
  cases nontermTable fold names with
  | error name => simp [Except.map]
  | ok table => simp [Except.map]

/-- The nonterminals in order are the sorted names, if these are distinct. -/
theorem nonterminals_eq_ok_iff :
    nonterminals fold names = .ok numbered ↔ names.Nodup ∧ sorted fold names = numbered := by
  rw [nonterminals_eq_ok_iff_exists]
  constructor
  · rintro ⟨table, htable, rfl⟩
    obtain ⟨hnd, rfl⟩ := nontermTable_eq_ok_iff.mp htable
    exact ⟨hnd, (Table.names_ofNames _).symm⟩
  · rintro ⟨hnd, rfl⟩
    exact ⟨_, nontermTable_eq_ok_iff.mpr ⟨hnd, rfl⟩, Table.names_ofNames _⟩

end Tables

end Numbering

end YaccTables
