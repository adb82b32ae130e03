import Mathlib.Data.List.Nodup
import YaccTables.Proofs.Lowering

/-!
# Where the productions of a nonterminal stand

`Lowering.grammar` puts the productions of all nonterminals one behind the other. This module does
the arithmetic of that layout once:

* `firstProd groups i` — how many productions stand before those of nonterminal `i`;
* `assemble_getElem?`, `numberFrom_getElem?` — the productions of nonterminal `i` and the indices
  that it lists for them, both from `firstProd` on;
* `flatMap_prods_numberFrom` — the lists of all nonterminals together are `0, 1, 2, …`, so that
  every production is listed exactly once.
-/

namespace YaccTables

namespace Lowering

/-! ## The layout -/

/-- The number of the first production of a nonterminal. -/
def firstProd (groups : List (List Body)) (i : Nat) : Nat := (groups.take i).flatten.length

/-- A production of a nonterminal. -/
def Body.ofRule (i : Nat) (b : Body) : IndexedProduction :=
  { rule := ⟨i⟩, symbols := b.symbols, prec := b.prec }

/-- The productions of the first group come before those of all others. -/
theorem firstProd_cons_succ (found : List Body) (groups : List (List Body)) (i : Nat) :
    firstProd (found :: groups) (i + 1) = found.length + firstProd groups i := by
  simp [firstProd]

/-- The productions of the nonterminals from number `n` on. -/
def assembleFrom (n : Nat) (groups : List (List Body)) : List IndexedProduction :=
  (groups.zipIdx n).flatMap fun (found, i) => found.map (Body.ofRule i)

/-- Groups are numbered from zero. -/
theorem assemble_eq (groups : List (List Body)) : assemble groups = assembleFrom 0 groups := rfl

theorem assembleFrom_cons (n : Nat) (found : List Body) (groups : List (List Body)) :
    assembleFrom n (found :: groups) = found.map (Body.ofRule n) ++ assembleFrom (n + 1) groups :=
  rfl

/-- Nothing is left out and nothing added. -/
theorem assembleFrom_length (n : Nat) (groups : List (List Body)) :
    (assembleFrom n groups).length = groups.flatten.length := by
  induction groups generalizing n with
  | nil => rfl
  | cons found groups ih =>
    rw [assembleFrom_cons, List.length_append, List.length_map, ih, List.flatten_cons,
      List.length_append]

/-- A production of a group stands as far behind the first one of the group as it does in the
group. -/
theorem assembleFrom_getElem? {groups : List (List Body)} {i j : Nat} {found : List Body}
    {b : Body} (n : Nat) (hg : groups[i]? = some found) (hb : found[j]? = some b) :
    (assembleFrom n groups)[firstProd groups i + j]? = some (b.ofRule (n + i)) := by
  induction groups generalizing n i with
  | nil => simp at hg
  | cons head groups ih =>
    rw [assembleFrom_cons]
    cases i with
    | zero =>
      obtain rfl : head = found := by simpa using hg
      have hj : j < (head.map (Body.ofRule n)).length := by
        rw [List.length_map]
        exact (List.getElem?_eq_some_iff.mp hb).1
      rw [show firstProd (head :: groups) 0 + j = j from by simp [firstProd],
        List.getElem?_append_left hj, List.getElem?_map, hb]
      rfl
    | succ i =>
      -- skip the productions of the first nonterminal
      have hg' : groups[i]? = some found := by simpa using hg
      have hlen : (head.map (Body.ofRule n)).length = head.length := List.length_map _
      rw [firstProd_cons_succ, List.getElem?_append_right (by omega), hlen,
        show head.length + firstProd groups i + j - head.length = firstProd groups i + j
          from by omega, ih (n + 1) hg', show n + 1 + i = n + (i + 1) from by omega]

/-- The place of a production follows from its group and its place there. -/
theorem assemble_getElem? {groups : List (List Body)} {i j : Nat} {found : List Body} {b : Body}
    (hg : groups[i]? = some found) (hb : found[j]? = some b) :
    (assemble groups)[firstProd groups i + j]? = some (b.ofRule i) := by
  rw [assemble_eq, assembleFrom_getElem? 0 hg hb, Nat.zero_add]

/-- A nonterminal has the numbers of the productions of its own group, in order. -/
theorem numberFrom_getElem? {names : List Name} {groups : List (List Body)} {i : Nat} {name : Name}
    {found : List Body} (next : Nat) (hn : names[i]? = some name) (hg : groups[i]? = some found) :
    (numberFrom next (names.zip groups))[i]?
      = some ⟨name, (List.range' (next + firstProd groups i) found.length).map ProdIdx.mk⟩ := by
  induction names generalizing groups next i with
  | nil => simp at hn
  | cons head names ih =>
    cases groups with
    | nil => simp at hg
    | cons first groups =>
      rw [List.zip_cons_cons, numberFrom]
      cases i with
      | zero =>
        obtain rfl : head = name := by simpa using hn
        obtain rfl : first = found := by simpa using hg
        rw [List.getElem?_cons_zero, show next + firstProd (first :: groups) 0 = next from by
          simp [firstProd]]
      | succ i =>
        rw [List.getElem?_cons_succ, ih (next + first.length) (by simpa using hn)
          (by simpa using hg), firstProd_cons_succ, Nat.add_assoc]

/-- Numbering productions leaves the names of the nonterminals in order. -/
theorem map_name_numberFrom {names : List Name} {groups : List (List Body)} (next : Nat)
    (hlen : names.length = groups.length) :
    (numberFrom next (names.zip groups)).map Nonterminal.name = names := by
  induction names generalizing groups next with
  | nil => rfl
  | cons name names ih =>
    cases groups with
    | nil => simp at hlen
    | cons found groups =>
      rw [List.zip_cons_cons, numberFrom, List.map_cons,
        ih (next + found.length) (by simpa using hlen)]

/-- **Every production is listed exactly once.** The lists of all nonterminals, one behind the
other, count the productions through. -/
theorem flatMap_prods_numberFrom {names : List Name} {groups : List (List Body)} (next : Nat)
    (hlen : names.length = groups.length) :
    (numberFrom next (names.zip groups)).flatMap Nonterminal.prods
      = (List.range' next groups.flatten.length).map ProdIdx.mk := by
  induction names generalizing groups next with
  | nil =>
    obtain rfl : groups = [] := List.length_eq_zero_iff.mp (by simpa using hlen.symm)
    rfl
  | cons name names ih =>
    cases groups with
    | nil => simp at hlen
    | cons found groups =>
      rw [List.zip_cons_cons, numberFrom, List.flatMap_cons,
        ih (next + found.length) (by simpa using hlen), ← List.map_append, List.range'_append_1,
        List.flatten_cons, List.length_append]

/-- Precedences are added to the terminals in order. -/
theorem map_name_terminals (a : Description) (terms : List Name) :
    (terminals a terms).map Terminal.name = terms := by
  cases terms with
  | nil => rfl
  | cons endName tokens =>
    rw [terminals, List.map_cons, List.map_map]
    exact congrArg (endName :: ·) (List.map_id tokens)

end Lowering

end YaccTables
