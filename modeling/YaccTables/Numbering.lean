import YaccTables.Symbol
import YaccTables.Text.Folding
import YaccTables.Token

/-!
# Numbering names

Nonterminals are numbered in order of their names, ignoring case and then by bytes, so that the
numbering does not depend on the order in which rules are defined. Terminals are numbered in order
of declaration, after the one that ends the input. `freshName` finds names for symbols that no user
wrote.
-/

namespace YaccTables

/-- The entries of a list that repeat an earlier one or a name seen before, in order. -/
def repeated (seen : List Name) : List Name → List Name
  | [] => []
  | name :: rest =>
    if seen.contains name then name :: repeated seen rest else repeated (name :: seen) rest

/-- A marker written a number of times. -/
def repeatedMarker (marker : Bytes) (times : Nat) : Name := (List.replicate times marker).flatten

/-- The shortest repetition of a marker that is not taken, at least the marker itself. Among one
repetition more than there are taken names, one is free if the marker is not empty. -/
def freshName (marker : Bytes) (taken : List Name) : Name :=
  let candidates := (List.range (taken.length + 1)).map fun n => repeatedMarker marker (n + 1)
  (candidates.find? (!taken.contains ·)).getD (repeatedMarker marker (taken.length + 2))

namespace Numbering

/-- Whether a pair of a folded key and a name comes before another or is the same: by key, then by
name, both by bytes. -/
def precedes (p q : Bytes × Name) : Bool :=
  decide (p.1 < q.1) || (p.1 == q.1 && decide (p.2 ≤ q.2))

/-- Names in order of their folded keys and then of their bytes. -/
def sorted (fold : Bytes → Bytes) (names : List Name) : List Name :=
  ((names.map fun name => (fold name, name)).mergeSort precedes).map Prod.snd

/-! ## Tables -/

/-- Names by their numbers, with a map from names back to numbers. The map is what has been written
to it, the last entry in front: of two entries for a name the later one counts. -/
structure Table where
  names : List Name
  numbers : List (Name × Nat)
  /-- A name stands where its number says. -/
  getElem?_of_lookup : ∀ name i, numbers.lookup name = some i → names[i]? = some name
  /-- Every name has a number. -/
  isSome_lookup : ∀ name ∈ names, (numbers.lookup name).isSome

namespace Table

/-- The table without names. -/
def empty : Table where
  names := []
  numbers := []
  getElem?_of_lookup _ _ h := absurd h (by simp)
  isSome_lookup _ h := absurd h (by simp)

/-- The number of a name. -/
def number? (t : Table) (name : Name) : Option Nat := t.numbers.lookup name

/-- The number of a name, or zero for a name without one. -/
def number (t : Table) (name : Name) : Nat := (t.number? name).getD 0

/-- The table with one more name, which gets the next number. -/
def add (t : Table) (name : Name) : Table where
  names := t.names ++ [name]
  numbers := (name, t.names.length) :: t.numbers
  getElem?_of_lookup n i h := by
    rw [List.lookup_cons] at h
    split at h
    · next heq =>
      obtain rfl := Option.some.inj h
      rw [List.getElem?_concat_length, eq_of_beq heq]
    · have hi := t.getElem?_of_lookup n i h
      rw [List.getElem?_append_left (List.getElem?_eq_some_iff.mp hi).1, hi]
  isSome_lookup n h := by
    rw [List.lookup_cons]
    split
    · rfl
    · next hne =>
      rcases List.mem_append.mp h with h | h
      · exact t.isSome_lookup n h
      · simp [List.mem_singleton.mp h] at hne

/-- The table of names that are numbered one after the other. -/
def ofNames (names : List Name) : Table := names.foldl add empty

/-- Adds names one after the other, unless one has a number already; then that name. -/
def addNew (t : Table) : List Name → Except Name Table
  | [] => .ok t
  | name :: rest =>
    match t.number? name with
    | some _ => .error name
    | none => (t.add name).addNew rest

end Table

/-- The table of the nonterminals in their order, unless a name stands twice; then the first that
repeats an earlier one. -/
def nontermTable (fold : Bytes → Bytes) (names : List Name) : Except Name Table :=
  match repeated [] names with
  | name :: _ => .error name
  | [] => .ok (Table.ofNames (sorted fold names))

/-- The table of the terminals in order of declaration, the one that ends the input first, unless a
name stands twice; then the first that repeats an earlier one. -/
def termTable (endName : Name) (tokens : List Name) : Except Name Table :=
  Table.empty.addNew (endName :: tokens)

/-- The nonterminals in order of their numbers. -/
def nonterminals (fold : Bytes → Bytes) (names : List Name) : Except Name (List Name) :=
  (nontermTable fold names).map Table.names

/-- The terminals in order of their numbers. -/
def terminals (endName : Name) (tokens : List Name) : Except Name (List Name) :=
  (termTable endName tokens).map Table.names

end Numbering

end YaccTables
