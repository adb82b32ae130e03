import YaccTables.Outline

/-!
# Growing outlines

A forest holds numbered nodes that are added one at a time. A node may stand under several others,
and what is added to it later shows under all of them.
-/

namespace YaccTables.Outline

/-- A node of a forest: its text and the numbers of the nodes under it, in order. -/
structure ForestNode where
  text : Bytes
  items : List Nat := []
  deriving Repr

/-- Nodes numbered from zero in the order of their creation. -/
structure Forest where
  nodes : List ForestNode := []
  deriving Repr

namespace Forest

/-- The number of nodes. -/
def size (f : Forest) : Nat := f.nodes.length

/-- Adds a node under no other; its number is the old size. -/
def plant (f : Forest) (text : Bytes) : Forest := ⟨f.nodes ++ [{ text := text }]⟩

/-- Puts node `child` last under node `parent`. -/
def attach (f : Forest) (parent child : Nat) : Forest :=
  ⟨f.nodes.modify parent fun n => { n with items := n.items ++ [child] }⟩

/-- Adds a new node last under an existing one; its number is the old size. -/
def graft (f : Forest) (parent : Nat) (text : Bytes) : Forest :=
  (f.plant text).attach parent f.size

/-- The outline below a node, down to a depth. A node that does not exist shows as an empty one. -/
def below (f : Forest) : Nat → Nat → Outline
  | 0, n => .leaf ((f.nodes[n]?.map ForestNode.text).getD [])
  | depth + 1, n =>
    match f.nodes[n]? with
    | none => .leaf []
    | some found => .node found.text (found.items.map (below f depth))

/-- The outline below a node. No path without repetition is longer than the number of nodes. -/
def outline? (f : Forest) (n : Nat) : Option Outline :=
  if n < f.size then some (f.below f.size n) else none

end Forest

end YaccTables.Outline
