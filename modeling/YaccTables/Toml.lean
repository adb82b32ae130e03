import YaccTables.Bytes

/-!
# TOML documents

A document is a list of statements: keys that get values, and headers that open tables.
-/

namespace YaccTables.Toml

/-- A key path such as `a.b`. -/
abbrev Path := List Bytes

/-- What a key may be set to. -/
inductive Value
  | text (t : Bytes)
  | boolean (b : Bool)
  /-- A number, date or time, of which only the sort is kept. -/
  | scalar
  | array (items : List Value)
  /-- A table between braces. -/
  | inlineTable (fields : List (Path × Value))
  deriving Repr

/-- A statement of a document. -/
inductive Statement
  | set (path : Path) (value : Value)
  /-- A header between single brackets. -/
  | table (path : Path)
  /-- A header between double brackets. -/
  | tableItem (path : Path)
  deriving Repr

end YaccTables.Toml
