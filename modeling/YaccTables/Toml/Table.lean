import YaccTables.Toml.Reader

/-!
# Tables of a TOML document

`Toml.table?` gathers the statements of a document into its top-level table. A key is set once, with
two exceptions. What stands under an implicit path stays when the path is set, and loses the mark;
so a table that came about only because a key below it was set may still be opened by a header of
its own. And what stands under a path marked as an array gives way to what is set after it.

The marks belong to paths, not to what stands there: the tables that headers between double brackets
open under one key share them.
-/

namespace YaccTables.Toml

/-- What stands under a key. -/
inductive Node
  | text (t : Bytes)
  | boolean (b : Bool)
  | scalar
  /-- An array, of which no item is kept. -/
  | array
  | table (fields : List (Bytes × Node))
  /-- The tables that headers between double brackets opened under one key. -/
  | tables (items : List (List (Bytes × Node)))
  deriving Repr

/-- Keys with what stands under them, in order of their first mention. -/
abbrev Fields := List (Bytes × Node)

namespace Fields

/-- Puts something under a key, in place of what stands there. -/
def put (key : Bytes) (node : Node) (fields : Fields) : Fields :=
  if (fields.lookup key).isSome then
    fields.map fun (k, old) => if k = key then (k, node) else (k, old)
  else fields ++ [(key, node)]

/-- The table under a key; of several tables, the last. -/
def sub? (key : Bytes) (fields : Fields) : Option Fields :=
  match fields.lookup key with
  | some (.table sub) => some sub
  | some (.tables items) => items.getLast?
  | _ => none

/-- Puts a table in place of the one under a key; of several tables, in place of the last. -/
def putSub (fields : Fields) (key : Bytes) (sub : Fields) : Fields :=
  match fields.lookup key with
  | some (.tables items) => fields.put key (.tables (items.dropLast ++ [sub]))
  | _ => fields.put key (.table sub)

/-- The table at the end of a path. -/
def at? : Path → Fields → Option Fields
  | [], fields => some fields
  | key :: rest, fields => (sub? key fields).bind (at? rest)

/-- Puts something under a key of the table at the end of a path. -/
def putAt? (key : Bytes) (node : Node) : Path → Fields → Option Fields
  | [], fields => some (fields.put key node)
  | step :: rest, fields => do
    let sub ← putAt? key node rest (← sub? step fields)
    some (fields.putSub step sub)

end Fields

/-- A table under construction. -/
structure Draft where
  /-- The table that settings go to. -/
  context : Path := []
  /-- What there is so far. -/
  fields : Fields := []
  /-- The paths that may be set once more, which keeps what stands there. -/
  implicit : List Path := []
  /-- The paths that may be set again, which replaces what stands there. -/
  arrays : List Path := []

namespace Draft

/-- Notes whether the value of a key is an array. The note for an empty key is about the table that
it stands in. -/
def markArray (d : Draft) (key : Bytes) (isArray : Bool) : Draft :=
  let path := if key.isEmpty && !d.context.isEmpty then d.context else d.context ++ [key]
  let others := d.arrays.filter (· != path)
  { d with arrays := if isArray then path :: others else others }

/-- Marks a path as implicit. -/
def markImplicit (d : Draft) (path : Path) : Draft := { d with implicit := path :: d.implicit }

/-- Takes the mark from an implicit path. -/
def unmarkImplicit (d : Draft) (path : Path) : Draft :=
  { d with implicit := d.implicit.filter (· != path) }

/-- Puts something under a key of the current table. -/
def put? (d : Draft) (key : Bytes) (node : Node) : Option Draft :=
  (d.fields.putAt? key node d.context).map fun fields => { d with fields := fields }

/-- Sets a key of the current table. -/
def set? (d : Draft) (key : Bytes) (node : Node) : Option Draft := do
  let path := d.context ++ [key]
  let here ← d.fields.at? d.context
  if (here.lookup key).isNone then d.put? key node
  else if d.arrays.contains path then (d.unmarkImplicit path).put? key node
  else if d.implicit.contains path then some (d.unmarkImplicit path)
  else none

/-- Adds one more to the tables under a key of the current table. -/
def addItem? (d : Draft) (key : Bytes) : Option Draft := do
  let here ← d.fields.at? d.context
  match here.lookup key with
  | none => d.put? key (.tables [[]])
  | some (.tables items) => d.put? key (.tables (items ++ [[]]))
  | some _ => none

/-- Goes down to a table of the current one, which is added as an implicit one if it is missing. -/
def descend? (d : Draft) (key : Bytes) : Option Draft := do
  let path := d.context ++ [key]
  let here ← d.fields.at? d.context
  let d ← if (here.lookup key).isNone then (d.markImplicit path).put? key (.table []) else some d
  let _ ← d.fields.at? path
  some { d with context := path }

/-- Opens the table under a key of the current table, or one more of the tables there. -/
def openIn? (d : Draft) (asItem : Bool) (key : Bytes) : Option Draft := do
  let opened ← if asItem then d.addItem? key else d.set? key (.table [])
  some { opened with context := d.context ++ [key] }

/-- Opens the table at a path, or one more of the tables there. -/
def open? (d : Draft) (path : Path) (asItem : Bool) : Option Draft := do
  let key ← path.getLast?
  let d ← path.dropLast.foldlM descend? { d with context := [] }
  d.openIn? asItem key

/-- Opens a table of the current one that is implicit until it is opened. -/
def openImplicit? (asItem : Bool) (d : Draft) (key : Bytes) : Option Draft :=
  (d.markImplicit (d.context ++ [key])).openIn? asItem key

mutual

/-- What a value for a key of the current table comes to. A table between braces is opened under the
key already while it is read; within an array it is opened as one of several. -/
def value? (d : Draft) (key : Bytes) (inArray : Bool) : Value → Option (Draft × Node)
  | .text t => some (d, .text t)
  | .boolean b => some (d, .boolean b)
  | .scalar => some (d, .scalar)
  | .array items => ((d.markArray key true).items? key items).map fun d => (d, .array)
  | .inlineTable inner =>
    (d.openImplicit? inArray key).bind fun opened =>
      (opened.assign? opened.context [] inner).map fun (closed, sub) =>
        ({ closed with context := d.context }, .table sub)

/-- What the items of an array for a key come to. -/
def items? (d : Draft) (key : Bytes) : List Value → Option Draft
  | [] => some d
  | item :: rest => (d.value? key true item).bind fun (d, _) => d.items? key rest

/-- Sets keys of the table at `home`, where the draft stands, one after the other. The values are
also collected under the last parts of their keys. -/
def assign? (d : Draft) (home : Path) (set : Fields) :
    List (Path × Value) → Option (Draft × Fields)
  | [] => some (d, set)
  | (path, value) :: rest =>
    let key := path.getLast?.getD []
    (path.dropLast.foldlM (openImplicit? false) d).bind fun d =>
      (d.value? key false value).bind fun (d, node) =>
        (d.set? key node).bind fun d =>
          let d := d.markArray key (match node with | .array => true | _ => false)
          ({ d with context := home } : Draft).assign? home (set.put key node) rest

end

/-- A draft after one more statement. -/
def add? (d : Draft) : Statement → Option Draft
  | .set path value => (d.assign? d.context [] [(path, value)]).map Prod.fst
  | .table path => (d.open? path false).map (·.markArray [] false)
  | .tableItem path => (d.open? path true).map (·.markArray [] false)

end Draft

/-- The top-level table of a document. -/
def table? (text : Bytes) : Option Fields := do
  let statements ← read? text
  let draft ← statements.foldlM Draft.add? {}
  some draft.fields

end YaccTables.Toml
