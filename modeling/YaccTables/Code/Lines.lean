import YaccTables.Code.Lexeme

/-!
# Lines of a source file

Places are turned into lines and columns by a table of the offsets at which lines start.
-/

namespace YaccTables.Code

/-- The offsets at which the lines of a file start, in ascending order; the first is zero. -/
abbrev LineTable := Array Nat

/-- A line and column, counted from one, with the offset. Line zero is no line. Where text is
written, these may run ahead of the file, or below zero. -/
structure Place where
  offset : Int := 0
  line : Int := 0
  column : Int := 0
  deriving DecidableEq, Repr

namespace LineTable

/-- The table of a text. A line has at least one byte, the first line apart. -/
def ofText (text : Bytes) : LineTable :=
  let size := text.length
  (text.foldl (fun (starts, next) b =>
    (if b = lineFeed ∧ next < size then starts.push next else starts, next + 1))
    (#[0], 1)).1

/-- The number of starts at or before an offset among those from `low` to below `high`, if those
below `low` are and those from `high` on are not. -/
def countWithin (starts : LineTable) (offset : Nat) : Nat → Nat → Nat → Nat
  | 0, low, _ => low
  | fuel + 1, low, high =>
    if high ≤ low then low
    else
      let mid := (low + high) / 2
      if starts[mid]?.getD 0 ≤ offset then countWithin starts offset fuel (mid + 1) high
      else countWithin starts offset fuel low mid

/-- The line of a place, counted from one; zero for no place. -/
def line (starts : LineTable) (pos : Pos) : Nat :=
  if pos = 0 then 0 else countWithin starts (pos - 1) starts.size 0 starts.size

/-- The place where a line starts. -/
def start (starts : LineTable) (line : Nat) : Pos := starts[line - 1]?.getD 0 + 1

/-- The line and column of a place. -/
def place (starts : LineTable) (pos : Pos) : Place :=
  if pos = 0 then {}
  else
    let line := starts.line pos
    { offset := (pos : Int) - 1, line := line, column := (pos : Int) - starts.start line + 1 }

/-- The table in which a line and the next are one. -/
def merge (starts : LineTable) (line : Nat) : LineTable :=
  (starts.toList.eraseIdx line).toArray

end LineTable

end YaccTables.Code
