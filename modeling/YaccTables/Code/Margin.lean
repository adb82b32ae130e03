import YaccTables.Bytes

/-!
# The margin of a comment

The lines of a comment between marks are moved to the left together, so that what stood below its
start stays there. A column of stars stays a column.
-/

namespace YaccTables.Code.Margin

/-- A byte that shows nothing. -/
def isInvisible (b : UInt8) : Bool := b ≤ space

/-- A line that shows nothing. -/
def isBlankLine (line : Bytes) : Bool := line.all isInvisible

/-- What two lines start with in common, as far as it is invisible or stars. -/
def common : Bytes → Bytes → Bytes
  | a :: as, b :: bs =>
    if a = b ∧ (isInvisible a ∨ a = ascii '*') then a :: common as bs else []
  | _, _ => []

/-- A text without an ending, if it ends so. -/
def withoutEnd (ending text : Bytes) : Bytes :=
  if ending.isSuffixOf text then text.take (text.length - ending.length) else text

/-- The margin that the lines between the first and the last have in common; if they are all blank,
that of the last. -/
def shared (inner : List Bytes) (last : Bytes) : Bytes :=
  match inner.filter (!isBlankLine ·) with
  | [] => common last last
  | line :: rest => (line :: rest).foldl common line

/-- A margin without three blanks at its end, or as many as there are, or else without a tab. -/
def withoutIndent (margin : Bytes) : Bytes :=
  let blanks := min 3 (margin.reverse.takeWhile (· == space)).length
  if blanks = 0 then withoutEnd [tab] margin else margin.take (margin.length - blanks)

/-- The white space before the text of the first line, its mark counted as two blanks unless a tab
follows. -/
def firstIndent (first : Bytes) : Bytes :=
  let blanks := (first.drop 2).takeWhile isInvisible
  if blanks.head? = some tab then blanks else [space, space] ++ blanks

/-- The lines of a comment moved to the left, given the first, those between and the last. A closing
mark that has a line to itself goes below the opening mark. -/
def moved (first : Bytes) (inner : List Bytes) (last : Bytes) : List Bytes :=
  let margin := shared inner last
  let hasStars := margin.contains (ascii '*')
  let margin :=
    if hasStars then withoutEnd [space] (margin.takeWhile (· != ascii '*'))
    else if isBlankLine (first.drop 2) then withoutIndent margin
    else withoutEnd (firstIndent first) margin
  let closesAlone := isBlankLine (last.take (last.length - 2))
  let margin := if closesAlone then margin else common margin last
  let closing :=
    if !closesAlone then last.drop margin.length
    else utf8 (if hasStars then " */" else "*/")
  [first] ++ inner.map (fun line => if isBlankLine line then [] else line.drop margin.length)
    ++ [closing]

/-- The lines of a comment as they are written, before white space at their ends is dropped. Behind
`inset`, all but the first stood further to the right. -/
def standardLines (inset : Bytes) (text : Bytes) : List Bytes :=
  match lines text with
  | first :: second :: rest =>
    let others := (second :: rest).map (inset ++ ·)
    moved first others.dropLast (others.getLast?.getD [])
  | parts => parts

end YaccTables.Code.Margin
