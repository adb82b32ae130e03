import YaccTables.Bytes

/-!
# Columns

What is written is first put on a sheet: text in which tabs end cells and literal parts stand
between marks. Cells under each other in lines that follow each other form a column, and are filled
up to the same width. A form feed ends a line like a line feed does, but columns do not go on below
it.
-/

namespace YaccTables.Code.Sheet

/-- The mark around literal parts, a byte that no text contains. -/
def literalMark : UInt8 := 0xff

/-- The form feed, which ends a line and all columns. -/
def formFeed : UInt8 := 12

/-- The vertical tab, which ends a cell. A column that only has empty cells of this sort has no
width. -/
def softTab : UInt8 := 11

/-- Whether a byte ends a line. -/
def isLineEnd (b : UInt8) : Bool := b == lineFeed || b == formFeed

/-- The width of a tab. -/
def tabWidth : Nat := 8

/-! ## Cells -/

/-- A cell: its text with marks, and how many characters it shows. -/
structure Cell where
  text : Bytes := []
  width : Nat := 0
  /-- Whether it was ended by a tab that keeps its column. -/
  isHard : Bool := false
  deriving Inhabited

/-- The cells of a line. -/
abbrev Row := List Cell

/-- A sheet as far as it has been read. What was read last comes first. -/
structure State where
  isLiteral : Bool := false
  /-- The text of the cell, and how many characters it shows. -/
  text : Bytes := []
  width : Nat := 0
  /-- The cells before in the line. -/
  row : List Cell := []
  /-- The lines before in the section. -/
  rows : List Row := []
  /-- The sections before. -/
  sections : List (List Row) := []

namespace State

/-- Adds a byte to the cell. -/
def extend (s : State) (b : UInt8) : State :=
  let shows := b != literalMark && !(0x80 ≤ b && b < 0xc0)
  { s with text := b :: s.text, width := s.width + if shows then 1 else 0 }

/-- Ends the cell. -/
def endCell (s : State) (isHard : Bool) : State :=
  { s with row := ⟨s.text.reverse, s.width, isHard⟩ :: s.row, text := [], width := 0 }

/-- Ends the line. -/
def endRow (s : State) : State := { s with rows := s.row.reverse :: s.rows, row := [] }

/-- Ends the section. -/
def endSection (s : State) : State :=
  { s with sections := s.rows.reverse :: s.sections, rows := [] }

/-- Reads a byte. -/
def next (s : State) (b : UInt8) : State :=
  if b = literalMark then { s.extend b with isLiteral := !s.isLiteral }
  else if s.isLiteral then s.extend b
  else if b = tab ∨ b = softTab then s.endCell (b = tab)
  else if b = lineFeed then (s.endCell false).endRow
  else if b = formFeed then (s.endCell false).endRow.endSection
  else s.extend b

end State

/-- The sections of a sheet. The last line has no line end. -/
def sections (sheet : Bytes) : List (List Row) :=
  let s := sheet.foldl State.next {}
  let s := if s.text.isEmpty then s else s.endCell false
  s.endRow.endSection.sections.reverse

/-! ## Widths -/

/-- Whether a line has a further cell in a column, the last of the line apart. -/
def hasColumn (row : Row) : Bool :=
  match row with
  | _ :: _ :: _ => true
  | _ => false

/-- The width of a column: one more than the widest cell, or nothing for empty cells that need not
be kept. -/
def columnWidth (cells : List Cell) : Nat :=
  if cells.all fun c => c.width == 0 && !c.isHard then 0
  else (cells.map fun c => c.width + 1).foldl max 0

/-- The widths of the columns in each line, at most so many. -/
def widths : Nat → List Row → List (List Nat)
  | 0, rows => rows.map fun _ => []
  | fuel + 1, rows =>
    (rows.splitBy fun a b => hasColumn a == hasColumn b).flatMap fun run =>
      if (run.head?.map hasColumn).getD false then
        let width := columnWidth (run.filterMap List.head?)
        (widths fuel (run.map List.tail)).map (width :: ·)
      else run.map fun _ => []

/-! ## Lines -/

/-- The number of tabs that reach a width. -/
def tabsFor (width : Nat) : Nat := (width + tabWidth - 1) / tabWidth

/-- The cells of a line, filled up. Empty cells at the start of the line are filled with tabs. -/
def rowText : Bool → Row → List Nat → Bytes
  | _, [], _ => []
  | _, cells, [] => cells.flatMap Cell.text
  | atStart, c :: cells, width :: widths =>
    if c.text.isEmpty then
      (if atStart then List.replicate (tabsFor width) tab else List.replicate width space)
        ++ rowText atStart cells widths
    else c.text ++ List.replicate (width - c.width) space ++ rowText false cells widths

/-- The lines of a section with their columns. -/
def sectionLines (rows : List Row) : List Bytes :=
  List.zipWith (rowText true) rows (widths ((rows.map List.length).foldl max 0) rows)

/-- A sheet with its cells filled up. -/
def filled (sheet : Bytes) : Bytes := joinLines ((sections sheet).flatMap sectionLines)

/-! ## Blanks at the ends of lines -/

/-- Where in a text a byte stands. -/
inductive Part
  | blank
  | literal
  | plain
  deriving DecidableEq

/-- A text as far as it has been trimmed. What was read last comes first. -/
structure TrimState where
  part : Part := .blank
  /-- Blanks that are written only if something follows. -/
  pending : Bytes := []
  written : Bytes := []

/-- Reads a byte that stands in no literal part. -/
def TrimState.nextPlain (s : TrimState) (b : UInt8) : TrimState :=
  if b = tab ∨ b = softTab ∨ b = space then
    { s with part := .blank, pending := (if b = softTab then tab else b) :: s.pending }
  else if isLineEnd b then
    { part := .blank, pending := [], written := lineFeed :: s.written }
  else if b = literalMark then
    { part := .literal, pending := [], written := s.pending ++ s.written }
  else { part := .plain, pending := [], written := b :: (s.pending ++ s.written) }

/-- Reads a byte. -/
def TrimState.next (s : TrimState) (b : UInt8) : TrimState :=
  if s.part = .literal then
    if b = literalMark then { s with part := .blank }
    else { s with written := b :: s.written }
  else s.nextPlain b

/-- A text without marks, and without the blanks at the ends of its lines that are not literal. -/
def trimmed (text : Bytes) : Bytes := (text.foldl TrimState.next {}).written.reverse

/-- The text on a sheet, in columns. -/
def render (sheet : Bytes) : Bytes := trimmed (filled sheet)

end YaccTables.Code.Sheet
