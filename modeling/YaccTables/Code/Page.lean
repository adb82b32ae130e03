import YaccTables.Code.Constraint
import YaccTables.Code.Doc.Comment
import YaccTables.Code.Lines
import YaccTables.Code.Margin
import YaccTables.Code.Sheet

/-!
# Writing a page

Words are written to a page one by one. The white space between them is held back until the next
word, so that the comments before that word can be fitted in: where a comment stood in the file
decides on which line it goes, and which of the white space goes before it.
-/

namespace YaccTables.Code

/-- White space between words, and changes of the indentation. -/
inductive Gap
  | none
  | blank
  /-- The end of a cell. -/
  | cell
  | newline
  /-- The end of a line and of its columns. -/
  | section
  | indent
  | unindent
  deriving DecidableEq, Repr

/-- Whether a gap ends a line. -/
def Gap.isBreak : Gap → Bool
  | newline | .section => true
  | _ => false

/-- At most this many line ends follow each other. -/
def maxLineEnds : Int := 2

/-- An offset, line or size beyond all others. -/
def farAway : Int := 1073741824

/-- At most this many gaps are held back. -/
def maxGaps : Nat := 16

/-- What has been written, and what is still to come. -/
structure Page where
  lines : LineTable
  /-- The indentation of the whole page. -/
  baseIndent : Int := 0
  /-- Whether numbers are written in standard form. -/
  hasStandardNumbers : Bool := true
  /-- Whether comments are taken from the syntax and not from the file. -/
  takesComments : Bool := false
  /-- Whether only the size of a part is asked for, which has none once it takes several lines. -/
  isTrial : Bool := false
  /-- The sheet, the last byte first. -/
  sheet : Bytes := []
  indent : Int := 0
  /-- How deep in composite literals the next word is. -/
  level : Nat := 0
  /-- Whether no blank goes between a comment and the next word. -/
  omitsBlank : Bool := false
  /-- Whether no line end goes between a comment and the next word. -/
  omitsBreak : Bool := false
  /-- Whether the columns have ended on this line. -/
  isBroken : Bool := false
  /-- Whether the end of the line would end a statement. -/
  endsStmt : Bool := false
  /-- The last word, if no white space follows it. -/
  lastWord : Option Kind := none
  /-- The opening bracket before the last word. -/
  lastOpening : Option Kind := none
  gaps : List Gap := []
  /-- Where comments with build constraints begin: with expressions, and in the older form. -/
  expressions : Array Nat := #[]
  alternatives : Array Nat := #[]
  /-- The place in the file. -/
  pos : Place := { line := 1, column := 1 }
  /-- The place on the page. -/
  out : Place := { line := 1, column := 1 }
  /-- The place in the file after the last text. -/
  last : Place := {}
  /-- Which of the lines to keep is that of the next word. -/
  slot : Option Nat := none
  /-- Lines on the page that were kept. -/
  kept : Array Int := #[]
  /-- The comments to come. -/
  comments : List CommentGroup := []

/-- The line and column of a place in the file. -/
def Page.place (p : Page) (pos : Pos) : Place := p.lines.place pos

/-- The line of a place in the file. -/
def Page.line (p : Page) (pos : Pos) : Int := p.lines.line pos

/-- Whether a place is one. -/
def Place.isSome (p : Place) : Bool := 0 < p.line

namespace Page

/-! ## Bytes and text -/

/-- Writes the indentation of a line. -/
def putIndent (p : Page) : Page :=
  let n := p.baseIndent + p.indent
  { p with
    sheet := List.replicate n.toNat tab ++ p.sheet
    pos := { p.pos with offset := p.pos.offset + n, column := p.pos.column + n }
    out := { p.out with column := p.out.column + n } }

/-- Writes the indentation if a line starts here. -/
def startLine (p : Page) : Page := if p.out.column = 1 then p.putIndent else p

/-- The byte that is written for one of white space. Where columns have ended, cells are not ended,
and the end of the line ends the columns for good. -/
def effective (p : Page) (b : UInt8) : UInt8 :=
  if !p.isBroken then b
  else if b = tab ∨ b = Sheet.softTab then space
  else if Sheet.isLineEnd b then Sheet.formFeed
  else b

/-- Writes white space. -/
def put (p : Page) (b : UInt8) (count : Nat) : Page :=
  let b' := p.effective b
  let p := { p with isBroken := p.isBroken && !Sheet.isLineEnd b }.startLine
  let n : Int := count
  let p := { p with sheet := List.replicate count b' ++ p.sheet }
  if Sheet.isLineEnd b' then
    { p with
      pos := { offset := p.pos.offset + n, line := p.pos.line + n, column := 1 }
      out := { p.out with line := p.out.line + n, column := 1 } }
  else
    { p with
      pos := { p.pos with offset := p.pos.offset + n, column := p.pos.column + n }
      out := { p.out with column := p.out.column + n } }

/-- The place behind a text that was written at a place. -/
def moveOver (text : Bytes) (p : Place) : Place :=
  let breaks : Int := text.countP Sheet.isLineEnd
  let length : Int := text.length
  let tail : Int := (text.reverse.takeWhile (!Sheet.isLineEnd ·)).length
  { offset := p.offset + length
    line := p.line + breaks
    column := if breaks = 0 then p.column + length else tail + 1 }

/-- Writes a text that stands at a place of the file. -/
def putText (p : Page) (at' : Place) (text : Bytes) (isLiteral : Bool) : Page :=
  let p := p.startLine
  let pos := moveOver text (if at'.isSome then at' else p.pos)
  let sheet := if isLiteral then
      Sheet.literalMark :: (text.reverse ++ Sheet.literalMark :: p.sheet)
    else text.reverse ++ p.sheet
  { p with
    sheet
    isBroken := p.isBroken || text.any Sheet.isLineEnd
    pos
    out := { moveOver text p.out with offset := 0 }
    last := pos }

/-! ## Gaps -/

/-- Writes gaps. A line end before a smaller indentation comes after it, so that labels stand
further to the left. -/
def putGaps : Nat → List Gap → Page → Page
  | 0, _, p => p
  | _, [], p => p
  | fuel + 1, gap :: rest, p =>
    match gap with
    | .none => putGaps fuel rest p
    | .indent => putGaps fuel rest { p with indent := p.indent + 1 }
    | .unindent => putGaps fuel rest { p with indent := max 0 (p.indent - 1) }
    | .blank => putGaps fuel rest (p.put space 1)
    | .cell => putGaps fuel rest (p.put Sheet.softTab 1)
    | .newline | .section =>
      match rest with
      | .unindent :: rest =>
        putGaps fuel (.section :: rest) { p with indent := max 0 (p.indent - 1) }
      | _ => putGaps fuel rest
          (p.put (if gap = .newline then lineFeed else Sheet.formFeed) 1)

/-- Writes the first gaps that are held back. -/
def flushGaps (p : Page) (count : Nat) : Page :=
  putGaps (count + 1) (p.gaps.take count) { p with gaps := p.gaps.drop count }

/-- Writes all gaps that are held back. -/
def flushAllGaps (p : Page) : Page := p.flushGaps p.gaps.length

/-! ## Comments -/

/-- Whether a group of comments takes several lines, or ends its line. -/
def hasLineEnd (p : Page) (g : CommentGroup) : Bool :=
  g.any fun c => !c.isBlock || c.text.contains lineFeed || p.line c.start != p.line g.start

/-- Whether comments come before a place, and writing them does not end a statement too early. -/
def hasComment (p : Page) (next : Place) : Bool :=
  match p.comments with
  | [] => false
  | g :: _ => decide ((g.start : Int) - 1 < next.offset) && (!p.endsStmt || !p.hasLineEnd g)

/-- How gaps are taken before a comment: what is left of them, how many go before the comment, and
whether they hold the end of a cell or a line. -/
structure GapSplit where
  gaps : List Gap
  count : Nat := 0
  hasCell : Bool := false
  hasBreak : Bool := false

/-- The gaps before a comment on the line of the last word: blanks are dropped. -/
def splitSameLine : Nat → Bool → List Gap → GapSplit
  | _, hasCell, [] => { gaps := [], hasCell }
  | i, hasCell, gap :: rest =>
    let go (gap : Gap) (hasCell : Bool) : GapSplit :=
      let s := splitSameLine (i + 1) hasCell rest
      { s with gaps := gap :: s.gaps }
    match gap with
    | .blank => go .none hasCell
    | .cell => go .cell true
    | .indent => go .indent hasCell
    | _ => { gaps := gap :: rest, count := i, hasCell }

/-- The gaps before a comment on another line: blanks and a line end are dropped. The last of
several smaller indentations stays behind the comment, unless `joinsNext` says that the comment
stands with the next word. -/
def splitOtherLine (joinsNext : Bool) : Nat → List Gap → GapSplit
  | _, [] => { gaps := [] }
  | i, gap :: rest =>
    let go (gap : Gap) : GapSplit :=
      let s := splitOtherLine joinsNext (i + 1) rest
      { s with gaps := gap :: s.gaps }
    match gap with
    | .blank | .cell => go .none
    | .indent => go .indent
    | .unindent =>
      if rest.head? = some .unindent || joinsNext then go .unindent
      else { gaps := gap :: rest, count := i }
    | .newline | .section => { gaps := .none :: rest, count := i, hasBreak := true }
    | .none => { gaps := gap :: rest, count := i }

/-- Writes what goes between the last word and a comment on the same line. -/
def beforeSameLine (p : Page) (pos next : Place) (isFirst : Bool) : Page :=
  let (p, hasCell) :=
    if isFirst then
      let s := splitSameLine 0 false p.gaps
      ({ p with gaps := s.gaps }.flushGaps s.count, s.hasCell)
    else (p, false)
  if hasCell then p else p.put (if pos.line = next.line then space else tab) 1

/-- Writes what goes between the last word and a comment on another line. -/
def beforeOtherLine (p : Page) (pos next : Place) (before : Option Comment) (word : Option Kind) :
    Page :=
  let joinsNext := word != some (.sign "\x7d") && decide (pos.column = next.column)
  let s := splitOtherLine joinsNext 0 p.gaps
  let p := { p with gaps := s.gaps }.flushGaps s.count
  let n := if pos.isSome && p.last.isSome then max 0 (pos.line - p.last.line) else 0
  let n := if p.indent = 0 && s.hasBreak && before.isNone then n + 1 else n
  let followsLine := match before with
    | some c => !c.isBlock
    | none => false
  let n := if n = 0 && followsLine then 1 else n
  if 0 < n then p.put Sheet.formFeed (min n maxLineEnds).toNat else p

/-- Writes what goes before a comment, given the comment before it. -/
def beforeComment (p : Page) (pos next : Place) (before : Option Comment) (word : Option Kind) :
    Page :=
  let follows := match before with
    | some c => c.isBlock
    | none => true
  if p.sheet.isEmpty then p
  else if pos.line = p.last.line && follows then p.beforeSameLine pos next before.isNone
  else p.beforeOtherLine pos next before word

/-- Writes the lines of a comment between marks. -/
def putCommentLines (p : Page) (pos : Place) : List Bytes → Page
  | [] => p
  | first :: rest =>
    let text (p : Page) (pos : Place) (line : Bytes) : Page :=
      if line.isEmpty then p else p.putText pos (Text.trimEnd line) true
    rest.foldl (fun p line =>
      let p := p.put Sheet.formFeed 1
      text p p.pos line) (text p pos first)

/-- Notes where a comment with a build constraint begins. -/
def noteConstraint (p : Page) (text : Bytes) : Page :=
  if (Constraint.expressionText? text).isSome then
    { p with expressions := p.expressions.push p.sheet.length }
  else if (Constraint.alternativesText? text).isSome then
    { p with alternatives := p.alternatives.push p.sheet.length }
  else p

/-- Writes a comment. A line directive stays at the start of its line. -/
def putComment (p : Page) (c : Comment) : Page :=
  let pos := p.place c.start
  if c.isBlock then
    let inset := if pos.column = 1 && 0 < p.indent then utf8 "   " else []
    p.putCommentLines pos (Margin.standardLines inset c.text)
  else
    let p' := p.noteConstraint c.text
    let isDirective := (utf8 "//line ").isPrefixOf c.text && (!pos.isSome || pos.column == 1)
    let p' := if isDirective then { p' with indent := 0 } else p'
    { p'.putText pos (Text.trimEnd c.text) true with indent := p.indent }

/-- What follows comments: whether a line end was written, and whether one that ends columns was
dropped. -/
structure After where
  page : Page
  wroteBreak : Bool := false
  droppedSection : Bool := false

/-- The gaps behind comments: blanks are dropped, and all line ends but one if that is needed. -/
def settleGaps : Bool → List Gap → List Gap × Bool × Bool × Bool
  | needsBreak, [] => ([], needsBreak, false, false)
  | needsBreak, gap :: rest =>
    let gap' := match gap with
      | .blank | .cell => Gap.none
      | .newline | .section => if needsBreak then gap else .none
      | _ => gap
    let (gaps, needs, wrote, dropped) := settleGaps (needsBreak && !gap.isBreak) rest
    (gap' :: gaps, needs, wrote || (needsBreak && gap.isBreak),
      dropped || (!needsBreak && gap == .section))

/-- Writes what goes behind comments. -/
def afterComments (p : Page) (needsBreak : Bool) : After :=
  let (gaps, needs, wrote, dropped) := settleGaps needsBreak p.gaps
  let p := { p with gaps }.flushAllGaps
  if needs then { page := p.put lineFeed 1, wroteBreak := true, droppedSection := dropped }
  else { page := p, wroteBreak := wrote, droppedSection := dropped }

/-- Comments of a group one after the other, and the last of them. -/
def putComments (next : Place) (word : Option Kind) :
    Page → Option Comment → CommentGroup → Page × Option Comment
  | p, before, [] => (p, before)
  | p, before, c :: rest =>
    putComments next word ((p.beforeComment (p.place c.start) next before word).putComment c)
      (some c) rest

/-- Whether a group stands directly before the next word and documents it. -/
def documents (p : Page) (g : CommentGroup) (next : Place) : Bool :=
  p.lastWord != some (.keyword "import") && (p.place g.start).column == 1
    && p.place (g.stop + 1) == next

/-- Writes groups of comments before a place, and tells the last comment. If documentation turns out
to be empty, nothing more is to be told. -/
def putGroups (next : Place) (word : Option Kind) :
    List CommentGroup → Option Comment → Page → Page × Option Comment × Bool
  | [], before, p => (p, before, false)
  | g :: rest, before, p =>
    if !p.hasComment next then (p, before, false)
    else if !p.documents g next then
      let (p, before) := putComments next word p before g
      putGroups next word rest before { p with comments := rest }
    else
      match Doc.standard g with
      | [] =>
        let p := p.beforeComment (p.place g.start) next before word
        ({ p with pos := next, last := next, comments := rest }, before, true)
      | standard =>
        let (p, _) := putComments next word p before standard
        let pos := p.place g.stop
        putGroups next word rest g.getLast? { p with comments := rest, pos, last := pos }

/-- Whether gaps hold a line end. -/
def hasBreak (p : Page) : Bool := p.gaps.any Gap.isBreak

/-- Whether a blank or a line end goes between a comment and a word on the same line. -/
def isSetOff (p : Page) (word : Option Kind) : Bool :=
  !p.omitsBlank && word != some (.sign ",")
    && (word != some (.sign ")") || p.lastOpening == some (.sign "("))
    && (word != some (.sign "]") || p.lastOpening == some (.sign "["))

/-- Writes the comments before a place and the gaps around them. -/
def intersperse (p : Page) (next : Place) (word : Option Kind) : After :=
  let (p, last, isEmpty) := putGroups next word p.comments none p
  if isEmpty then p.afterComments false
  else match last with
    | none => { page := p }
    | some c =>
      let isNear := c.isBlock && p.line c.start == next.line && p.isSetOff word
      let breaks := p.hasBreak && !p.omitsBreak && p.level == 0
      let p := if isNear && !breaks then p.put space 1 else p
      p.afterComments ((isNear && breaks) || !c.isBlock || word == some .finish
        || (word == some (.sign "\x7d") && !p.omitsBreak))

/-- Writes what comes before a place: comments and gaps. -/
def flush (p : Page) (next : Place) (word : Option Kind) : After :=
  if p.hasComment next then p.intersperse next word else { page := p.flushAllGaps }

/-! ## Words -/

/-- Notes the bracket before the last word. -/
def noteOpening (p : Page) : Page :=
  match p.lastWord with
  | none => p
  | some (.sign "(") => { p with lastOpening := p.lastWord }
  | some (.sign "[") => { p with lastOpening := p.lastWord }
  | some _ => { p with lastOpening := none }

/-- Holds back a gap. -/
def gap (p : Page) (g : Gap) : Page :=
  let p := p.noteOpening
  if g = .none then p
  else
    let p := if p.gaps.length = maxGaps then p.flushAllGaps else p
    { p with
      gaps := p.gaps ++ [g]
      endsStmt := p.endsStmt && !g.isBreak
      lastWord := none }

/-- Whether two words would become another one without a blank between. -/
def combines (before : Option Kind) (first : Option UInt8) : Bool :=
  match before, first with
  | some .integer, some b => b == ascii '.'
  | some (.sign "+"), some b => b == ascii '+'
  | some (.sign "-"), some b => b == ascii '-'
  | some (.sign "/"), some b => b == ascii '*'
  | some (.sign "<"), some b => b == ascii '-' || b == ascii '<'
  | some (.sign "&"), some b => b == ascii '&' || b == ascii '^'
  | _, _ => false

/-- Writes a word behind the gaps and comments before it. Line ends of the file that come after
comments are kept. -/
def putWord (p : Page) (kind : Kind) (text : Bytes) (isLiteral : Bool) : Page :=
  let next := p.pos
  let after := { p with lastWord := some kind }.flush next (some kind)
  let p := after.page
  let n := if p.endsStmt then 0 else min (next.line - p.pos.line) maxLineEnds
  let n := if after.wroteBreak && n = maxLineEnds then n - 1 else n
  let breaks : Bool := 0 < n
  let p := if breaks then
      p.put (if after.droppedSection then Sheet.formFeed else lineFeed) n.toNat
    else p
  let p := match p.slot with
    | some i => { p with kept := p.kept.setIfInBounds i p.out.line, slot := none }
    | none => p
  { p.putText next text isLiteral with endsStmt := kind.mayEnd && !breaks }

/-- Writes a name. -/
def name (p : Page) (text : Bytes) : Page := p.noteOpening.putWord .name text false

/-- Writes a literal. -/
def literal (p : Page) (kind : Kind) (text : Bytes) : Page := p.noteOpening.putWord kind text true

/-- Writes a sign or keyword. -/
def sign (p : Page) (kind : Kind) (text : String) : Page :=
  let text := utf8 text
  let p := p.noteOpening
  let p := if combines p.lastWord text.head? then { p with gaps := [.blank] } else p
  p.putWord kind text false

/-- Goes to a place in the file, where the next word stands. -/
def goto (p : Page) (pos : Pos) : Page := if pos = 0 then p else { p with pos := p.place pos }

/-- Ends the page: all comments that are left are written. -/
def finish (p : Page) : Page :=
  ({ p with endsStmt := false }.flush { offset := farAway, line := farAway } (some .finish)).page

/-- Takes up comments from the syntax, if the page does so. -/
def takeComments (p : Page) (comments : Option CommentGroup) : Page :=
  match comments with
  | none => p
  | some g =>
    if !p.takesComments then p
    else
      let p := if p.comments.length < 2 then p else (p.flush (p.place g.start) none).page
      { p with comments := p.comments.take 1 ++ [g] }

end Page

end YaccTables.Code
