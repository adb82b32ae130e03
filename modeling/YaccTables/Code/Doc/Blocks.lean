import YaccTables.Text.Capital
import YaccTables.Text.Letter
import YaccTables.Text.Trim

/-!
# Blocks of documentation

The text of a comment on a declaration consists of paragraphs, headings, lists and indented code.
Lines are told apart by their indentation, by marks at their start and by the empty lines around
them.
-/

namespace YaccTables.Code.Doc

/-! ## Lines -/

/-- The tabs and blanks that a line begins with. -/
def leadingSpace (line : Bytes) : Bytes := line.takeWhile fun b => b == space || b == tab

/-- Whether a line begins with a tab or blank. -/
def isIndented (line : Bytes) : Bool := !(leadingSpace line).isEmpty

/-- What two texts begin with in common. -/
def commonStart : Bytes → Bytes → Bytes
  | a :: as, b :: bs => if a = b then a :: commonStart as bs else []
  | _, _ => []

/-- Lines without the empty ones at both ends. -/
def trimLines (lines : List Bytes) : List Bytes :=
  ((lines.dropWhile List.isEmpty).reverse.dropWhile List.isEmpty).reverse

/-- A text without a beginning, if it begins so. -/
def withoutStart (start text : Bytes) : Bytes :=
  if start.isPrefixOf text then text.drop start.length else text

/-- Lines without the indentation that they have in common. Lines of white space become empty, and
empty lines at both ends are dropped. -/
def unindent (lines : List Bytes) : List Bytes :=
  match trimLines lines with
  | [] => []
  | first :: rest =>
    let margin := (rest.filter (!·.isEmpty)).foldl
      (fun margin line => commonStart margin (leadingSpace line)) (leadingSpace first)
    trimLines ((first :: rest).map fun line =>
      let line := withoutStart margin line
      if (Text.trim line).isEmpty then [] else line)

/-! ## Marks -/

/-- The bullet, which marks an item of a list. -/
def bullet : Bytes := utf8 "•"

/-- The number of an item, empty for a bullet, and the text after the mark. -/
def markedItem? (line : Bytes) : Option (Bytes × Bytes) :=
  let line := Text.trim line
  let digits := line.takeWhile isDecimal
  let found? : Option (Bytes × Bytes) :=
    if bullet.isPrefixOf line then some ([], line.drop bullet.length)
    else match line with
      | [] => none
      | b :: rest =>
        if b = ascii '*' ∨ b = ascii '+' ∨ b = ascii '-' then some ([], rest)
        else match digits, line.drop digits.length with
          | _ :: _, mark :: rest =>
            if mark = ascii '.' ∨ mark = ascii ')' then some (digits, rest) else none
          | _, _ => none
  found?.filter fun (_, rest) => isIndented rest && !(Text.trim rest).isEmpty

/-- Whether a line is the first of an item of a list. -/
def isItem (line : Bytes) : Bool := (markedItem? line).isSome

/-- Whether a line is marked as a heading. -/
def isHeading (line : Bytes) : Bool :=
  line.head? == some (ascii '#') && isIndented (line.drop 1) && Text.trim line != utf8 "#"

/-- Whether each apostrophe of a text belongs to a possessive `'s`. -/
def hasSoundApostrophes : Bytes → Bool
  | [] => true
  | b :: rest =>
    (b != ascii '\'' || rest == utf8 "s" || (utf8 "s ").isPrefixOf rest) && hasSoundApostrophes rest

/-- Whether each full stop of a text has something other than a blank behind it. -/
def hasInnerStops : Bytes → Bool
  | [] => true
  | b :: rest =>
    (b != ascii '.' || (!rest.isEmpty && rest.head? != some space)) && hasInnerStops rest

/-- Characters that no unmarked heading has. -/
def unfitForHeading : String := ";:!?+*/=[]\x7b\x7d_^°&§~%#@<\">\\"

/-- Whether a piece of text does not fit into an unmarked heading. -/
def isUnfit : Text.Piece → Bool
  | .scalar c => unfitForHeading.toList.contains c
  | .stray _ => false

/-- Whether a line looks like a heading by itself: it begins with a capital and is no sentence. -/
def looksLikeHeading (line : Bytes) : Bool :=
  let line := Text.trim line
  let pieces := Text.pieces line
  let begins := match pieces.head? with
    | some (.scalar c) => Text.isLetter c.toNat && Text.isCapital c.toNat
    | _ => false
  let ends := match pieces.getLast? with
    | some (.scalar c) => Text.isLetter c.toNat || Text.isDigit c.toNat
    | _ => false
  begins && ends && !pieces.any isUnfit && hasSoundApostrophes line && hasInnerStops line

/-! ## Spans -/

/-- What lines in sequence are. -/
inductive SpanKind
  | list
  | code
  | heading
  /-- A heading without a mark. -/
  | unmarked
  | paragraph
  deriving DecidableEq, Repr

/-- Lines in sequence, from `start` to before `stop`. -/
structure Span where
  start : Nat
  stop : Nat
  kind : SpanKind
  deriving DecidableEq, Repr

/-- The lines of a text, empty from the end on. -/
def lineAt (lines : Array Bytes) (i : Nat) : Bytes := lines[i]?.getD []

/-- The first number from `i` on, before `limit`, that does not satisfy a condition. -/
def firstNot (p : Nat → Bool) (limit i : Nat) : Nat := go p limit (limit - i) i
where
  /-- The search, at most so many steps. -/
  go (p : Nat → Bool) (limit : Nat) : Nat → Nat → Nat
    | 0, i => i
    | fuel + 1, i => if i < limit && p i then go p limit fuel (i + 1) else i

/-- The last number down to `least` before which a condition fails. -/
def lastNot (p : Nat → Bool) (least : Nat) : Nat → Nat
  | 0 => 0
  | i + 1 => if least < i + 1 && p i then lastNot p least i else i + 1

/-- The line after indented text: the first that is neither empty nor indented, unless it comes
before `forced`. As long as `items` holds and no empty line comes, items of a list go on too. -/
def indentedStop (lines : Array Bytes) (forced : Nat) : Nat → Bool → Nat → Nat
  | 0, _, i => i
  | fuel + 1, items, i =>
    let line := lineAt lines i
    if i < lines.size &&
      (line.isEmpty || decide (i < forced) || isIndented line || (items && isItem line)) then
      indentedStop lines forced fuel (items && !line.isEmpty) (i + 1)
    else i

/-- The span of indented text that starts at a line. A brace that closes it without indentation
belongs to it. -/
def indentedSpan (lines : Array Bytes) (forced start : Nat) : Span :=
  let first := lineAt lines start
  let i := indentedStop lines forced lines.size (isItem first && decide (start < forced))
    (start + 1)
  let stop := lastNot (fun j => (lineAt lines j).isEmpty) start i
  let stop := if (utf8 "\x7d").isPrefixOf (lineAt lines stop) then stop + 1 else stop
  { start, stop, kind := if isItem first then .list else .code }

/-- Whether a line opens a block that is indented below it. -/
def opensBlock (line : Bytes) : Bool :=
  line.getLast? == some (ascii '\x7b') || line.getLast? == some (ascii '\\')

/-- Where text that starts at a line and goes on to `stop` gives lines to the indented text that
follows it: the new end, and the line before which all counts as indented. -/
def yielded (lines : Array Bytes) (start stop : Nat) : Option (Nat × Nat) :=
  let next := lineAt lines stop
  let last := lineAt lines (stop - 1)
  if next.isEmpty || isItem next then none
  else if isItem last then
    some (lastNot (fun j => isItem (lineAt lines j)) start (stop - 1), stop)
  else if opensBlock last then some (stop - 1, stop)
  else none

/-- What text without indentation is. A single line with empty lines around it may be a heading. -/
def plainKind (lines : Array Bytes) (start stop : Nat) : SpanKind :=
  let line := lineAt lines start
  if stop ≠ start + 1 then .paragraph
  else if isHeading line then .heading
  else if 0 < start && (lineAt lines (start - 1)).isEmpty && decide (start + 2 < lines.size)
      && (lineAt lines (start + 1)).isEmpty && !isIndented (lineAt lines (start + 2))
      && looksLikeHeading line then .unmarked
  else .paragraph

/-- The spans from a line on; lines before `forced` count as indented. -/
def spansFrom (lines : Array Bytes) : Nat → Nat → Nat → List Span
  | 0, _, _ => []
  | fuel + 1, forced, i =>
    let start := firstNot (fun j => (lineAt lines j).isEmpty) lines.size i
    let first := lineAt lines start
    if lines.size ≤ start then []
    else if start < forced || isIndented first then
      let span := indentedSpan lines forced start
      span :: spansFrom lines fuel forced span.stop
    else
      let i := firstNot (fun j => !(lineAt lines j).isEmpty && !isIndented (lineAt lines j))
        lines.size (start + 1)
      let (stop, forced) := (yielded lines start i).getD (i, forced)
      if stop = start then spansFrom lines fuel forced start
      else
        { start, stop, kind := plainKind lines start stop } :: spansFrom lines fuel forced stop

/-- The spans of a text. Each line starts at most two of them. -/
def spans (lines : Array Bytes) : List Span := spansFrom lines (2 * lines.size + 1) 0 0

end YaccTables.Code.Doc
