import YaccTables.Code.Doc.Inline
import YaccTables.Code.Lexeme

/-!
# Comments on declarations

A comment that stands directly before a declaration is documentation, and is written again in
standard form: blocks apart by empty lines, code behind a tab, lists behind blanks, definitions of
addresses at the end. Directives for tools come last.
-/

namespace YaccTables.Code.Doc

/-! ## Blocks -/

/-- An item of a list. -/
structure ListItem where
  /-- Empty for a bullet. -/
  number : Bytes
  paragraphs : List Bytes := []

/-- A part of documentation. -/
inductive Block
  | paragraph (text : Bytes)
  | heading (text : Bytes)
  | code (lines : List Bytes)
  /-- A list, and whether empty lines stand before it and between its items. -/
  | list (items : List ListItem) (isApart isLoose : Bool)

/-- Whether an empty line comes before a block that is not the first. -/
def Block.isApart : Block → Bool
  | .list _ isApart isLoose => isApart || isLoose
  | _ => true

/-- A paragraph, or the definitions that its lines are. -/
def paragraph (lines : List Bytes) : Option Bytes × List LinkDef :=
  match lines.mapM linkDef? with
  | some defs => (none, defs)
  | none => (some (joinLines lines), [])

/-- A list as far as it has been read. -/
structure ListState where
  /-- The items, the last first. -/
  items : List ListItem := []
  /-- The lines of the paragraph that has been begun. -/
  lines : List Bytes := []
  isLoose : Bool := false
  defs : List LinkDef := []

/-- Ends the paragraph that has been begun. -/
def ListState.flush (s : ListState) : ListState :=
  match s.items with
  | [] => { s with lines := [] }
  | item :: before =>
    let (text, defs) := paragraph s.lines
    { s with
      items := { item with paragraphs := item.paragraphs ++ text.toList } :: before
      lines := []
      defs := s.defs ++ defs }

/-- Reads a line of a list, whose items are numbered or not. -/
def ListState.next (isNumbered : Bool) (s : ListState) (line : Bytes) : ListState :=
  let (s, line) := match markedItem? line with
    | some (number, rest) =>
      if (!number.isEmpty) == isNumbered then
        let s := s.flush
        ({ s with items := { number } :: s.items }, rest)
      else (s, line)
    | none => (s, line)
  let line := Text.trim line
  if line.isEmpty then { s.flush with isLoose := true }
  else { s with lines := s.lines ++ [line] }

/-- The list that lines make up. -/
def listBlock (lines : List Bytes) (isApart : Bool) : Block × List LinkDef :=
  let number := (((lines.head?.bind markedItem?).map Prod.fst)).getD []
  let s := (lines.foldl (ListState.next (!number.isEmpty)) {}).flush
  let items := s.items.reverse
  let isLoose := s.isLoose || items.any fun item => item.paragraphs.length != 1
  (.list items isApart isLoose, s.defs)

/-- The block of a span, or the definitions in it; `before` is where the span before ended. -/
def blockOf (lines : Array Bytes) (before : Nat) (span : Span) :
    Option Block × List LinkDef :=
  let inside := (lines.extract span.start span.stop).toList
  let first := lineAt lines span.start
  match span.kind with
  | .list =>
    let (block, defs) := listBlock inside (before < span.start)
    (some block, defs)
  | .code => (some (.code (unindent inside)), [])
  | .heading => (some (.heading (Text.trim (first.drop 1))), [])
  | .unmarked => (some (.heading (Text.trim first)), [])
  | .paragraph =>
    let (text, defs) := paragraph inside
    (text.map Block.paragraph, defs)

/-- The blocks of spans and the definitions in them. -/
def blocksOf (lines : Array Bytes) : Nat → List Span → List Block × List LinkDef
  | _, [] => ([], [])
  | before, span :: rest =>
    let (block, defs) := blockOf lines before span
    let (blocks, more) := blocksOf lines span.stop rest
    (block.toList ++ blocks, defs ++ more)

/-! ## Writing -/

/-- A text whose further lines stand behind an indentation. -/
def indentedBy (margin : String) (text : Bytes) : Bytes :=
  text.flatMap fun b => if b = lineFeed then lineFeed :: utf8 margin else [b]

/-- What the further lines of an item stand behind. -/
def itemMargin : String := "    "

/-- The paragraphs of an item. -/
def itemText (defs : List LinkDef) (item : ListItem) : Bytes × List Bytes :=
  let texts := item.paragraphs.map (inlineText defs)
  let written := texts.map fun (text, _) => indentedBy itemMargin text ++ [lineFeed]
  let mark := if item.number.isEmpty then utf8 "  - " else utf8 " " ++ item.number ++ utf8 ". "
  (mark ++ (lineFeed :: utf8 itemMargin).intercalate written, texts.flatMap Prod.snd)

/-- A block as it is written, and the texts that it refers to. -/
def blockText (defs : List LinkDef) : Block → Bytes × List Bytes
  | .paragraph text =>
    let (written, used) := inlineText defs text
    (written ++ [lineFeed], used)
  | .heading text => (utf8 "# " ++ text ++ [lineFeed], [])
  | .code lines =>
    (lines.flatMap fun line => (if line.isEmpty then [] else tab :: line) ++ [lineFeed], [])
  | .list items _ isLoose =>
    let texts := items.map (itemText defs)
    ((if isLoose then [lineFeed] else []).intercalate (texts.map Prod.fst),
      texts.flatMap Prod.snd)

/-- Blocks with empty lines between. -/
def joinBlocks : List (Block × Bytes) → Bytes
  | [] => []
  | (_, first) :: rest =>
    first ++ rest.flatMap fun (block, text) => (if block.isApart then [lineFeed] else []) ++ text

/-- Definitions behind an empty line. -/
def defsText (defs : List LinkDef) : Bytes :=
  if defs.isEmpty then []
  else lineFeed :: defs.flatMap fun d =>
    utf8 "[" ++ d.text ++ utf8 "]: " ++ d.url ++ [lineFeed]

/-- Marks each definition that a reference uses: the first for a text. -/
def markUsed (used : List Bytes) : List Bytes → List LinkDef → List (LinkDef × Bool)
  | _, [] => []
  | seen, d :: rest =>
    (d, used.contains d.text && !seen.contains d.text) :: markUsed used (d.text :: seen) rest

/-- Documentation in standard form. -/
def standardText (text : Bytes) : Bytes :=
  let lines := (unindent (lines text)).toArray
  let (blocks, defs) := blocksOf lines 0 (spans lines)
  let texts := blocks.map (blockText defs)
  let marked := markUsed (texts.flatMap Prod.snd) [] defs
  joinBlocks (blocks.zip (texts.map Prod.fst))
    ++ defsText ((marked.filter Prod.snd).map Prod.fst)
    ++ defsText ((marked.filter (!·.2)).map Prod.fst)

/-! ## Comments -/

/-- A small letter or digit. -/
def isDirectiveByte (b : UInt8) : Bool := isLower b || isDecimal b

/-- Whether the text of a comment, without its mark, is a directive for a tool. -/
def isDirective (text : Bytes) : Bool :=
  let tool := text.takeWhile isDirectiveByte
  ["line ", "extern ", "export "].any (fun word => (utf8 word).isPrefixOf text)
    || (!tool.isEmpty && match text.drop tool.length with
      | colon :: b :: _ => colon == ascii ':' && isDirectiveByte b
      | _ => false)

/-- Whether each line of a comment but the first begins with a star. -/
def hasStars (text : Bytes) : Bool :=
  (lines text).tail.all fun line => (line.drop (leadingSpace line).length).head? == some (ascii '*')

/-- The lines of a comment on a declaration, each without its mark. -/
def lineTexts? (comments : CommentGroup) : Option (List Bytes) :=
  comments.mapM fun c => if c.isBlock then none else some (c.text.drop 2)

/-- A line of documentation behind its mark. -/
def docLine (line : Bytes) : Bytes :=
  if line.isEmpty then utf8 "//"
  else if line.head? = some tab then utf8 "//" ++ line
  else utf8 "// " ++ line

/-- The lines of a text, of which the last may lack its line feed. -/
def endedLines (text : Bytes) : List Bytes :=
  let parts := lines text
  if parts.getLast? == some [] then parts.dropLast else parts

/-- The comments that documentation in lines is written as. -/
def standardLines (texts : List Bytes) : Option (List Bytes) :=
  let directives := texts.filter isDirective
  let plain := (texts.filter (!isDirective ·)).map (withoutStart [space])
  if plain.isEmpty then none
  else
    let written := standardText (plain.flatMap (· ++ [lineFeed]))
    let docLines := (endedLines written).map docLine
    some (docLines ++ (if directives.isEmpty then [] else utf8 "//" :: directives.map
      (utf8 "//" ++ ·)))

/-- Comments on a declaration in standard form. -/
def standard (comments : CommentGroup) : CommentGroup :=
  let start := comments.start
  match comments with
  | [c] =>
    if c.isBlock then
      if !c.text.contains lineFeed || hasStars c.text then comments
      else
        let inside := (c.text.drop 2).dropLast.dropLast
        [⟨start, utf8 "/*\n" ++ standardText inside ++ utf8 "*/"⟩]
    else many start comments
  | _ => many start comments
where
  /-- Comments of one line each, in standard form. -/
  many (start : Pos) (comments : CommentGroup) : CommentGroup :=
    match (lineTexts? comments).bind standardLines with
    | some texts => texts.map fun text => ⟨start, text⟩
    | none => comments

end YaccTables.Code.Doc
