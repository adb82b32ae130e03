import YaccTables.Code.Directive
import YaccTables.Code.Lines
import YaccTables.Code.Literal
import YaccTables.Text.Letter
import YaccTables.Text.Utf8

/-!
# Reading the words of a file

`items?` splits a file into words and comments. It fails if some part of the file is neither, or if
a literal, a comment or a line directive is not well-formed.
-/

namespace YaccTables.Code

/-! ## Text of a file -/

/-- Whether a text may stand in a file: it is UTF-8, without NUL and byte order marks. -/
def isSourceText : Bytes → Bool
  | [] => true
  | a :: rest =>
    if a < 0x80 then a != 0 && isSourceText rest
    else match rest with
      | [] => false
      | b :: rest₁ =>
        if Text.isPair a b then isSourceText rest₁
        else match rest₁ with
          | [] => false
          | c :: rest₂ =>
            if Text.isTriple a b c then
              !(a == 0xef && b == 0xbb && c == 0xbf) && isSourceText rest₂
            else match rest₂ with
              | [] => false
              | d :: rest₃ => Text.isQuadruple a b c d && isSourceText rest₃

/-! ## Names -/

/-- A byte of a name: a letter, digit or underscore, or a part of a code point beyond ASCII. -/
def isNameByte (b : UInt8) : Bool := isAlpha b || isDecimal b || b == ascii '_' || 0x80 ≤ b

/-- A letter of a name. -/
def isNameStart : Text.Piece → Bool
  | .scalar c => c == '_' || Text.isLetter c.toNat
  | .stray _ => false

/-- A letter or digit of a name. -/
def isNamePart : Text.Piece → Bool
  | .scalar c => c == '_' || Text.isLetter c.toNat || Text.isDigit c.toNat
  | .stray _ => false

/-- The name that a text begins with. -/
def name? (text : Bytes) : Option Bytes :=
  let pieces := Text.pieces (text.takeWhile isNameByte)
  match pieces.head? with
  | none => none
  | some first =>
    if isNameStart first then some ((pieces.takeWhile isNamePart).flatMap Text.Piece.bytes)
    else none

/-- The keywords with their texts. -/
def keywordTexts : List (Bytes × String) := keywords.map fun w => (utf8 w, w)

/-- The kind of a name. -/
def wordKind (name : Bytes) : Kind :=
  match keywordTexts.lookup name with
  | some word => .keyword word
  | none => .name

/-! ## Comments -/

/-- The length of a text through the next closing mark of a comment, after `length` bytes. -/
def closingLength? : Nat → Bytes → Option Nat
  | length, a :: b :: rest =>
    if a = ascii '*' ∧ b = ascii '/' then some (length + 2)
    else closingLength? (length + 1) (b :: rest)
  | _, _ => none

/-- A text without carriage returns. Between marks, one that keeps a star from a slash stays, unless
it follows the opening mark; `before` is what has been kept so far, the last first. -/
def withoutReturns (isBlock : Bool) (before : Bytes) : Bytes → Bytes
  | [] => before.reverse
  | b :: rest =>
    let followsStar := match before with
      | star :: _ :: _ :: _ => star == ascii '*'
      | _ => false
    let stays := isBlock && followsStar && rest.head? == some (ascii '/')
    withoutReturns isBlock (if b != carriageReturn || stays then b :: before else before) rest

/-- The comment that a text begins with, and its length. -/
def comment? (atLineStart : Bool) (text : Bytes) : Option (Bytes × Nat) := do
  if text.take 2 = utf8 "/*" then
    let length ← closingLength? 2 (text.drop 2)
    let whole := text.take length
    guard (isSoundComment true atLineStart whole)
    some (withoutReturns true [] whole, length)
  else
    guard (text.take 2 = utf8 "//")
    let whole := text.takeWhile (· != lineFeed)
    let ended := if whole.getLast? = some carriageReturn then whole.dropLast else whole
    guard (isSoundComment false atLineStart ended)
    some (withoutReturns false [] ended, whole.length)

/-! ## Items -/

/-- The signs with their texts. -/
def signTexts : List (String × Bytes) := signs.map fun s => (s, utf8 s)

/-- The sign that a text begins with. -/
def sign? (text : Bytes) : Option String :=
  (signTexts.find? fun (_, s) => s.isPrefixOf text).map Prod.fst

/-- The word that a text begins with, and its length. -/
def word? (text : Bytes) : Option (Kind × Nat) := do
  let b ← text.head?
  let followed := (text[1]?.map isDecimal).getD false
  if isDecimal b || (b == ascii '.' && followed) then number? text
  else if b = ascii '"' ∨ b = ascii '\'' then quoted? text
  else if b = ascii '\x60' then rawText? text
  else if b = ascii ';' then some (.stop true, 1)
  else match sign? text with
    | some s => some (.sign s, s.length)
    | none => (name? text).map fun name => (wordKind name, name.length)

/-- How far a file has been read. -/
structure Scan where
  rest : Bytes
  offset : Nat := 0
  /-- Whether nothing stands before on the line. -/
  atLineStart : Bool := true
  /-- Whether the end of the line ends a statement. -/
  ends : Bool := false
  /-- What has been read, the last first. -/
  items : List Item := []

namespace Scan

/-- Goes over some bytes. -/
def skip (s : Scan) (length : Nat) : Scan :=
  { s with
    rest := s.rest.drop length
    offset := s.offset + length
    atLineStart := (s.rest.take length).getLast? == some lineFeed }

/-- Adds an item. -/
def add (s : Scan) (item : Item) : Scan := { s with items := item :: s.items }

/-- The end of a statement or of the file at an offset. -/
def mark (kind : Kind) (offset : Nat) : Item :=
  .lexeme { kind, text := [lineFeed], start := offset + 1, stop := offset + 1 }

/-- Reads a word. Carriage returns do not count between back quotes. -/
def takeWord? (s : Scan) : Option Scan := do
  let (kind, length) ← word? s.rest
  let whole := s.rest.take length
  let isRaw := whole.head? == some (ascii '\x60')
  let text := if isRaw then withoutReturns false [] whole else whole
  let start := s.offset + 1
  some { (s.skip length).add (.lexeme { kind, text, start, stop := start + length }) with
    ends := kind.mayEnd }

/-- Reads a comment. A comment of several lines ends a statement at its first line end. -/
def takeComment? (s : Scan) : Option Scan := do
  let (text, length) ← comment? s.atLineStart s.rest
  let whole := s.rest.take length
  let after := (s.skip length).add (.comment ⟨s.offset + 1, text⟩)
  let before := (whole.takeWhile (· != lineFeed)).length
  some (if s.ends && before < length then
      { after.add (mark (.stop false) (s.offset + before)) with ends := false }
    else after)

/-- Reads what comes next. -/
def step? (s : Scan) (b : UInt8) : Option Scan :=
  if b = space ∨ b = tab ∨ b = carriageReturn then some (s.skip 1)
  else if b = lineFeed then
    some { (if s.ends then (s.skip 1).add (mark (.stop false) s.offset) else s.skip 1) with
      ends := false }
  else if b = ascii '/' ∧ (s.rest[1]? = some (ascii '/') ∨ s.rest[1]? = some (ascii '*')) then
    s.takeComment?
  else s.takeWord?

/-- Reads to the end of the file. Each step takes a byte, so that as many steps as there are bytes
are enough. -/
def run? : Nat → Scan → Option (List Item)
  | fuel, s =>
    match s.rest with
    | [] =>
      let s := if s.ends then s.add (mark (.stop false) s.offset) else s
      some (s.add (mark .finish s.offset)).items.reverse
    | b :: _ =>
      match fuel with
      | 0 => none
      | fuel + 1 =>
        match s.step? b with
        | some next => run? fuel next
        | none => none

end Scan

/-- The words and comments of a file. -/
def items? (text : Bytes) : Option (List Item) :=
  if isSourceText text then Scan.run? text.length { rest := text } else none

/-! ## Comments of words -/

/-- The line on which a comment ends. -/
def Comment.lastLine (lines : LineTable) (c : Comment) : Nat :=
  lines.line c.start + (if c.isBlock then c.text.count lineFeed else 0)

/-- The comments at the start of a list, each at most `gap` lines below the end of the one before;
`before` are those found so far, the last first, and `last` is the line on which they end. -/
def takeGroup (lines : LineTable) (gap : Nat) :
    CommentGroup → Nat → List Item → CommentGroup × Nat × List Item
  | before, last, .comment c :: rest =>
    if lines.line c.start ≤ last + gap then
      takeGroup lines gap (c :: before) (c.lastLine lines) rest
    else (before.reverse, last, .comment c :: rest)
  | before, last, items => (before.reverse, last, items)

/-- The groups at the start of a list, parted by empty lines, the last first; `groups` are those
found so far and `last` is the line on which they end. -/
def takeGroups (lines : LineTable) :
    Nat → List CommentGroup → Nat → List Item → List CommentGroup × Nat × List Item
  | 0, groups, last, items => (groups, last, items)
  | fuel + 1, groups, last, items =>
    match items with
    | .comment c :: _ =>
      let (group, last, rest) := takeGroup lines 1 [] (lines.line c.start) items
      takeGroups lines fuel (group :: groups) last rest
    | _ => (groups, last, items)

/-- The words of a file and the groups of its comments. -/
structure Words where
  lexemes : List Lexeme := []
  groups : List CommentGroup := []

/-- Whether comments that end on a line are a remark on the line of the word before, if an item
follows. -/
def endsLine (lines : LineTable) (last : Nat) : Option Item → Bool
  | none => true
  | some (.lexeme l) =>
    lines.line l.start ≠ last || (match l.kind with
      | .stop _ | .finish => true
      | _ => false)
  | some (.comment c) => lines.line c.start ≠ last

/-- Gives the comments to the words they may describe. `before` is the place of the word before; the
words and groups so far come with the last first. -/
def Words.collect (lines : LineTable) : Nat → Pos → Words → List Item → Words
  | 0, _, words, _ => words
  | _, _, words, [] => words
  | fuel + 1, before, words, item :: rest =>
    let onLine : Bool := match item with
      | .comment c => lines.line c.start == lines.line before
      | .lexeme _ => false
    let (remark, items, own) :=
      if onLine then
        let (group, last, after) := takeGroup lines 0 [] (lines.line item.start) (item :: rest)
        (if endsLine lines last after.head? then some group else none, after, [group])
      else (none, item :: rest, [])
    let (groups, last, items) := takeGroups lines (fuel + 1) [] 0 items
    let all := groups ++ own ++ words.groups
    match items with
    | .lexeme l :: rest =>
      let doc := if !groups.isEmpty && last + 1 == lines.line l.start then groups.head? else none
      Words.collect lines fuel l.start
        { lexemes := { l with doc, remark } :: words.lexemes, groups := all } rest
    | _ => { words with groups := all }

/-- The words of a file. -/
def words? (lines : LineTable) (text : Bytes) : Option Words :=
  (items? text).map fun items =>
    let words := Words.collect lines items.length 0 {} items
    ⟨words.lexemes.reverse, words.groups.reverse⟩

end YaccTables.Code
