import YaccTables.Code.Doc.Blocks

/-!
# Text of documentation

Within a paragraph two back quotes or two apostrophes stand for quotation marks, except in
addresses. A text in square brackets refers to the address that a definition gives for it.
-/

namespace YaccTables.Code.Doc

/-! ## Addresses -/

/-- The schemes that an address begins with. -/
def schemes : List Bytes := ["file", "ftp", "gopher", "http", "https", "mailto", "nntp"].map utf8

/-- A letter or digit. -/
def isAlphanumeric (b : UInt8) : Bool := isAlpha b || isDecimal b

/-- A byte of the host in an address. -/
def isHostByte (b : UInt8) : Bool := isAlphanumeric b || (utf8 "_@-.[]:").contains b

/-- A byte inside of an address, but not at its end. -/
def isInnerByte (b : UInt8) : Bool := (utf8 ".,:;?!").contains b

/-- A byte of the path in an address. -/
def isPathByte (b : UInt8) : Bool :=
  isAlphanumeric b || (utf8 "$'()*+&#=@~_/-[]\x7b\x7d%").contains b

/-- The bracket that closes an opening bracket. -/
def closingFor (b : UInt8) : Option UInt8 :=
  if b = ascii '(' then some (ascii ')')
  else if b = ascii '[' then some (ascii ']')
  else if b = ascii '\x7b' then some (ascii '\x7d')
  else none

/-- A closing bracket. -/
def isClosing (b : UInt8) : Bool := (utf8 ")]\x7d").contains b

/-- The length of the path at the start of a text, where brackets come in pairs: `open` are those
still to close, `length` is what has been read and `found` what can be taken. -/
def pathLength : List UInt8 → Nat → Nat → Bytes → Nat
  | _, _, found, [] => found
  | pending, length, found, b :: rest =>
    if isInnerByte b then pathLength pending (length + 1) found rest
    else if !isPathByte b then found
    else
      let pending? := match closingFor b with
        | some closing => some (closing :: pending)
        | none =>
          if !isClosing b then some pending
          else if pending.head? = some b then some pending.tail
          else none
      match pending? with
      | none => found
      | some pending =>
        pathLength pending (length + 1) (if pending.isEmpty then length + 1 else found) rest

/-- The length of the address at the start of a text. -/
def addressLength? (text : Bytes) : Option Nat :=
  let scheme := text.takeWhile (· != ascii ':')
  let rest := text.drop scheme.length
  if schemes.contains scheme && (utf8 "://").isPrefixOf rest then
    let host := (rest.drop 3).takeWhile isHostByte
    let host := (host.reverse.dropWhile isInnerByte).reverse
    match (rest.drop 3).head? with
    | none => none
    | some first =>
      if !isHostByte first || isInnerByte first then none
      else
        let before := scheme.length + 3 + host.length
        some (before + pathLength [] 0 0 (text.drop before))
  else none

/-- The number of bytes of the name at the start of a text: letters, digits and underscores, of
which the first is no digit. -/
def nameLength (text : Bytes) : Nat :=
  let run := text.takeWhile fun b => isAlphanumeric b || b == ascii '_' || 0x80 ≤ b
  if (run.head?.map isDecimal).getD false then 0
  else (((Text.pieces run).takeWhile fun
    | .scalar c => c.toNat < 0x80 || Text.isLetter c.toNat
    | .stray _ => false).flatMap Text.Piece.bytes).length

/-! ## Quotation marks -/

/-- The back quote. -/
def backQuote : UInt8 := ascii '\x60'

/-- A text with quotation marks, at most so many steps of it. Addresses and names are passed over
if `hasAddresses`. A run of three back quotes and what follows it up to where it stops is left as it
is; `i` counts the bytes before the text. -/
def quotedFrom (hasAddresses : Bool) : Nat → Nat → Bytes → Bytes
  | 0, _, text => text
  | _, _, [] => []
  | fuel + 1, i, b :: rest =>
    let text := b :: rest
    let pass (n : Nat) : Bytes := text.take n ++ quotedFrom hasAddresses fuel (i + n) (text.drop n)
    let passed := if hasAddresses then (addressLength? text).getD (nameLength text) else 0
    if 0 < passed then pass passed
    else if [backQuote, backQuote, backQuote].isPrefixOf text then
      pass (firstNot (fun j => text[j]? == some backQuote) text.length (i + 3) - i)
    else if [backQuote, backQuote].isPrefixOf text then
      utf8 "“" ++ quotedFrom hasAddresses fuel (i + 2) (text.drop 2)
    else if (utf8 "''").isPrefixOf text then
      utf8 "”" ++ quotedFrom hasAddresses fuel (i + 2) (text.drop 2)
    else b :: quotedFrom hasAddresses fuel (i + 1) rest

/-- A text with quotation marks. -/
def withQuotes (hasAddresses : Bool) (text : Bytes) : Bytes :=
  quotedFrom hasAddresses text.length 0 text

/-! ## References -/

/-- The definition of an address for a text. -/
structure LinkDef where
  text : Bytes
  url : Bytes
  deriving DecidableEq, Repr

/-- The position of the first place where a text occurs in another. -/
def indexOf? (sought : Bytes) : Bytes → Option Nat
  | [] => if sought.isEmpty then some 0 else none
  | b :: rest =>
    if sought.isPrefixOf (b :: rest) then some 0 else (indexOf? sought rest).map (· + 1)

/-- The definition that a line consists of. -/
def linkDef? (line : Bytes) : Option LinkDef := do
  guard (line.head? == some (ascii '['))
  let i ← indexOf? (utf8 "]:") line
  guard (i + 3 < line.length && isIndented (line.drop (i + 2)))
  let url := Text.trim (line.drop (i + 3))
  let j ← indexOf? (utf8 "://") url
  guard (schemes.contains (url.take j))
  some { text := (line.take i).drop 1, url }

/-- What is known while a text is searched for references. -/
structure RefState where
  written : Bytes := []
  /-- How much of the text has been written. -/
  done : Nat := 0
  /-- Where a bracket has been opened. -/
  opening : Option Nat := none
  /-- What has been read since brackets were closed. -/
  inside : Bytes := []
  /-- The texts that were referred to. -/
  used : List Bytes := []

/-- A part of a text. -/
def part (text : Bytes) (start stop : Nat) : Bytes := (text.take stop).drop start

/-- Goes over one byte of a text. -/
def RefState.next (defs : List LinkDef) (text : Bytes) (s : RefState) (b : UInt8) (i : Nat) :
    RefState :=
  if b = ascii '[' then { s with opening := some i }
  else if b = ascii ']' then
    match s.opening with
    | none => { s with inside := [] }
    | some start =>
      if defs.any (·.text == s.inside) then
        { written := s.written ++ withQuotes true (part text s.done start) ++ [ascii '[']
            ++ withQuotes false (part text (start + 1) i) ++ [ascii ']']
          done := i + 1
          used := s.inside :: s.used }
      else { s with opening := none, inside := [] }
  else if s.opening.isSome then
    { s with inside := s.inside ++ [if b = lineFeed ∨ b = tab then space else b] }
  else s

/-- A text as it is written, and the texts that it refers to. -/
def inlineText (defs : List LinkDef) (text : Bytes) : Bytes × List Bytes :=
  let s := text.zipIdx.foldl (fun (s : RefState) (b, i) => s.next defs text b i) {}
  (s.written ++ withQuotes true (text.drop s.done), s.used)

end YaccTables.Code.Doc
