import YaccTables.Text.Letter
import YaccTables.Text.Utf8
import YaccTables.Toml
import YaccTables.Toml.Quoted

/-!
# Reading TOML

`Toml.read?` reads the statements of a document. A text with stray bytes or control characters is
no document.
-/

namespace YaccTables.Toml

/-! ## Characters -/

/-- A text without the blanks that it starts with. -/
def skipBlanks (text : Bytes) : Bytes := text.dropWhile isBlank

/-- A text without the blanks, line ends and comments that it starts with. -/
def skipGap (inComment : Bool) : Bytes → Bytes
  | [] => []
  | b :: rest =>
    if inComment then skipGap (b != lineFeed) rest
    else if isBlank b || isLineEnd b then skipGap false rest
    else if b = ascii '#' then skipGap true rest
    else b :: rest

/-- A piece that may stand in a document. -/
def isAllowedPiece : Text.Piece → Bool
  | .scalar c =>
    let n := c.toNat
    n == 9 || n == 10 || n == 13 || (0x20 ≤ n && n != 0x7f && n != 0xfffd)
  | .stray _ => false

/-- Whether every carriage return comes before a line feed. -/
def returnsFit : Bytes → Bool
  | [] => true
  | b :: rest => (b != carriageReturn || rest.head? == some lineFeed) && returnsFit rest

/-- A text without the byte order mark of a 16-bit encoding. -/
def withoutMark (text : Bytes) : Bytes :=
  if text.take 2 = [0xff, 0xfe] ∨ text.take 2 = [0xfe, 0xff] then text.drop 2 else text

/-! ## Keys -/

/-- A byte of a key without quotes. -/
def isKeyByte (b : UInt8) : Bool := isAlpha b || isDecimal b || b == ascii '_' || b == ascii '-'

/-- One part of a key. -/
def keyPart? (text : Bytes) : Option (Bytes × Bytes) :=
  match text with
  | [] => none
  | b :: rest =>
    if b = ascii '"' then basicString? rest
    else if b = ascii '\'' then literalString? rest
    else
      let bare := text.takeWhile isKeyByte
      if bare.isEmpty then none else some (bare, text.drop bare.length)

/-- A key of parts between dots, and what follows the blanks after it. Each part takes a byte, so
that as many parts as there are bytes are enough. -/
def keyPath? : Nat → Bytes → Option (Path × Bytes)
  | 0, _ => none
  | fuel + 1, text => do
    let (part, rest) ← keyPart? (skipBlanks text)
    match skipBlanks rest with
    | [] => some ([part], [])
    | b :: after =>
      if b = ascii '.' then
        let (more, rest) ← keyPath? fuel after
        some (part :: more, rest)
      else some ([part], b :: after)

/-- A key. -/
def key? (text : Bytes) : Option (Path × Bytes) := keyPath? (text.length + 1) text

/-! ## Values -/

/-- A number without a sign, or a date or time. -/
def number? (text : Bytes) : Option Bytes :=
  let leading := text.takeWhile isDecimal
  let after := text.drop leading.length
  let based (base : Nat) (isDigit : UInt8 → Bool) : Option Bytes :=
    let body := after.drop 1
    let digits := body.takeWhile fun b => isDigit b || b == ascii '_'
    if isBasedInteger base digits then some (body.drop digits.length) else none
  let decimal : Option Bytes :=
    let whole := text.takeWhile fun b => isDecimal b || b == ascii '_'
    let rest := text.drop whole.length
    if (rest.head?.map isFloatDivider).getD false then
      let spelled := text.takeWhile fun b =>
        isDecimal b || b == ascii '_' || isFloatDivider b || isSign b
      if isFloat spelled then some (text.drop spelled.length) else none
    else if isDecimalInteger whole then some rest else none
  match after with
  | [] => decimal
  | b :: _ =>
    if leading = utf8 "0" then
      if b = ascii 'x' then based 16 isHex
      else if b = ascii 'o' then based 8 fun d => ascii '0' ≤ d && d ≤ ascii '7'
      else if b = ascii 'b' then based 2 fun d => d == ascii '0' || d == ascii '1'
      else decimal
    else if b = ascii '-' ∨ b = ascii ':' then
      let spelled := text.takeWhile fun d =>
        isDecimal d || (utf8 "-:Tt .Zz+").contains d
      let moment := (spelled.reverse.dropWhile isBlank).reverse
      if isMoment moment then some (text.drop spelled.length) else none
    else decimal

/-- A word at the start of a text, and what follows it. -/
def afterWord? (word : String) (text : Bytes) : Option Bytes :=
  let bytes := utf8 word
  if text.take bytes.length = bytes then some (text.drop bytes.length) else none

/-- A number with a sign: infinite, no number at all, or decimal. -/
def signed? (text : Bytes) : Option Bytes :=
  let body := text.drop 1
  afterWord? "inf" body <|> afterWord? "nan" body <|> do
    let digits := body.takeWhile fun b => isDecimal b || b == ascii '_'
    let rest := body.drop digits.length
    if (body.head?.map isDecimal).getD false then
      if (rest.head?.map isFloatDivider).getD false then
        let spelled := body.takeWhile fun b =>
          isDecimal b || b == ascii '_' || isFloatDivider b || isSign b
        if isFloat (text.take 1 ++ spelled) then some (body.drop spelled.length) else none
      else if isDecimalInteger (text.take 1 ++ digits) then some rest else none
    else none

/-- Whether a text starts with a letter of any script. -/
def startsWithLetter (text : Bytes) : Bool :=
  match Text.pieces (text.take 4) with
  | .scalar c :: _ => Text.isLetter c.toNat
  | _ => false

/-- A truth value, which no letter may follow. -/
def boolean? (text : Bytes) : Option (Bool × Bytes) :=
  let word := ((afterWord? "true" text).map fun rest => (true, rest))
    <|> ((afterWord? "false" text).map fun rest => (false, rest))
  word.filter fun (_, rest) => !startsWithLetter rest

/-- A value that is neither an array nor a table between braces. -/
def plainValue? (text : Bytes) : Option (Value × Bytes) :=
  match text with
  | [] => none
  | b :: rest =>
    if b = ascii '"' then
      ((if rest.take 2 = utf8 "\"\"" then longBasicString? (rest.drop 2)
        else basicString? rest)).map fun (t, after) => (.text t, after)
    else if b = ascii '\'' then
      ((if rest.take 2 = utf8 "''" then longLiteralString? (rest.drop 2)
        else literalString? rest)).map fun (t, after) => (.text t, after)
    else if isDecimal b then (number? text).map fun after => (.scalar, after)
    else if isSign b then (signed? text).map fun after => (.scalar, after)
    else
      ((afterWord? "inf" text <|> afterWord? "nan" text).map fun after => (Value.scalar, after))
        <|> (boolean? text).map fun (v, after) => (.boolean v, after)

mutual

/-- A value. Every second step down takes a byte, so that twice as many as there are bytes are
enough. -/
def valueWith? : Nat → Bytes → Option (Value × Bytes)
  | 0, _ => none
  | fuel + 1, text =>
    match skipBlanks text with
    | [] => none
    | b :: rest =>
      if b = ascii '[' then (itemsWith? fuel rest).map fun (items, after) => (.array items, after)
      else if b = ascii '\x7b' then
        match skipBlanks rest with
        | [] => none
        | c :: after =>
          if c = ascii '\x7d' then some (.inlineTable [], after)
          else (fieldsWith? fuel (c :: after)).map fun (fields, after) =>
            (.inlineTable fields, after)
      else plainValue? (b :: rest)

/-- The items of an array, through the closing bracket. A comma may follow the last. -/
def itemsWith? : Nat → Bytes → Option (List Value × Bytes)
  | 0, _ => none
  | fuel + 1, text =>
    match skipGap false text with
    | [] => none
    | b :: rest =>
      if b = ascii ']' then some ([], rest)
      else do
        let (item, after) ← valueWith? fuel (b :: rest)
        match skipGap false after with
        | [] => none
        | c :: after =>
          if c = ascii ',' then
            let (more, after) ← itemsWith? fuel after
            some (item :: more, after)
          else if c = ascii ']' then some ([item], after)
          else none

/-- The fields of a table between braces, through the closing brace. There is at least one, and no
comma follows the last. -/
def fieldsWith? : Nat → Bytes → Option (List (Path × Value) × Bytes)
  | 0, _ => none
  | fuel + 1, text => do
    let (path, rest) ← key? text
    let (value, rest) ← valueWith? fuel (← expectByte? (ascii '=') rest)
    match skipBlanks rest with
    | [] => none
    | c :: after =>
      if c = ascii ',' then
        let (more, after) ← fieldsWith? fuel after
        some ((path, value) :: more, after)
      else if c = ascii '\x7d' then some ([(path, value)], after)
      else none

end

/-- A value, and what follows it. -/
def value? (text : Bytes) : Option (Value × Bytes) := valueWith? (2 * text.length + 2) text

/-! ## Statements -/

/-- A header, after its first bracket. -/
def header? (text : Bytes) : Option (Statement × Bytes) :=
  match text with
  | [] => none
  | b :: rest =>
    if b = ascii '[' then do
      let (path, rest) ← key? rest
      let rest ← expectByte? (ascii ']') rest
      some (.tableItem path, ← expectByte? (ascii ']') rest)
    else do
      let (path, rest) ← key? text
      some (.table path, ← expectByte? (ascii ']') rest)

/-- A key with its value. -/
def setting? (text : Bytes) : Option (Statement × Bytes) := do
  let (path, rest) ← key? text
  let (value, rest) ← value? (← expectByte? (ascii '=') rest)
  some (.set path value, rest)

/-- Whether a line is over, but for blanks and a comment. -/
def endsLine (text : Bytes) : Bool :=
  match skipBlanks text with
  | [] => true
  | b :: _ => isLineEnd b || b == ascii '#'

/-- The statements of a text, as many as there are bytes at most. -/
def statements? : Nat → Bytes → Option (List Statement)
  | 0, _ => none
  | fuel + 1, text =>
    match skipGap false text with
    | [] => some []
    | b :: rest => do
      let (statement, after) ← if b = ascii '[' then header? rest else setting? (b :: rest)
      if endsLine after then
        let more ← statements? fuel after
        some (statement :: more)
      else none

/-- The statements of a document. -/
def read? (text : Bytes) : Option (List Statement) :=
  let body := withoutMark text
  if (Text.pieces body).all isAllowedPiece ∧ returnsFit body then
    statements? (body.length + 1) body
  else none

end YaccTables.Toml
