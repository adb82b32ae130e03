import YaccTables.Toml.Scalar

/-!
# Strings of TOML

A string stands in one quote at each end and on one line, or in three and on several lines. In
double quotes a backslash escapes, in single quotes it does not.

A long string in double quotes is read in four steps: its end is found, the lines that a backslash
connects are joined, a line end at the start is dropped, and the escapes are resolved.
-/

namespace YaccTables.Toml

/-- A blank or tab. -/
def isBlank (b : UInt8) : Bool := b == space || b == tab

/-- A byte that ends a line. -/
def isLineEnd (b : UInt8) : Bool := b == lineFeed || b == carriageReturn

/-! ## Escapes -/

/-- The code point that hexadecimal digits spell. -/
def codePoint? (digits : Bytes) : Option Bytes :=
  let n := numeral 16 digits
  if digits.all isHex ∧ n.isValidChar then some (String.utf8EncodeChar (Char.ofNat n)) else none

/-- The byte that a one-letter escape stands for. -/
def simpleEscape? (b : UInt8) : Option UInt8 :=
  if b = ascii 'b' then some 8
  else if b = ascii 't' then some 9
  else if b = ascii 'n' then some 10
  else if b = ascii 'f' then some 12
  else if b = ascii 'r' then some 13
  else if b = ascii '"' ∨ b = ascii '\\' then some b
  else none

/-- A text with its escapes resolved. -/
def unescape? : Bytes → Option Bytes
  | [] => some []
  | b :: rest =>
    if b ≠ ascii '\\' then (unescape? rest).map (b :: ·)
    else match rest with
      | [] => none
      | letter :: tail =>
        if letter = ascii 'u' then
          match tail with
          | a :: b :: c :: d :: more =>
            (codePoint? [a, b, c, d]).bind fun point => (unescape? more).map (point ++ ·)
          | _ => none
        else if letter = ascii 'U' then
          match tail with
          | a :: b :: c :: d :: e :: f :: g :: h :: more =>
            (codePoint? [a, b, c, d, e, f, g, h]).bind fun point =>
              (unescape? more).map (point ++ ·)
          | _ => none
        else (simpleEscape? letter).bind fun c => (unescape? tail).map (c :: ·)

/-! ## Strings on one line -/

/-- The text up to the closing quote of a string on one line, and what follows it. A quote after a
backslash does not close the string. -/
def quotedBody? (escaped : Bool) : Bytes → Option (Bytes × Bytes)
  | [] => none
  | b :: rest =>
    if isLineEnd b then none
    else if escaped then (quotedBody? false rest).map fun (body, after) => (b :: body, after)
    else if b = ascii '"' then some ([], rest)
    else (quotedBody? (b == ascii '\\') rest).map fun (body, after) => (b :: body, after)

/-- A string in double quotes, after the first of them. -/
def basicString? (text : Bytes) : Option (Bytes × Bytes) := do
  let (body, rest) ← quotedBody? false text
  some (← unescape? body, rest)

/-- A string in single quotes, after the first of them. -/
def literalString? (text : Bytes) : Option (Bytes × Bytes) :=
  let body := text.takeWhile fun b => b != ascii '\'' && !isLineEnd b
  (expectByte? (ascii '\'') (text.drop body.length)).map fun rest => (body, rest)

/-! ## Strings on several lines -/

/-- Where a reader stands in a long string in double quotes. -/
inductive LongState
  | plain
  /-- After a backslash that escapes what follows. -/
  | escape
  /-- Within a code point of which some digits are left. -/
  | digits (left : Nat)
  /-- After a backslash that was escaped. -/
  | escapedBackslash
  deriving DecidableEq, Repr

namespace LongState

/-- The state after the byte behind a backslash. Blanks may stand between a backslash and the end
of its line. -/
def afterEscape? (b : UInt8) : Option LongState :=
  if b = ascii '\\' then some .escapedBackslash
  else if b = ascii 'u' then some (.digits 4)
  else if b = ascii 'U' then some (.digits 8)
  else if isBlank b || isLineEnd b || (simpleEscape? b).isSome then some .plain
  else none

/-- The state after a byte that does not close the string. -/
def next? (b : UInt8) : LongState → Option LongState
  | .escape => afterEscape? b
  | .digits (left + 1) =>
    if !isHex b then none else if left = 0 then some .plain else some (.digits left)
  | _ => if b = ascii '\\' then some .escape else some .plain

/-- Whether a quote is content here, whatever follows. -/
def isOpen : LongState → Bool
  | .escape => true
  | .digits _ => true
  | _ => false

/-- Whether three or more quotes in a row may close the string. The last three do, and the quotes
before them are content: two at most, or three after an escaped backslash. -/
def closes (marks : Nat) : LongState → Bool
  | .escapedBackslash => marks ≤ 6
  | _ => marks ≤ 5

end LongState

/-- The text up to the three quotes that close a long string, and what follows them. -/
def longBasicBody? (state : LongState) : Bytes → Option (Bytes × Bytes)
  | [] => none
  | b :: rest =>
    let marks := ((b :: rest).takeWhile (· == ascii '"')).length
    if !state.isOpen && 3 ≤ marks then
      if state.closes marks then
        some (List.replicate (marks - 3) (ascii '"'), rest.drop (marks - 1))
      else none
    else
      (state.next? b).bind fun state =>
        (longBasicBody? state rest).map fun (body, after) => (b :: body, after)

/-- The text up to three closing single quotes, and what follows them. Up to two more quotes belong
to the text. -/
def longLiteralBody? : Bytes → Option (Bytes × Bytes)
  | [] => none
  | b :: rest =>
    let marks := ((b :: rest).takeWhile (· == ascii '\'')).length
    if 3 ≤ marks then
      if marks ≤ 5 then
        some (List.replicate (marks - 3) (ascii '\''), rest.drop (marks - 1))
      else none
    else (longLiteralBody? rest).map fun (body, after) => (b :: body, after)

/-- A text without the line end that it starts with. -/
def withoutFirstLineEnd (text : Bytes) : Bytes :=
  match text with
  | b :: rest =>
    if b = lineFeed then rest
    else if b = carriageReturn ∧ rest.head? = some lineFeed then rest.drop 1
    else text
  | [] => []

/-- What may stand around the text of a line: blanks, and the return of its end. -/
def isMargin (b : UInt8) : Bool := isBlank b || b == carriageReturn

/-- A text without what a predicate holds of at its end. -/
def trimEnd (drop : UInt8 → Bool) (text : Bytes) : Bytes :=
  (text.reverse.dropWhile drop).reverse

/-- Joins lines. A single backslash at the end of a line, or an odd number of them, connects it with
the next: the last backslash goes, and with it the blanks after it and those that the next line
starts with. From then on lines follow each other directly, until one ends with escaped backslashes;
that one gets its line feed even if it is the last.

`connected` says that lines follow each other directly, and `trimmed` that this line is the one
after a backslash. -/
def joinContinued? (connected trimmed : Bool) : List Bytes → Option Bytes
  | [] => some []
  | line :: rest =>
    let line := if trimmed then line.dropWhile isMargin else line
    let bare := trimEnd isMargin line
    let slashes := (bare.reverse.takeWhile (· == ascii '\\')).length
    if slashes = 0 then
      let ending := if connected || rest.isEmpty then [] else [lineFeed]
      (joinContinued? connected false rest).map
        (trimEnd (· == carriageReturn) line ++ ending ++ ·)
    else if slashes % 2 = 0 then
      (joinContinued? false false rest).map (line ++ [lineFeed] ++ ·)
    else if rest.isEmpty then none
    else
      let bare := if connected then bare.dropWhile isMargin else bare
      (joinContinued? true true rest).map (bare.dropLast ++ ·)

/-- A string in three double quotes, after the first three. -/
def longBasicString? (text : Bytes) : Option (Bytes × Bytes) := do
  let (body, rest) ← longBasicBody? .plain text
  let joined ← joinContinued? false false (lines body)
  some (← unescape? (withoutFirstLineEnd joined), rest)

/-- A string in three single quotes, after the first three. -/
def longLiteralString? (text : Bytes) : Option (Bytes × Bytes) := do
  let (body, rest) ← longLiteralBody? text
  some (withoutFirstLineEnd body, rest)

end YaccTables.Toml
