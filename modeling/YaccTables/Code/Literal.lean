import YaccTables.Code.Lexeme
import YaccTables.Text.Quoted

/-!
# Literals

Each reader takes the text from the first byte of a literal on, and returns the kind of the literal
with its length in bytes. It fails if the literal is not well-formed. Numbers and the paths of
packages have a standard form.
-/

namespace YaccTables.Code

/-! ## Numbers -/

/-- Hexadecimal digit. -/
def isHexDigit (b : UInt8) : Bool :=
  isDecimal b || (ascii 'a' ≤ lowerByte b && lowerByte b ≤ ascii 'f')

/-- A digit of a base, or an underscore between digits. For a base up to ten all decimal digits are
taken, so that those which do not belong can be refused. -/
def isNumeral (base : Nat) (b : UInt8) : Bool :=
  b == ascii '_' || (if base ≤ 10 then isDecimal b else isHexDigit b)

/-- The base that a number announces by its first bytes, and how many these are. -/
inductive Radix
  | plain
  /-- A zero before further digits. -/
  | zero
  | binary
  | octal
  | hexadecimal
  deriving DecidableEq, Repr

/-- The radix of the number that a text begins with. -/
def radix : Bytes → Radix
  | zero :: mark :: _ =>
    if zero ≠ ascii '0' then .plain
    else if lowerByte mark = ascii 'x' then .hexadecimal
    else if lowerByte mark = ascii 'o' then .octal
    else if lowerByte mark = ascii 'b' then .binary
    else .zero
  | [zero] => if zero = ascii '0' then .zero else .plain
  | [] => .plain

namespace Radix

def base : Radix → Nat
  | plain => 10
  | zero => 8
  | binary => 2
  | octal => 8
  | hexadecimal => 16

/-- The number of bytes that announce the radix. -/
def width : Radix → Nat
  | plain => 0
  | zero => 1
  | _ => 2

/-- Whether the announcement is itself a digit. -/
def isDigit (r : Radix) : Bool := r == zero

/-- Whether the radix has a mark of its own. -/
def isMarked (r : Radix) : Bool := r != plain && r != zero

end Radix

/-- What stands before a byte of a number: an underscore, a digit or anything else. -/
inductive NumeralState
  | underscore
  | digit
  | other
  | broken
  deriving DecidableEq, Repr

/-- Underscores are between digits only. -/
def NumeralState.next (isHex : Bool) (s : NumeralState) (b : UInt8) : NumeralState :=
  if s = broken then broken
  else if b = ascii '_' then (if s = digit then underscore else broken)
  else if isDecimal b || (isHex && isHexDigit b) then digit
  else if s = underscore then broken
  else other

/-- Whether all underscores of a number stand between digits; a mark of the radix counts as one. -/
def hasSoundUnderscores (text : Bytes) : Bool :=
  let r := radix text
  let start := if r.isMarked then NumeralState.digit else .other
  let last := (if r.isMarked then text.drop 2 else text).foldl
    (NumeralState.next (r == .hexadecimal)) start
  last != .underscore && last != .broken

/-- Whether some byte is a digit, and not only underscores. -/
def hasDigit (text : Bytes) : Bool := text.any (· != ascii '_')

/-- The number that a text begins with. -/
def number? (text : Bytes) : Option (Kind × Nat) := do
  let r := radix text
  let body := text.drop r.width
  let whole := body.takeWhile (isNumeral r.base)
  let rest := body.drop whole.length
  let hasPoint := rest.head? == some (ascii '.')
  let part := if hasPoint then (rest.drop 1).takeWhile (isNumeral r.base) else []
  let rest := if hasPoint then rest.drop (1 + part.length) else rest
  guard (!(hasPoint && (r == .octal || r == .binary)))
  guard (r.isDigit || hasDigit whole || hasDigit part)
  let mark := (rest.head?.map lowerByte).getD 0
  let hasExponent := mark == ascii 'e' || mark == ascii 'p'
  guard (!(mark == ascii 'e' && r.isMarked) && !(mark == ascii 'p' && r != .hexadecimal))
  guard (hasExponent || !(r == .hexadecimal && hasPoint))
  let after := if hasExponent then rest.drop 1 else rest
  let isSigned := hasExponent &&
    (after.head? == some (ascii '+') || after.head? == some (ascii '-'))
  let after := if isSigned then after.drop 1 else after
  let power := if hasExponent then after.takeWhile (isNumeral 10) else []
  guard (!hasExponent || hasDigit power)
  let rest := after.drop power.length
  let isImaginary := rest.head? == some (ascii 'i')
  let length := r.width + whole.length + (if hasPoint then 1 + part.length else 0)
    + (if hasExponent then 1 else 0) + (if isSigned then 1 else 0) + power.length
    + (if isImaginary then 1 else 0)
  let kind := if isImaginary then Kind.imaginary
    else if hasPoint || hasExponent then .decimalPoint
    else .integer
  guard (kind != .integer || 10 ≤ r.base ||
    whole.all fun b => b == ascii '_' || b.toNat - 48 < r.base)
  guard (hasSoundUnderscores (text.take length))
  some (kind, length)

/-- A number in which the last of an upper-case letter is in lower case. -/
def lowerLast (letter : Char) (text : Bytes) : Bytes :=
  let tail := (text.reverse.takeWhile (· != ascii letter)).reverse
  if tail.length = text.length then text
  else text.take (text.length - tail.length - 1) ++ [lowerByte (ascii letter)] ++ tail

/-- An imaginary number without the zeros that it begins with, if it is an integer. -/
def withoutZeros (text : Bytes) : Bytes :=
  if text.getLast? == some (ascii 'i') && !text.contains (ascii '.') && !text.contains (ascii 'e')
  then
    let digits := text.dropWhile fun b => b == ascii '0' || b == ascii '_'
    if digits == utf8 "i" then utf8 "0i" else digits
  else text

/-- The standard form of a number: the mark of its radix and that of its exponent are in lower case,
and no zeros begin an imaginary integer. -/
def standardNumber (text : Bytes) : Bytes :=
  let lowered := text.take 1 ++ ((text.drop 1).take 1).map lowerByte ++ text.drop 2
  if text.length < 2 then text
  else match radix text with
    | .hexadecimal => lowerLast 'P' lowered
    | .octal | .binary => lowered
    | .plain | .zero =>
      if text.contains (ascii 'E') then lowerLast 'E' text else withoutZeros text

/-! ## Quoted text -/

/-- The value of a hexadecimal digit. -/
def hexValue (b : UInt8) : Nat :=
  if isDecimal b then b.toNat - 48 else (lowerByte b).toNat - 87

/-- The number that digits of a base write, if there are `count` of them. -/
def digits? (base count : Nat) (text : Bytes) : Option Nat :=
  let digits := text.take count
  if digits.length = count ∧ digits.all (fun b => isHexDigit b && hexValue b < base) then
    some (digits.foldl (fun n b => n * base + hexValue b) 0)
  else none

/-- The value of an escape and its length, given the text behind the backslash. -/
def escape? (mark : UInt8) (text : Bytes) : Option (Nat × Nat) := do
  let first ← text.head?
  let named := [(ascii 'a', 7), (ascii 'b', 8), (ascii 'f', 12), (ascii 'n', 10),
    (ascii 'r', 13), (ascii 't', 9), (ascii 'v', 11), (ascii '\\', 92), (mark, mark.toNat)]
  match named.lookup first with
  | some value => some (value, 1)
  | none =>
    let (skip, count, base, limit) :=
      if first = ascii 'x' then (1, 2, 16, 255)
      else if first = ascii 'u' then (1, 4, 16, 0x10ffff)
      else if first = ascii 'U' then (1, 8, 16, 0x10ffff)
      else (0, 3, 8, 255)
    let value ← digits? base count (text.drop skip)
    guard (value ≤ limit && !(0xd800 ≤ value && value < 0xe000))
    some (value, skip + count)

/-- The length of a quoted text from behind its first mark through its last, and the number of
characters in it. `units` and `length` count what has been read, and `skipped` bytes belong to an
escape. -/
def quotedLength? (mark : UInt8) : Nat → Nat → Nat → Bytes → Option (Nat × Nat)
  | _, _, _, [] => none
  | skipped + 1, units, length, _ :: rest => quotedLength? mark skipped units (length + 1) rest
  | 0, units, length, b :: rest =>
    if b = lineFeed then none
    else if b = mark then some (length + 1, units)
    else if b = ascii '\\' then
      match escape? mark rest with
      | some (_, width) => quotedLength? mark width (units + 1) (length + 1) rest
      | none => none
    else
      let starts := !(0x80 ≤ b && b < 0xc0)
      quotedLength? mark 0 (if starts then units + 1 else units) (length + 1) rest

/-- The text or character between quotes that a text begins with. A character is just one. -/
def quoted? (text : Bytes) : Option (Kind × Nat) := do
  let mark ← text.head?
  let (length, units) ← quotedLength? mark 0 0 1 (text.drop 1)
  if mark = ascii '\'' then
    guard (units == 1)
    some (.character, length)
  else some (.text, length)

/-- The text between back quotes that a text begins with, which may have several lines. -/
def rawText? (text : Bytes) : Option (Kind × Nat) :=
  let inside := (text.drop 1).takeWhile (· != ascii '\x60')
  let length := inside.length + 1
  if (text.drop length).isEmpty then none else some (.text, length + 1)

/-- The code points and bytes that the inside of a quoted text stands for. -/
def unescape : Nat → Bytes → Bytes
  | 0, _ => []
  | _, [] => []
  | fuel + 1, b :: rest =>
    if b = ascii '\\' then
      match escape? (ascii '"') rest with
      | none => []
      | some (value, width) =>
        let isPoint := rest.head? == some (ascii 'u') || rest.head? == some (ascii 'U')
        (if isPoint then String.utf8EncodeChar (Char.ofNat value) else [UInt8.ofNat value])
          ++ unescape fuel (rest.drop width)
    else b :: unescape fuel rest

/-- What a literal of kind `text` stands for. -/
def textValue (literal : Bytes) : Bytes :=
  let inside := (literal.drop 1).dropLast
  if literal.head? == some (ascii '\x60') then inside else unescape inside.length inside

/-- The characters that no path of a package has, those apart that do not print. -/
def unfitForPath : String := "!\"#$%&'()*,:;<=>?[\\]^\x7b|\x7d\x60\ufffd "

/-- Whether a piece of text may be part of the path of a package. -/
def isPathPiece : Text.Piece → Bool
  | .scalar c => Text.isPrintable c.toNat && !unfitForPath.contains c
  | .stray _ => false

/-- The standard form of the path of a package: between double quotes if it is a proper one. -/
def standardPath (literal : Bytes) : Bytes :=
  let path := textValue literal
  if !path.isEmpty && (Text.pieces path).all isPathPiece then Text.quote path else literal

end YaccTables.Code
