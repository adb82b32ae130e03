/-!
Text as lists of bytes. Names, sources and everything printed are byte strings: nothing forces a
grammar to be valid UTF-8, and all offsets and columns count bytes.
-/

namespace YaccTables

/-- A text. -/
abbrev Bytes := List UInt8

/-- The UTF-8 bytes of a string. -/
def utf8 (s : String) : Bytes := s.toList.flatMap String.utf8EncodeChar

/-- The byte of an ASCII character. -/
def ascii (c : Char) : UInt8 := UInt8.ofNat c.toNat

/-- The line feed, which ends a line. -/
def lineFeed : UInt8 := 10

/-- The carriage return. -/
def carriageReturn : UInt8 := 13

/-- The horizontal tab. -/
def tab : UInt8 := 9

/-- The blank between words. -/
def space : UInt8 := 32

/-- The decimal digits of a number. -/
def decimal (n : Nat) : Bytes := (Nat.toDigits 10 n).flatMap String.utf8EncodeChar

/-- The decimal digits of an integer, after a minus sign if it is negative. -/
def decimalInt : Int → Bytes
  | .ofNat n => decimal n
  | .negSucc n => utf8 "-" ++ decimal (n + 1)

/-- The lower-case hexadecimal digit of a number below sixteen. -/
def hexDigit (n : Nat) : UInt8 := UInt8.ofNat (if n < 10 then 48 + n else 87 + n)

/-- The last `width` hexadecimal digits of a number, leading zeros included. -/
def hexadecimal : Nat → Nat → Bytes
  | 0, _ => []
  | width + 1, n => hexadecimal width (n / 16) ++ [hexDigit (n % 16)]

/-- Two hexadecimal digits for each byte. -/
def hexBytes (text : Bytes) : Bytes := text.flatMap fun b => hexadecimal 2 b.toNat

/-- The pieces of a text between its line feeds; there is always at least one. -/
def lines (text : Bytes) : List Bytes := text.splitOn lineFeed

/-- Lines put back together, a line feed between each two. -/
def joinLines (parts : List Bytes) : Bytes := [lineFeed].intercalate parts

/-- Upper-case ASCII letter. -/
def isUpper (b : UInt8) : Bool := ascii 'A' ≤ b && b ≤ ascii 'Z'

/-- Lower-case ASCII letter. -/
def isLower (b : UInt8) : Bool := ascii 'a' ≤ b && b ≤ ascii 'z'

/-- ASCII letter. -/
def isAlpha (b : UInt8) : Bool := isUpper b || isLower b

/-- ASCII digit. -/
def isDecimal (b : UInt8) : Bool := ascii '0' ≤ b && b ≤ ascii '9'

/-- The lower-case form of an ASCII letter; any other byte is its own. -/
def lowerByte (b : UInt8) : UInt8 := if isUpper b then b + 32 else b

/-- The upper-case form of an ASCII letter; any other byte is its own. -/
def upperByte (b : UInt8) : UInt8 := if isLower b then b - 32 else b

/-- The first of the texts that is not empty, or the empty text. -/
def firstNonempty (texts : List Bytes) : Bytes := (texts.find? (!·.isEmpty)).getD []

end YaccTables
