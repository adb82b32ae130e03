import YaccTables.Bytes

/-!
# Numbers, dates and times of TOML

Which spellings are numbers, dates and times. Integers have 64 bits, floats are not allowed to
overflow, and dates have to exist.
-/

namespace YaccTables.Toml

/-- A hexadecimal digit in either case. -/
def isHex (b : UInt8) : Bool :=
  isDecimal b || (ascii 'a' ≤ lowerByte b && lowerByte b ≤ ascii 'f')

/-- The value of a hexadecimal digit. -/
def hexValue (b : UInt8) : Nat :=
  if isDecimal b then b.toNat - (ascii '0').toNat else (lowerByte b).toNat - (ascii 'a').toNat + 10

/-- The number that digits spell in a base. -/
def numeral (base : Nat) (digits : Bytes) : Nat :=
  digits.foldl (fun n b => n * base + hexValue b) 0

/-- A plus or minus sign. -/
def isSign (b : UInt8) : Bool := b == ascii '+' || b == ascii '-'

/-- A text without the sign that it may start with. -/
def unsigned (text : Bytes) : Bytes :=
  match text with
  | b :: rest => if isSign b then rest else text
  | [] => []

/-- A text without underscores. -/
def plainDigits (text : Bytes) : Bytes := text.filter (· != ascii '_')

/-- Whether every underscore follows a digit, and a digit ends the text. -/
def underscoresFit (afterDigit : Bool) : Bytes → Bool
  | [] => afterDigit
  | b :: rest => (b != ascii '_' || afterDigit) && underscoresFit (isHex b) rest

/-- Whether a number starts with a zero that another digit follows. -/
def hasLeadingZero (text : Bytes) : Bool :=
  match unsigned text with
  | b :: _ :: _ => b == ascii '0'
  | _ => false

/-! ## Integers -/

/-- The first number that is too large for an integer of 64 bits. -/
def integerBound : Nat := 0x8000000000000000

/-- A decimal integer, perhaps with a sign. -/
def isDecimalInteger (text : Bytes) : Bool :=
  let digits := plainDigits (unsigned text)
  let bound := if text.head? = some (ascii '-') then integerBound else integerBound - 1
  underscoresFit false text && !hasLeadingZero text && !digits.isEmpty && digits.all isDecimal
    && numeral 10 digits ≤ bound

/-- The digits of an integer in a base of two, eight or sixteen. -/
def isBasedInteger (base : Nat) (text : Bytes) : Bool :=
  underscoresFit false text && numeral base (plainDigits text) < integerBound

/-! ## Floats -/

/-- The mark of an exponent. -/
def isExponentMark (b : UInt8) : Bool := b == ascii 'e' || b == ascii 'E'

/-- What ends a part of a float. -/
def isFloatDivider (b : UInt8) : Bool := b == ascii '.' || isExponentMark b

/-- The parts of a float between points and exponent marks. -/
def floatParts (text : Bytes) : List Bytes :=
  (text.splitOnP isFloatDivider).filter (!·.isEmpty)

/-- Digits, at least one. -/
def isDigits (text : Bytes) : Bool := !text.isEmpty && text.all isDecimal

/-- A number in decimal notation as a whole number and a power of ten. -/
structure Scientific where
  digits : Nat
  exponent : Int

/-- The number that the digits of an exponent spell. Digits after the first that brings it to 10000
or more do not count: no exponent of that size is told apart from a larger one. -/
def exponentOf (digits : Bytes) : Nat :=
  digits.foldl (fun n b => if n < 10000 then n * 10 + hexValue b else n) 0

/-- Reads a float without underscores and sign. -/
def scientific? (text : Bytes) : Option Scientific :=
  let mantissa := text.takeWhile (!isExponentMark ·)
  let power := text.drop mantissa.length
  let whole := mantissa.takeWhile isDecimal
  let fraction := mantissa.drop whole.length
  let exponent? : Option Int := match power with
    | [] => some 0
    | _ :: spelled =>
      if isDigits (unsigned spelled) then
        let n : Int := exponentOf (unsigned spelled)
        some (if spelled.head? = some (ascii '-') then -n else n)
      else none
  match fraction with
  | [] =>
    if isDigits whole then exponent?.map fun e => ⟨numeral 10 whole, e⟩ else none
  | b :: decimals =>
    if b = ascii '.' ∧ isDigits whole ∧ isDigits decimals then
      exponent?.map fun e => ⟨numeral 10 (whole ++ decimals), e - decimals.length⟩
    else none

/-- Whether a number rounds to a finite double: it is below the middle of the largest and the next
power of two. Exponents far from the bound are decided by the number of digits. -/
def Scientific.isFinite (s : Scientific) : Bool :=
  let magnitude : Int := (Nat.toDigits 10 s.digits).length + s.exponent
  let bound := Nat.pow 2 1024 - Nat.pow 2 970
  s.digits == 0 || magnitude < 300 ||
    (magnitude ≤ 310 &&
      (if s.exponent < 0 then s.digits < bound * Nat.pow 10 s.exponent.natAbs
       else s.digits * Nat.pow 10 s.exponent.natAbs < bound))

/-- A float, perhaps with a sign. -/
def isFloat (text : Bytes) : Bool :=
  let parts := floatParts text
  parts.all (underscoresFit false) && !hasLeadingZero (parts.head?.getD [])
    && match scientific? (unsigned (plainDigits text)) with
      | some s => s.isFinite
      | none => false

/-! ## Dates and times -/

/-- A fixed number of digits. -/
def digits? (count : Nat) (text : Bytes) : Option (Nat × Bytes) :=
  let taken := text.take count
  if taken.length = count ∧ taken.all isDecimal then some (numeral 10 taken, text.drop count)
  else none

/-- One expected byte. -/
def expectByte? (b : UInt8) : Bytes → Option Bytes
  | c :: rest => if c = b then some rest else none
  | [] => none

/-- The number of days of a month. -/
def daysIn (year month : Nat) : Nat :=
  if month = 2 then
    if year % 4 = 0 ∧ (year % 100 ≠ 0 ∨ year % 400 = 0) then 29 else 28
  else if month = 4 ∨ month = 6 ∨ month = 9 ∨ month = 11 then 30
  else 31

/-- A date of the calendar. -/
def date? (text : Bytes) : Option Bytes := do
  let (year, rest) ← digits? 4 text
  let (month, rest) ← digits? 2 (← expectByte? (ascii '-') rest)
  let (day, rest) ← digits? 2 (← expectByte? (ascii '-') rest)
  if 1 ≤ month ∧ month ≤ 12 ∧ 1 ≤ day ∧ day ≤ daysIn year month then some rest else none

/-- An hour, of two digits or one. -/
def hour? (text : Bytes) : Option (Nat × Bytes) := digits? 2 text <|> digits? 1 text

/-- A fraction of a second, which may be missing. -/
def skipFraction (text : Bytes) : Bytes :=
  match text with
  | b :: c :: rest =>
    if b = ascii '.' ∧ isDecimal c then rest.dropWhile isDecimal else text
  | _ => text

/-- A time of day. -/
def time? (text : Bytes) : Option Bytes := do
  let (hour, rest) ← hour? text
  let (minute, rest) ← digits? 2 (← expectByte? (ascii ':') rest)
  let (second, rest) ← digits? 2 (← expectByte? (ascii ':') rest)
  if hour < 24 ∧ minute < 60 ∧ second < 60 then some (skipFraction rest) else none

/-- An offset from universal time, which may be missing. -/
def zone? (text : Bytes) : Option Bytes :=
  match text with
  | [] => some []
  | b :: rest =>
    if b = ascii 'Z' then some rest
    else if isSign b then do
      let (hours, rest) ← digits? 2 rest
      let (minutes, rest) ← digits? 2 (← expectByte? (ascii ':') rest)
      if hours ≤ 24 ∧ minutes ≤ 60 then some rest else none
    else none

/-- The standard spelling of a date and time: capital letters, and `T` between date and time. -/
def standardMoment (text : Bytes) : Bytes :=
  text.map fun b =>
    if b = ascii 't' ∨ b = space then ascii 'T' else if b = ascii 'z' then ascii 'Z' else b

/-- A date, a time, or both with or without an offset. -/
def isMoment (text : Bytes) : Bool :=
  let moment := standardMoment text
  let wholeDate := date? moment == some []
  let wholeTime := time? moment == some []
  let both := (do zone? (← time? (← expectByte? (ascii 'T') (← date? moment)))) == some []
  wholeDate || wholeTime || both

end YaccTables.Toml
