import YaccTables.ParseError

/-!
# Scanning

`TokenStream.ofText` cuts a text into tokens, leaving out blanks, line comments and block comments.
At each place the lexeme is the longest that any kind of token or gap allows.

Where none starts, the stream is stuck, and the engine that matches lexemes reports a failure. What
it reports is a parameter, `Scan.Engine`; `MatchFailure.flaw` makes a flaw of the text of it. The
engine that is used, `Scan.Engine.standard`, reports to have failed just behind the byte that no
longer fits.
-/

namespace YaccTables

/-- The tokens of a text, up to its end or to the first place where none starts. -/
inductive TokenStream
  /-- The end of the input, at the length of the text. -/
  | done (offset : Nat)
  /-- No token starts here. -/
  | stuck (flaw : Flaw)
  | next (token : Token) (rest : TokenStream)
  deriving DecidableEq, Repr

namespace TokenStream

/-- The number of tokens before the end. -/
def size : TokenStream → Nat
  | .next _ rest => rest.size + 1
  | _ => 0

/-- All tokens, the one that ends the input included if the stream gets there. -/
def tokens : TokenStream → List Token
  | .done offset => [.endAt offset]
  | .stuck _ => []
  | .next t rest => t :: rest.tokens

/-- The place where the stream is stuck. -/
def flaw? : TokenStream → Option Flaw
  | .done _ => none
  | .stuck flaw => some flaw
  | .next _ rest => rest.flaw?

end TokenStream

/-! ## Failures -/

/-- What an engine reports where no lexeme starts. -/
inductive MatchFailure
  /-- The input from `start` on is left over, and the automaton failed at `fail`. -/
  | unconsumed (start fail : Nat)
  /-- Anything else, in the words of the engine. -/
  | other (text : Bytes)
  deriving DecidableEq, Repr

/-- The flaw of a text of the given size that a failure is shown as. Input that is left over is
shown up to where the automaton failed, but at least a byte of it, and no more than there is. -/
def MatchFailure.flaw (size : Nat) : MatchFailure → Flaw
  | .unconsumed start fail =>
    let stop := if fail ≤ start then start + 1 else fail
    let stop := if size < stop then size else stop
    ⟨start, stop - start, .unexpectedInput⟩
  | .other text => ⟨size, 0, .scanFailed text⟩

/-- The flaw of an unconsumed rest is where this starts. -/
@[simp] theorem MatchFailure.flaw_unconsumed_offset (size start fail : Nat) :
    (flaw size (.unconsumed start fail)).offset = start := rfl

/-- Wherever the automaton failed, what is left over shows at least a byte and none beyond the
text. -/
theorem MatchFailure.unconsumed_len {size start : Nat} (fail : Nat) (h : start < size) :
    0 < (flaw size (.unconsumed start fail)).len ∧
      start + (flaw size (.unconsumed start fail)).len ≤ size := by
  grind [flaw]

namespace Scan

/-- What an engine reports where no lexeme starts, given how far its automaton went: up to the byte
that does not fit, or to the end of the text. -/
abbrev Engine := (start reached : Nat) → MatchFailure

/-- The engine that fails just behind the byte that does not fit, be there one or not. -/
def Engine.standard : Engine := fun start reached => .unconsumed start (reached + 1)

/-! ## Character classes -/

/-- Blank, tab, line feed or carriage return. -/
def isGap (b : UInt8) : Bool := b == space || b == tab || b == lineFeed || b == carriageReturn

/-- A letter or underscore: what a word starts with, and what a directive consists of. -/
def isWordStart (b : UInt8) : Bool := isAlpha b || b == ascii '_'

/-- A letter, digit, underscore or dot. -/
def isWordPart (b : UInt8) : Bool := isWordStart b || isDecimal b || b == ascii '.'

/-- A byte that may stand between two quotes of the given sort: neither that quote nor the end of a
line. -/
def isQuotable (mark b : UInt8) : Bool := b != mark && b != lineFeed && b != carriageReturn

/-! ## One step -/

/-- What starts at a place of a text. -/
inductive Step
  /-- A gap, blanks or a comment, of so many bytes beyond the first. -/
  | gap (more : Nat)
  /-- A token of so many bytes beyond the first. -/
  | token (kind : TokenKind) (more : Nat)
  /-- Nothing. The byte that does not fit comes after so many that do, or else the end. -/
  | stuck (fitting : Nat)
  deriving DecidableEq, Repr

/-- The number of bytes that a run of a class takes at the start of a text. -/
def run (p : UInt8 → Bool) (text : Bytes) : Nat := (text.takeWhile p).length

/-- The number of bytes through the first `*/`, if there is one. -/
def commentEnd? : Bytes → Option Nat
  | [] => none
  | b :: rest =>
    if b = ascii '*' ∧ rest.head? = some (ascii '/') then some 2
    else (commentEnd? rest).map (· + 1)

/-- What starts with a slash: a comment of either sort. -/
def slash (rest : Bytes) : Step :=
  match rest with
  | [] => .stuck 1
  | b :: body =>
    if b = ascii '/' then .gap (1 + run (· != lineFeed) body)
    else if b = ascii '*' then
      match commentEnd? body with
      | some n => .gap (1 + n)
      | none => .stuck (rest.length + 1)
    else .stuck 1

/-- What starts with a percent sign: the mark between sections or a directive. -/
def percent (rest : Bytes) : Step :=
  match rest with
  | [] => .stuck 1
  | b :: _ =>
    if b = ascii '%' then .token .sections 1
    else if isWordStart b then .token .directive (run isWordStart rest)
    else .stuck 1

/-- What starts with a quote: a quoted name, which ends on the same line. -/
def quotation (mark : UInt8) (rest : Bytes) : Step :=
  let n := run (isQuotable mark) rest
  if rest[n]? = some mark then .token .quoted (n + 1) else .stuck (n + 1)

/-- What starts with byte `b` before `rest`. -/
def step (b : UInt8) (rest : Bytes) : Step :=
  if isGap b then .gap (run isGap rest)
  else if isWordStart b then .token .identifier (run isWordPart rest)
  else if b = ascii '/' then slash rest
  else if b = ascii '%' then percent rest
  else if b = ascii '\'' ∨ b = ascii '"' then quotation b rest
  else if b = ascii ':' then .token .colon 0
  else if b = ascii '|' then .token .bar 0
  else if b = ascii ';' then .token .semicolon 0
  else .stuck 0

/-- The tokens of a text that starts at an offset, after `pending` bytes that belong to what came
before. -/
def stream (engine : Engine) (offset : Nat) : (pending : Nat) → Bytes → TokenStream
  | _, [] => .done offset
  | pending + 1, _ :: rest => stream engine (offset + 1) pending rest
  | 0, b :: rest =>
    match step b rest with
    | .gap more => stream engine (offset + 1) more rest
    | .token kind more =>
      .next ⟨kind, offset, b :: rest.take more⟩ (stream engine (offset + 1) more rest)
    | .stuck fitting =>
      .stuck ((engine offset (offset + fitting)).flaw (offset + (b :: rest).length))

end Scan

/-- The tokens of a text, with the failures of an engine. -/
def TokenStream.ofTextWith (engine : Scan.Engine) (text : Bytes) : TokenStream :=
  Scan.stream engine 0 0 text

/-- The tokens of a text. -/
def TokenStream.ofText (text : Bytes) : TokenStream := .ofTextWith .standard text

end YaccTables
