import YaccTables.Bytes

/-!
# Spans of a source text

A span is a byte range of a source text. It remembers the whole text, so that a diagnostic can
report line, column and the surrounding lines. Ranges are cut without looking at the text; only
reading a span (`text?`, `position?`, `context?`) asks whether it lies within its source, and
answers `none` if it does not. A span that belongs to no source reads as empty everywhere.
-/

namespace YaccTables

/-- A text under a name. -/
structure Source where
  text : Bytes
  file : Bytes := []
  deriving DecidableEq, Repr

/-- A byte range of a source: `len` bytes from offset `start`. Both are signed 64-bit numbers. -/
structure Span where
  source : Option Source := none
  start : Int := 0
  len : Int := 0
  deriving DecidableEq, Repr

/-- The signed 64-bit number that agrees with `n` modulo 2^64. -/
def word64 (n : Int) : Int := Int.bmod n 0x10000000000000000

namespace Span

/-- The span of a whole source. -/
def whole (source : Source) : Span := ⟨some source, 0, source.text.length⟩

/-- The name of the source, empty if there is none. -/
def file (s : Span) : Bytes := (s.source.map Source.file).getD []

/-- The part between two offsets relative to the span. -/
def slice (s : Span) (a b : Int) : Span := ⟨s.source, word64 (s.start + a), word64 (b - a)⟩

/-- What is left after the first bytes. -/
def skip (s : Span) (n : Int) : Span := s.slice n s.len

/-- The empty span just past this one. -/
def after (s : Span) : Span := s.skip s.len

/-- The offset just past the span. -/
def stop (s : Span) : Int := word64 (s.start + s.len)

/-- An offset as a number of bytes of the text, if the text is that long. -/
def offsetIn? (text : Bytes) (offset : Int) : Option Nat :=
  if 0 ≤ offset ∧ offset ≤ text.length then some offset.toNat else none

/-- The bytes before and after an in-range span of a text, and its own, in source order. -/
def cut? (text : Bytes) (s : Span) : Option (Bytes × Bytes × Bytes) := do
  let start ← offsetIn? text s.start
  let stop ← offsetIn? text s.stop
  if start ≤ stop then
    some (text.take start, (text.drop start).take (stop - start), text.drop stop)
  else none

/-- The bytes of the span, if it lies within its source. -/
def text? (s : Span) : Option Bytes :=
  match s.source with
  | none => some []
  | some source => (cut? source.text s).map fun (_, inside, _) => inside

/-- Line and column after some bytes of a text, given those at its start. -/
def positionFrom (line col : Nat) : Nat → Bytes → Nat × Nat
  | 0, _ => (line, col)
  | _ + 1, [] => (line, col)
  | n + 1, b :: rest =>
    if b = lineFeed then positionFrom (line + 1) 1 n rest else positionFrom line (col + 1) n rest

/-- Line and column at an offset of a text, both counted from one, the column in bytes. -/
def positionAt (text : Bytes) (offset : Nat) : Nat × Nat := positionFrom 1 1 offset text

/-- Line and column of the start of the span, `(0, 0)` if it has no source. -/
def position? (s : Span) : Option (Nat × Nat) :=
  match s.source with
  | none => some (0, 0)
  | some source => (offsetIn? source.text s.start).map (positionAt source.text)

/-- At most the last `limit` lines of a text. -/
def lastLines (limit : Nat) (text : Bytes) : Bytes :=
  let parts := lines text
  joinLines (parts.drop (parts.length - limit))

/-- At most the first `limit` lines of a text. -/
def firstLines (limit : Nat) (text : Bytes) : Bytes := joinLines ((lines text).take limit)

/-- The limit that shows all of the source. -/
def noLimit : Int := -1

/-- The limit used in diagnostics: only what shares a line with the span. -/
def defaultLimit : Int := 1

/-- The text above a span that a limit leaves visible. No limit but `noLimit` is negative. -/
def above? (limit : Int) (before : Bytes) : Option Bytes :=
  if limit = noLimit then some before
  else if limit < 0 then none
  else some (lastLines limit.toNat before)

/-- The text below a span that a limit leaves visible. -/
def below? (limit : Int) (behind : Bytes) : Option Bytes :=
  if limit = noLimit then some behind
  else if limit < 0 then none
  else some (firstLines limit.toNat behind)

/-- The `file:line:col:` heading of a context, in bold white. -/
def heading (file : Bytes) (line col : Nat) : Bytes :=
  utf8 "\n\x1b[1;37m" ++ file ++ utf8 ":" ++ decimal line ++ utf8 ":" ++ decimal col
    ++ utf8 ":\x1b[0m\n"

/-- The span in bold red between at most `limit` lines of source on either side, under a heading.
The line that the span starts in and the line that it ends in count as lines of their side. -/
def context? (s : Span) (limit : Int) : Option Bytes :=
  match s.source with
  | none => some []
  | some source => do
    let (before, inside, behind) ← cut? source.text s
    let above ← above? limit before
    let below ← below? limit behind
    let (line, col) ← s.position?
    some (heading source.file line col ++ above ++ utf8 "\x1b[1;31m" ++ inside
      ++ utf8 "\x1b[0m" ++ below)

end Span

end YaccTables
