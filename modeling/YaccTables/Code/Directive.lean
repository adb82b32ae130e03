import YaccTables.Code.Lexeme

/-!
# Line directives

A comment that begins with the word `line` and ends with a colon and a number tells from where the
text after it was taken. Nothing is done with what it tells, but a directive that tells it wrongly
spoils the file.
-/

namespace YaccTables.Code

/-- The largest line or column that may be told. -/
def maxDirectiveNumber : Nat := 1 <<< 30

/-- A number below 2^64 in decimal digits. -/
def unsigned? (text : Bytes) : Option Nat :=
  if text.isEmpty ∨ !text.all isDecimal then none
  else
    let n := text.foldl (fun n b => n * 10 + (b.toNat - 48)) 0
    if n < 1 <<< 64 then some n else none

/-- The text before the last colon and the text after it. -/
def splitLastColon? (text : Bytes) : Option (Bytes × Bytes) :=
  let reversed := text.reverse
  let after := reversed.takeWhile (· != ascii ':')
  if after.length < text.length then
    some ((reversed.drop (after.length + 1)).reverse, after.reverse)
  else none

/-- A line or column that may be told. Numbers from 2^63 on pass as well. -/
def isDirectiveNumber (n : Nat) : Bool :=
  (1 ≤ n && n ≤ maxDirectiveNumber) || 1 <<< 63 ≤ n

/-- Whether a directive is sound: the line, and the column if there is one, may be told. Text
without a colon is no directive, and sound. -/
def isSoundDirective (text : Bytes) : Bool :=
  match splitLastColon? text with
  | none => true
  | some (before, after) =>
    match unsigned? after with
    | none => false
    | some n =>
      match (splitLastColon? before).bind fun (_, line) => unsigned? line with
      | some line => isDirectiveNumber n && isDirectiveNumber line
      | none => isDirectiveNumber n

/-- Whether a comment, given with its marks, is no unsound directive. Between marks a directive may
stand anywhere, else only at the start of a line. -/
def isSoundComment (isBlock atLineStart : Bool) (text : Bytes) : Bool :=
  if (utf8 "line ").isPrefixOf (text.drop 2) && (isBlock || atLineStart) then
    isSoundDirective (if isBlock then (text.drop 7).dropLast.dropLast else text.drop 7)
  else true

end YaccTables.Code
