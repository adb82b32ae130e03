import YaccTables.Code.Constraint
import YaccTables.Code.Sheet

/-!
# The place of build constraints

Comments that hold build constraints are gathered before the package clause, however they are
spread over a sheet: behind the last empty line among the comments at its start, or at the first of
them if that comes earlier. One expression is written in standard form, with the older form below if
that was used.
-/

namespace YaccTables.Code.BuildLines

open Sheet

/-- The part of a sheet from an index through the end of the line. -/
def lineFrom (sheet : Bytes) (i : Nat) : Bytes :=
  let rest := sheet.drop i
  let line := rest.takeWhile (!isLineEnd ·)
  rest.take (line.length + 1)

/-- The text of the comment at an index. -/
def commentAt (sheet : Bytes) (i : Nat) : Bytes :=
  let rest := sheet.drop i
  let rest := if rest.head? = some literalMark then rest.drop 1 else rest
  rest.takeWhile fun b => !isLineEnd b && b != literalMark

/-- The index behind the last empty line among the comments that a sheet starts with, from one on;
`found` is the last so far. -/
def emptyLineEnd : Nat → Nat → Nat → Bytes → Nat
  | 0, _, found, _ => found
  | fuel + 1, i, found, sheet =>
    let blanks := (sheet.takeWhile fun b => b == space || b == tab).length
    let rest := sheet.drop blanks
    let isComment := rest.take 3 == literalMark :: utf8 "//" && 3 < rest.length
    let length := if isComment then (rest.takeWhile (!isLineEnd ·)).length else 0
    match rest.drop length with
    | b :: after =>
      if isLineEnd b then
        let i := i + blanks + length + 1
        emptyLineEnd fuel i (if isComment then found else i) after
      else found
    | [] => found

/-- A literal line. -/
def literalLine (text : Bytes) : Bytes := [literalMark] ++ text ++ [literalMark, lineFeed]

/-- The constraint that comments tell: one expression, or all lines of the older form together. -/
def constraint? (sheet : Bytes) (expressions alternatives : List Nat) : Option Constraint :=
  match expressions with
  | [] => (alternatives.mapM fun i => Constraint.ofComment? (commentAt sheet i)).bind
      (Constraint.joinAll? .and)
  | [i] => Constraint.ofComment? (commentAt sheet i)
  | _ => none

/-- The lines that tell a constraint. -/
def block (sheet : Bytes) (expressions alternatives : List Nat) : Bytes :=
  match constraint? sheet expressions alternatives with
  | none => (expressions ++ alternatives).flatMap (lineFrom sheet) ++ [lineFeed]
  | some c =>
    let older := match alternatives, c.lines? with
      | [], _ => []
      | _, some lines => lines
      | _, none => [utf8 "// +build error: expression too complex for // +build lines"]
    literalLine (utf8 "//go:build " ++ c.render) ++ older.flatMap literalLine ++ [lineFeed]

/-- Whether a text ends with an empty line. -/
def endsEmpty (text : Bytes) : Bool :=
  match text.reverse with
  | a :: b :: _ => isLineEnd a && isLineEnd b
  | _ => false

/-- Two texts behind each other, without two empty lines between. -/
def appendLines (before after : Bytes) : Bytes :=
  match after with
  | b :: rest =>
    if isLineEnd b && (before.isEmpty || endsEmpty before) then before ++ rest else before ++ after
  | [] => before

/-- A sheet from an index on without the lines at some indices. -/
def withoutLines (sheet : Bytes) : Nat → Bytes → List Nat → Bytes
  | start, kept, [] => appendLines kept (sheet.drop start)
  | start, kept, i :: rest =>
    if i < start then withoutLines sheet start kept rest
    else
      withoutLines sheet (i + (lineFrom sheet i).length)
        (appendLines kept ((sheet.take i).drop start)) rest

/-- A sheet with its constraints gathered. The indices are those of comments that hold expressions
and of comments of the older form. -/
def gathered (sheet : Bytes) (expressions alternatives : List Nat) : Bytes :=
  if expressions.isEmpty && alternatives.isEmpty then sheet
  else
    let latest := emptyLineEnd (sheet.length + 1) 0 0 sheet
    let insert := match expressions, alternatives with
      | i :: _, [] => min i latest
      | i :: _, j :: _ => if i < latest then i else min j latest
      | [], j :: _ => min j latest
      | [], [] => latest
    let indices := (expressions ++ alternatives).mergeSort (fun a b => decide (a ≤ b))
    let after := withoutLines sheet insert [] indices
    let after := if endsEmpty after then after.dropLast else after
    sheet.take insert ++ block sheet expressions alternatives ++ after

end YaccTables.Code.BuildLines
