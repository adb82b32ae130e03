import YaccTables.Text.Letter
import YaccTables.Text.Trim

/-!
# Build constraints

A comment may tell on which systems a file is to be built: as an expression of tags, or in an older
form as lines of alternatives. `Constraint.ofComment?` reads both, `Constraint.render` writes the
first and `Constraint.lines?` the second.
-/

namespace YaccTables.Code

/-- An expression of tags. -/
inductive Constraint
  | tag (name : Bytes)
  | not (x : Constraint)
  | and (x y : Constraint)
  | or (x y : Constraint)
  deriving DecidableEq, Repr

namespace Constraint

/-! ## Recognising -/

/-- The text behind a word that a comment begins with, if white space or nothing follows the
word. -/
def behind? (word text : Bytes) : Option Bytes :=
  if word.isPrefixOf text then
    let rest := text.drop word.length
    let trimmed := Text.trim rest
    if rest.isEmpty || trimmed.length < rest.length then some trimmed else none
  else none

/-- The expression in a comment that holds one. -/
def expressionText? (comment : Bytes) : Option Bytes :=
  if (utf8 "//go:build").isPrefixOf comment then behind? (utf8 "//go:build") (Text.trim comment)
  else none

/-- The alternatives in a comment of the older form. -/
def alternativesText? (comment : Bytes) : Option Bytes :=
  if (utf8 "//").isPrefixOf comment then behind? (utf8 "+build") (Text.trim (comment.drop 2))
  else none

/-! ## Reading expressions -/

/-- What expressions are made of. -/
inductive Sign
  | opening
  | closing
  | not
  | and
  | or
  | tag (name : Bytes)
  deriving DecidableEq, Repr

/-- A piece of a tag. -/
def isTagPiece : Text.Piece → Bool
  | .scalar c => Text.isLetter c.toNat || Text.isDigit c.toNat || c == '_' || c == '.'
  | .stray _ => false

/-- The signs of a text, at most so many. -/
def signs? : Nat → List Text.Piece → Option (List Sign)
  | _, [] => some []
  | 0, _ => none
  | fuel + 1, .scalar c :: rest =>
    if c == ' ' || c == '\t' then signs? fuel rest
    else if c == '(' then (signs? fuel rest).map (.opening :: ·)
    else if c == ')' then (signs? fuel rest).map (.closing :: ·)
    else if c == '!' then (signs? fuel rest).map (.not :: ·)
    else if c == '&' || c == '|' then
      if rest.head? = some (.scalar c) then
        (signs? fuel rest.tail).map ((if c == '&' then Sign.and else .or) :: ·)
      else none
    else
      let tag := (Text.Piece.scalar c :: rest).takeWhile isTagPiece
      if tag.isEmpty then none
      else (signs? fuel (rest.drop (tag.length - 1))).map
        (.tag (tag.flatMap Text.Piece.bytes) :: ·)
  | _ + 1, .stray _ :: _ => none

/-- What has been read, what is left, and how many operands there were. -/
abbrev Reading := Option (Constraint × List Sign × Nat)

/-- At most this many operands make an expression. -/
def maxOperands : Nat := 1000

/-- A sequence of operands joined by a sign, at most so many, behind the first. -/
def joined (sign : Sign) (join : Constraint → Constraint → Constraint)
    (operand : List Sign → Nat → Reading) : Nat → Reading → Reading
  | 0, _ => none
  | fuel + 1, found => do
    let (x, rest, size) ← found
    match rest with
    | s :: rest =>
      if s = sign then
        let (y, rest, size) ← operand rest size
        joined sign join operand fuel (some (join x y, rest, size))
      else found
    | [] => found

/-- An expression, nested at most so deeply. -/
def expression? : Nat → List Sign → Nat → Reading
  | 0, _, _ => none
  | fuel + 1, signs, size =>
    let atom (signs : List Sign) (size : Nat) : Reading :=
      match signs with
      | .opening :: rest =>
        match expression? fuel rest size with
        | some (x, .closing :: rest, size) => some (x, rest, size)
        | _ => none
      | .tag name :: rest => some (.tag name, rest, size)
      | _ => none
    let negated (signs : List Sign) (size : Nat) : Reading :=
      if maxOperands ≤ size then none
      else match signs with
        | .not :: rest =>
          if rest.head? = some .not then none
          else (atom rest (size + 1)).map fun (x, rest, size) => (.not x, rest, size)
        | _ => atom signs (size + 1)
    let conjunction (signs : List Sign) (size : Nat) : Reading :=
      joined .and .and negated (signs.length + 1) (negated signs size)
    joined .or .or conjunction (signs.length + 1) (conjunction signs size)

/-- The expression that a text consists of. -/
def ofExpression? (text : Bytes) : Option Constraint := do
  let pieces := Text.pieces text
  let signs ← signs? (pieces.length + 1) pieces
  let (x, rest, _) ← expression? (signs.length + 1) signs 0
  if rest.isEmpty then some x else none

/-! ## Reading alternatives -/

/-- The tag that nothing satisfies. -/
def ignored : Constraint := .tag (utf8 "ignore")

/-- A tag, or the one that nothing satisfies in place of an unfit one. -/
def tagOf (name : Bytes) : Constraint :=
  if !name.isEmpty && (Text.pieces name).all isTagPiece then .tag name else ignored

/-- A tag that may be negated. -/
def literalOf (text : Bytes) : Constraint :=
  match text with
  | b :: rest =>
    if b ≠ ascii '!' then tagOf text
    else if rest.isEmpty || rest.head? == some (ascii '!') then ignored
    else .not (tagOf rest)
  | [] => ignored

/-- Joins constraints, if there are any. -/
def joinAll? (join : Constraint → Constraint → Constraint) : List Constraint → Option Constraint
  | [] => none
  | x :: rest => some (rest.foldl join x)

/-- At most this many signs join the tags of alternatives. -/
def maxJoins : Nat := 100

/-- The constraint of alternatives: words are alternatives of tags with commas between. -/
def ofAlternatives? (text : Bytes) : Option Constraint :=
  let clauses := (Text.words text).map fun word => (word.splitOn (ascii ',')).map literalOf
  let literals := (clauses.map List.length).foldl (· + ·) 0
  if maxJoins + 1 < literals then none
  else some ((joinAll? .or (clauses.filterMap (joinAll? .and))).getD ignored)

/-- The constraint in a comment. -/
def ofComment? (comment : Bytes) : Option Constraint :=
  match expressionText? comment with
  | some text => ofExpression? text
  | none => (alternativesText? comment).bind ofAlternatives?

/-! ## Writing -/

/-- A constraint as an expression. Different joints are kept apart by brackets. -/
def render : Constraint → Bytes
  | tag name => name
  | not x =>
    let text := x.render
    match x with
    | and .. | or .. => utf8 "!(" ++ text ++ utf8 ")"
    | _ => utf8 "!" ++ text
  | and x y =>
    let side (c : Constraint) (text : Bytes) : Bytes := match c with
      | or .. => utf8 "(" ++ text ++ utf8 ")"
      | _ => text
    side x x.render ++ utf8 " && " ++ side y y.render
  | or x y =>
    let side (c : Constraint) (text : Bytes) : Bytes := match c with
      | and .. => utf8 "(" ++ text ++ utf8 ")"
      | _ => text
    side x x.render ++ utf8 " || " ++ side y y.render

/-- A constraint, negated if `isNegated`, in which only tags are negated. -/
def pushNot (isNegated : Bool) : Constraint → Constraint
  | tag name => if isNegated then not (tag name) else tag name
  | not x => x.pushNot (!isNegated)
  | and x y =>
    let (x, y) := (x.pushNot isNegated, y.pushNot isNegated)
    if isNegated then or x y else and x y
  | or x y =>
    let (x, y) := (x.pushNot isNegated, y.pushNot isNegated)
    if isNegated then and x y else or x y

/-- The parts of a conjunction. -/
def conjuncts : Constraint → List Constraint
  | and x y => x.conjuncts ++ y.conjuncts
  | x => [x]

/-- The parts of an alternative. -/
def disjuncts : Constraint → List Constraint
  | or x y => x.disjuncts ++ y.disjuncts
  | x => [x]

/-- Whether a constraint is a tag or a negated tag. -/
def isLiteral : Constraint → Bool
  | tag _ | not _ => true
  | _ => false

/-- A line of alternatives. -/
def alternativesLine (alternatives : List (List Constraint)) : Bytes :=
  utf8 "// +build" ++ alternatives.flatMap fun literals =>
    space :: [ascii ','].intercalate (literals.map render)

/-- A constraint in the older form, if it is a conjunction of alternatives of conjunctions of tags.
Without alternatives one line holds it all. -/
def lines? (c : Constraint) : Option (List Bytes) :=
  let parts := ((c.pushNot false).conjuncts).map fun part => part.disjuncts.map conjuncts
  if !parts.all (·.all (·.all isLiteral)) then none
  else if parts.all (·.length == 1) then some [alternativesLine [parts.flatten.flatten]]
  else some (parts.map alternativesLine)

end Constraint

end YaccTables.Code
