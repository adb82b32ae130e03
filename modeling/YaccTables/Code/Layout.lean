import YaccTables.Code.Imports
import YaccTables.Code.Writing.Files

/-!
# Standard layout

`layout?` writes a text of Go source the way it is laid out by convention. A text without a package
clause is taken for declarations, or else for statements: then only these are laid out, and the
white space around them stays.
-/

namespace YaccTables.Code

/-- What a text without a package clause is taken for. -/
inductive Fragment
  | declarations
  | statements
  deriving DecidableEq, Repr

namespace Fragment

/-- What goes before a fragment in a file that holds it. -/
def opening : Fragment → Bytes
  | declarations => utf8 "package p;"
  | statements => utf8 "package p; func _() \x7b"

/-- What goes behind it. -/
def closing : Fragment → Bytes
  | declarations => []
  | statements => utf8 "\n\n\x7d"

/-- How much less a fragment is indented than in the file. -/
def outdent : Fragment → Int
  | declarations => 0
  | statements => 1

/-- How much the file that holds a fragment has before it in standard layout, each of its lines
indented. -/
def openingSize (indent : Int) : Fragment → Nat
  | declarations => indent.toNat + (utf8 "package p\n").length
  | statements => 2 * indent.toNat + (utf8 "package p\n\nfunc _() \x7b").length

/-- How much such a file has behind it. -/
def closingSize : Fragment → Nat
  | declarations => 0
  | statements => (utf8 "\x7d\n").length

/-- The file that holds a fragment. -/
def read (f : Fragment) (text : Bytes) : Except Fault ParsedFile :=
  ParsedFile.read (f.opening ++ text ++ f.closing)

/-- Bytes that are white space around a fragment. -/
def isSpace (b : UInt8) : Bool := [space, tab, lineFeed, carriageReturn].contains b

/-- How far the first line is indented by its white space: blanks count only if there are no
tabs. -/
def indentOf (margin : Bytes) : Nat :=
  if margin.contains tab then margin.count tab else if margin.contains space then 1 else 0

/-- A fragment in standard layout, between the white space of the text. -/
def layout (f : Fragment) (text : Bytes) (file : ParsedFile) : Bytes :=
  let start := text.takeWhile isSpace
  let margin := (start.reverse.takeWhile (· != lineFeed)).reverse
  let indent := indentOf margin
  let baseIndent : Int := indent - f.outdent
  let written := (file.render baseIndent).drop (f.openingSize baseIndent)
  let inside := Text.trim (written.take (written.length - f.closingSize))
  if inside.isEmpty then text
  else start.take (start.length - margin.length) ++ List.replicate indent tab ++ inside
    ++ (text.reverse.takeWhile isSpace).reverse

end Fragment

/-- A text in standard layout, if it is well-formed. -/
def layout? (text : Bytes) : Option Bytes :=
  match ParsedFile.read text with
  | .ok file => some (file.sortImports.render 0)
  | .error .package =>
    match Fragment.declarations.read text with
    | .ok file => some (Fragment.declarations.layout text file)
    | .error .declaration =>
      match Fragment.statements.read text with
      | .ok file => some (Fragment.statements.layout text file)
      | .error _ => none
    | .error _ => none
  | .error _ => none

end YaccTables.Code
