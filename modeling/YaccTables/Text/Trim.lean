import YaccTables.Text.Blank
import YaccTables.Text.Utf8

/-!
White space at the ends of a text and between its words.
-/

namespace YaccTables.Text

/-- A piece that is white space. -/
def Piece.isBlank : Piece → Bool
  | .scalar c => Text.isBlank c.toNat
  | .stray _ => false

/-- A text without the white space that it begins with. -/
def trimStart (text : Bytes) : Bytes :=
  ((pieces text).dropWhile Piece.isBlank).flatMap Piece.bytes

/-- A text without the white space that it ends with. -/
def trimEnd (text : Bytes) : Bytes :=
  ((pieces text).reverse.dropWhile Piece.isBlank).reverse.flatMap Piece.bytes

/-- A text without the white space at its ends. -/
def trim (text : Bytes) : Bytes := trimEnd (trimStart text)

/-- The words of a text, which are parted by white space. -/
def words (text : Bytes) : List Bytes :=
  (((pieces text).splitOnP Piece.isBlank).filter (!·.isEmpty)).map (·.flatMap Piece.bytes)

end YaccTables.Text
