import YaccTables.Text.Graphic
import YaccTables.Text.Utf8

/-!
Quoted text. A text is shown between double quotes with every code point that does not print
replaced by an escape, so that a quoted text stays on one line and can be read back.
-/

namespace YaccTables.Text

/-- The escape that stands for a code point: a letter for the seven control characters that have
one, else two, four or eight hexadecimal digits. -/
def escapePoint (n : Nat) : Bytes :=
  match n with
  | 7 => utf8 "\\a"
  | 8 => utf8 "\\b"
  | 12 => utf8 "\\f"
  | 10 => utf8 "\\n"
  | 13 => utf8 "\\r"
  | 9 => utf8 "\\t"
  | 11 => utf8 "\\v"
  | _ =>
    if n < 0x20 || n == 0x7f then utf8 "\\x" ++ hexadecimal 2 n
    else if n < 0x10000 then utf8 "\\u" ++ hexadecimal 4 n
    else utf8 "\\U" ++ hexadecimal 8 n

/-- A piece of text as it stands between double quotes. -/
def quotePiece : Piece → Bytes
  | .scalar c =>
    if c == '"' || c == '\\' then utf8 "\\" ++ String.utf8EncodeChar c
    else if isPrintable c.toNat then String.utf8EncodeChar c
    else escapePoint c.toNat
  | .stray b => utf8 "\\x" ++ hexadecimal 2 b.toNat

/-- A text between double quotes. -/
def quote (text : Bytes) : Bytes := utf8 "\"" ++ (pieces text).flatMap quotePiece ++ utf8 "\""

end YaccTables.Text
