import YaccTables.Tables
import YaccTables.Text.Utf8

/-!
# Tables as JSON

Tables are written as an indented JSON object. Texts are escaped so that they can also stand in a
web page; a byte that is part of no code point becomes U+FFFD. A precedence that is empty is left
out.
-/

namespace YaccTables

/-- A JSON value of the sorts that tables need. -/
inductive JsonValue
  | bool (b : Bool)
  | number (n : Int)
  | text (t : Bytes)
  | array (items : List JsonValue)
  | object (fields : List (String × JsonValue))

namespace JsonValue

/-- A piece of text within a JSON text. -/
def escapePiece : Text.Piece → Bytes
  | .stray _ => String.utf8EncodeChar '\ufffd'
  | .scalar c =>
    match c.toNat with
    | 0x22 => utf8 "\\\""
    | 0x5c => utf8 "\\\\"
    | 0x08 => utf8 "\\b"
    | 0x0c => utf8 "\\f"
    | 0x0a => utf8 "\\n"
    | 0x0d => utf8 "\\r"
    | 0x09 => utf8 "\\t"
    | n =>
      if n < 0x20 || n == 0x3c || n == 0x3e || n == 0x26 || n == 0x2028 || n == 0x2029 then
        utf8 "\\u" ++ hexadecimal 4 n
      else String.utf8EncodeChar c

/-- A text as a JSON text. -/
def quoted (text : Bytes) : Bytes :=
  utf8 "\"" ++ (Text.pieces text).flatMap escapePiece ++ utf8 "\""

/-- A new line at a depth of nesting, two blanks for each level. -/
def newLine (depth : Nat) : Bytes := lineFeed :: List.replicate (2 * depth) space

/-- Written values between two brackets, each on a line of its own; nothing between them if there
are none. -/
def enclosed (opening closing : String) (depth : Nat) (items : List Bytes) : Bytes :=
  if items.isEmpty then utf8 opening ++ utf8 closing
  else utf8 opening ++ newLine (depth + 1)
    ++ (utf8 "," ++ newLine (depth + 1)).intercalate items ++ newLine depth ++ utf8 closing

mutual

/-- A value as indented JSON at a depth of nesting. -/
def render (depth : Nat) : JsonValue → Bytes
  | .bool b => utf8 (if b then "true" else "false")
  | .number n => decimalInt n
  | .text t => quoted t
  | .array items => enclosed "[" "]" depth (renderItems (depth + 1) items)
  | .object fields => enclosed "\x7b" "\x7d" depth (renderFields (depth + 1) fields)

/-- The items of an array. -/
def renderItems (depth : Nat) : List JsonValue → List Bytes
  | [] => []
  | item :: rest => render depth item :: renderItems depth rest

/-- The fields of an object. -/
def renderFields (depth : Nat) : List (String × JsonValue) → List Bytes
  | [] => []
  | (name, value) :: rest =>
    (quoted (utf8 name) ++ utf8 ": " ++ render depth value) :: renderFields depth rest

end

end JsonValue

namespace Tables

open JsonValue

/-- A field for a precedence, left out if there is none. -/
def precField (prec : Bytes) : List (String × JsonValue) :=
  if prec = [] then [] else [("prec", .text prec)]

/-- A number of an index. -/
def indexValue (n : Nat) : JsonValue := .number n

/-- The tables as a JSON value. -/
def toJson (t : Tables) : JsonValue :=
  .object [
    ("kind", .text t.kind),
    ("nonterminals", .array (t.nonterminals.map fun n =>
      .object [("name", .text n.name), ("prods", .array (n.prods.map indexValue))])),
    ("terminals", .array (t.terminals.map fun e =>
      .object (("name", .text e.name) :: precField e.prec))),
    ("productions", .array (t.productions.map fun p =>
      .object ([("rule", indexValue p.rule),
        ("symbols", .array (p.symbols.map fun s =>
          .object [("term", .bool s.isTerminal), ("idx", indexValue s.index)]))]
        ++ precField p.prec))),
    ("start_prod", indexValue t.startProd),
    ("end_term", indexValue t.endTerm),
    ("implicit_nonterm", .number t.implicitNonterm)]

/-- The tables as JSON text. -/
def jsonText (t : Tables) : Bytes := t.toJson.render 0 ++ [lineFeed]

end Tables

end YaccTables
