import YaccTables.Bytes

/-!
# Printed trees

An outline is a tree of texts. It prints one node per line, children under their parent behind
drawn branches:

```text
grammar validation failed
├── rule(a) - reference to undefined rule 'b'
└── duplicate token 'x'
```
-/

namespace YaccTables

/-- A text with outlines under it. -/
inductive Outline
  | node (text : Bytes) (items : List Outline)
  deriving Repr

namespace Outline

/-- The text of the root. -/
def text : Outline → Bytes
  | .node text _ => text

/-- The outlines directly under the root. -/
def items : Outline → List Outline
  | .node _ items => items

/-- A node with nothing under it. -/
def leaf (text : Bytes) : Outline := .node text []

/-- What leads to the first line of a child. -/
def fork (last : Bool) : Bytes := utf8 (if last then "└── " else "├── ")

/-- What leads to the other lines of a child and to all that is under it. -/
def indent (last : Bool) : Bytes := utf8 (if last then "    " else "│   ")

/-- The lines of a child's own text, those after the first kept under it. -/
def textLines (lead : Bytes) (last : Bool) (text : Bytes) : Bytes :=
  match lines text with
  | [] => []
  | first :: more =>
    lead ++ fork last ++ first ++ [lineFeed]
      ++ more.flatMap fun line => lead ++ indent last ++ line ++ [lineFeed]

mutual

/-- A child and all that is under it, behind the branches `lead` of its ancestors. -/
def branch (lead : Bytes) (last : Bool) : Outline → Bytes
  | .node text items => textLines lead last text ++ branches (lead ++ indent last) items

/-- Several children, the last of them drawn as the last. -/
def branches (lead : Bytes) : List Outline → Bytes
  | [] => []
  | item :: rest => branch lead rest.isEmpty item ++ branches lead rest

end

/-- The printed outline. -/
def print : Outline → Bytes
  | .node text items => text ++ [lineFeed] ++ branches [] items

end Outline

end YaccTables
