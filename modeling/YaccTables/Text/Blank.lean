import YaccTables.Text.Ranges

/-!
White space in the sense of the Unicode property of that name.
-/

namespace YaccTables.Text

/-- The white-space code points. -/
def blankRanges : Ranges := [
    (0x9, 0xd), (0x20, 0x20), (0x85, 0x85), (0xa0, 0xa0), (0x1680, 0x1680), (0x2000, 0x200a),
    (0x2028, 0x2029), (0x202f, 0x202f), (0x205f, 0x205f), (0x3000, 0x3000)]

/-- White space of any script. -/
def isBlank (c : Nat) : Bool := blankRanges.contains c

end YaccTables.Text
