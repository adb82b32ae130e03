import YaccTables.Bytes

/-!
Reading bytes as UTF-8. Every byte string splits into code points and stray bytes, where a byte is
stray if no shortest-form encoding of a Unicode scalar value starts at it.
-/

namespace YaccTables.Text

/-- A unit of text: a code point, or a byte that is part of none. -/
inductive Piece
  | scalar (c : Char)
  | stray (b : UInt8)
  deriving DecidableEq, Repr

/-- The bytes of a piece. -/
def Piece.bytes : Piece → Bytes
  | .scalar c => String.utf8EncodeChar c
  | .stray b => [b]

/-- A byte `10xxxxxx`, which continues a code point. -/
def isContinuation (b : UInt8) : Bool := 0x80 ≤ b && b ≤ 0xbf

/-- Two bytes that encode a code point. -/
def isPair (a b : UInt8) : Bool := 0xc2 ≤ a && a ≤ 0xdf && isContinuation b

/-- Three bytes that encode a code point: neither a longer form of a smaller one nor a surrogate. -/
def isTriple (a b c : UInt8) : Bool :=
  0xe0 ≤ a && a ≤ 0xef && isContinuation b && isContinuation c
    && (a != 0xe0 || 0xa0 ≤ b) && (a != 0xed || b ≤ 0x9f)

/-- Four bytes that encode a code point: neither a longer form of a smaller one nor above
U+10FFFF. -/
def isQuadruple (a b c d : UInt8) : Bool :=
  0xf0 ≤ a && a ≤ 0xf4 && isContinuation b && isContinuation c && isContinuation d
    && (a != 0xf0 || 0x90 ≤ b) && (a != 0xf4 || b ≤ 0x8f)

/-- The six payload bits of a continuation byte. -/
def payload (b : UInt8) : Nat := b.toNat % 64

/-- Splits a text into code points and stray bytes. -/
def pieces : Bytes → List Piece
  | [] => []
  | a :: rest =>
    if a < 0x80 then .scalar (Char.ofNat a.toNat) :: pieces rest
    else match rest with
      | [] => [.stray a]
      | b :: rest₁ =>
        if isPair a b then .scalar (Char.ofNat (a.toNat % 32 * 64 + payload b)) :: pieces rest₁
        else match rest₁ with
          | [] => .stray a :: pieces (b :: [])
          | c :: rest₂ =>
            if isTriple a b c then
              .scalar (Char.ofNat ((a.toNat % 16 * 64 + payload b) * 64 + payload c))
                :: pieces rest₂
            else match rest₂ with
              | [] => .stray a :: pieces (b :: c :: [])
              | d :: rest₃ =>
                if isQuadruple a b c d then
                  .scalar (Char.ofNat
                    (((a.toNat % 8 * 64 + payload b) * 64 + payload c) * 64 + payload d))
                    :: pieces rest₃
                else .stray a :: pieces (b :: c :: d :: rest₃)

/-- Text without stray bytes. -/
def isUtf8 (text : Bytes) : Bool :=
  (pieces text).all fun
    | .scalar _ => true
    | .stray _ => false

end YaccTables.Text
