import YaccTables.Proofs.Traversal
import YaccTables.Text.Utf8

/-!
# Code points and their bytes

A text is UTF-8 exactly if it is the encoding of some code points, and these are then the pieces
that it splits into (`scalars?_eq_some_iff`). Two facts make this up. A code point that was encoded
is found again, whatever stands behind it (`pieces_utf8EncodeChar`), and a text is nothing but the
bytes of its pieces (`flatMap_bytes_pieces`).

Both are arithmetic on the numbers of bytes, so that the tests of `pieces` are first put in terms of
these (`isPair_iff` and its siblings).
-/

namespace YaccTables.Text

/-! ## Bytes by their numbers -/

theorem lt_ascii_iff {a : UInt8} : a < 0x80 ↔ a.toNat < 128 := UInt8.lt_iff_toNat_lt

/-- The bytes that go on with a code point, by their numbers. -/
theorem isContinuation_iff {b : UInt8} :
    isContinuation b = true ↔ 128 ≤ b.toNat ∧ b.toNat ≤ 191 := by
  simp [isContinuation, UInt8.le_iff_toNat_le]

/-- Code points of two bytes, by the numbers of the bytes. -/
theorem isPair_iff {a b : UInt8} :
    isPair a b = true ↔ 194 ≤ a.toNat ∧ a.toNat ≤ 223 ∧ 128 ≤ b.toNat ∧ b.toNat ≤ 191 := by
  simp [isPair, isContinuation_iff, UInt8.le_iff_toNat_le, and_assoc]

/-- Code points of three bytes, without overlong forms and surrogates. -/
theorem isTriple_iff {a b c : UInt8} :
    isTriple a b c = true ↔ 224 ≤ a.toNat ∧ a.toNat ≤ 239 ∧ 128 ≤ b.toNat ∧ b.toNat ≤ 191 ∧
      128 ≤ c.toNat ∧ c.toNat ≤ 191 ∧ (a.toNat = 224 → 160 ≤ b.toNat) ∧
      (a.toNat = 237 → b.toNat ≤ 159) := by
  simp [isTriple, isContinuation_iff, UInt8.le_iff_toNat_le, ← UInt8.toNat_inj, and_assoc,
    imp_iff_not_or]

/-- Code points of four bytes, without overlong forms and what lies beyond U+10FFFF. -/
theorem isQuadruple_iff {a b c d : UInt8} :
    isQuadruple a b c d = true ↔ 240 ≤ a.toNat ∧ a.toNat ≤ 244 ∧ 128 ≤ b.toNat ∧ b.toNat ≤ 191 ∧
      128 ≤ c.toNat ∧ c.toNat ≤ 191 ∧ 128 ≤ d.toNat ∧ d.toNat ≤ 191 ∧
      (a.toNat = 240 → 144 ≤ b.toNat) ∧ (a.toNat = 244 → b.toNat ≤ 143) := by
  simp [isQuadruple, isContinuation_iff, UInt8.le_iff_toNat_le, ← UInt8.toNat_inj, and_assoc,
    imp_iff_not_or]

/-! ## The forms of one, two, three and four bytes -/

section Forms

variable {a b c d : UInt8} {rest : Bytes}

/-- A byte of ASCII is a piece of its own. -/
theorem pieces_single (ha : a.toNat < 128) :
    pieces (a :: rest) = .scalar (Char.ofNat a.toNat) :: pieces rest := by
  rw [pieces.eq_def]
  dsimp only
  rw [if_pos (lt_ascii_iff.mpr ha)]

/-- Two bytes that fit are one piece. -/
theorem pieces_pair (h : isPair a b = true) :
    pieces (a :: b :: rest) =
      .scalar (Char.ofNat (a.toNat % 32 * 64 + payload b)) :: pieces rest := by
  have hpair := isPair_iff.mp h
  rw [pieces.eq_def]
  dsimp only
  rw [if_neg (by rw [lt_ascii_iff]; omega), if_pos h]

/-- Three bytes that fit are one piece. -/
theorem pieces_triple (h : isTriple a b c = true) :
    pieces (a :: b :: c :: rest) =
      .scalar (Char.ofNat ((a.toNat % 16 * 64 + payload b) * 64 + payload c)) :: pieces rest := by
  have htriple := isTriple_iff.mp h
  rw [pieces.eq_def]
  dsimp only
  rw [if_neg (by rw [lt_ascii_iff]; omega), if_neg (by rw [isPair_iff]; omega), if_pos h]

/-- Four bytes that fit are one piece. -/
theorem pieces_quadruple (h : isQuadruple a b c d = true) :
    pieces (a :: b :: c :: d :: rest) =
      .scalar (Char.ofNat (((a.toNat % 8 * 64 + payload b) * 64 + payload c) * 64 + payload d))
        :: pieces rest := by
  have hquadruple := isQuadruple_iff.mp h
  rw [pieces.eq_def]
  dsimp only
  rw [if_neg (by rw [lt_ascii_iff]; omega), if_neg (by rw [isPair_iff]; omega),
    if_neg (by rw [isTriple_iff]; omega), if_pos h]

end Forms

/-! ## Encoding and splitting -/

theorem toNat_byte {n : Nat} (h : n < 256) : (UInt8.ofNat n).toNat = n :=
  UInt8.toNat_ofNat_of_lt' h

/-- The number of a code point is none of a surrogate. -/
theorem toNat_scalar (c : Char) :
    c.toNat < 0xd800 ∨ 0xdfff < c.toNat ∧ c.toNat < 0x110000 := c.valid

/-- An encoded code point is found again, whatever stands behind it. -/
theorem pieces_utf8EncodeChar (c : Char) (rest : Bytes) :
    pieces (String.utf8EncodeChar c ++ rest) = .scalar c :: pieces rest := by
  have hvalid := toNat_scalar c
  -- it is enough that the bytes have the form and give back the number
  have hscalar : ∀ {n : Nat}, n = c.toNat → Piece.scalar (Char.ofNat n) = .scalar c := by
    rintro n rfl
    rw [Char.ofNat_toNat]
  unfold String.utf8EncodeChar
  rw [show c.val.toNat = c.toNat from rfl]
  dsimp only
  split
  · have h₁ := toNat_byte (n := c.toNat) (by omega)
    rw [List.singleton_append, pieces_single (by omega), hscalar h₁]
  split
  · have h₁ := toNat_byte (n := c.toNat / 64 % 32 + 192) (by omega)
    have h₂ := toNat_byte (n := c.toNat % 64 + 128) (by omega)
    show pieces (_ :: _ :: rest) = _
    rw [pieces_pair (isPair_iff.mpr (by omega)), hscalar (by unfold payload; omega)]
  split
  · have h₁ := toNat_byte (n := c.toNat / 4096 % 16 + 224) (by omega)
    have h₂ := toNat_byte (n := c.toNat / 64 % 64 + 128) (by omega)
    have h₃ := toNat_byte (n := c.toNat % 64 + 128) (by omega)
    show pieces (_ :: _ :: _ :: rest) = _
    rw [pieces_triple (isTriple_iff.mpr (by omega)), hscalar (by unfold payload; omega)]
  · have h₁ := toNat_byte (n := c.toNat / 262144 % 8 + 240) (by omega)
    have h₂ := toNat_byte (n := c.toNat / 4096 % 64 + 128) (by omega)
    have h₃ := toNat_byte (n := c.toNat / 64 % 64 + 128) (by omega)
    have h₄ := toNat_byte (n := c.toNat % 64 + 128) (by omega)
    show pieces (_ :: _ :: _ :: _ :: rest) = _
    rw [pieces_quadruple (isQuadruple_iff.mpr (by omega)), hscalar (by unfold payload; omega)]

/-- A number in range that is none of a surrogate is that of its code point. -/
theorem toNat_ofNat {n : Nat} (h : n < 0xd800 ∨ 0xdfff < n ∧ n < 0x110000) :
    (Char.ofNat n).val.toNat = n := by
  have hvalid : n.isValidChar := h
  rw [Char.ofNat, dif_pos hvalid]
  rfl

theorem byte_eq {n : Nat} {b : UInt8} (h : n = b.toNat) : UInt8.ofNat n = b := by
  rw [h, UInt8.ofNat_toNat]

section Bytes

variable {a b c d : UInt8}

/-- The piece of a byte of ASCII is this byte. -/
theorem bytes_single (ha : a.toNat < 128) : (Piece.scalar (Char.ofNat a.toNat)).bytes = [a] := by
  have hn := toNat_ofNat (n := a.toNat) (by omega)
  rw [Piece.bytes, String.utf8EncodeChar]
  simp only [hn]
  rw [if_pos (by omega), UInt8.ofNat_toNat]

/-- The piece of two bytes is these two. -/
theorem bytes_pair (h : isPair a b = true) :
    (Piece.scalar (Char.ofNat (a.toNat % 32 * 64 + payload b))).bytes = [a, b] := by
  have hpair := isPair_iff.mp h
  have hn := toNat_ofNat (n := a.toNat % 32 * 64 + payload b) (by unfold payload; omega)
  rw [Piece.bytes, String.utf8EncodeChar]
  simp only [hn]
  unfold payload
  rw [if_neg (by omega), if_pos (by omega), byte_eq (b := a) (by omega),
    byte_eq (b := b) (by omega)]

/-- The piece of three bytes is these three. -/
theorem bytes_triple (h : isTriple a b c = true) :
    (Piece.scalar (Char.ofNat ((a.toNat % 16 * 64 + payload b) * 64 + payload c))).bytes
      = [a, b, c] := by
  have htriple := isTriple_iff.mp h
  have hn := toNat_ofNat (n := (a.toNat % 16 * 64 + payload b) * 64 + payload c)
    (by unfold payload; omega)
  rw [Piece.bytes, String.utf8EncodeChar]
  simp only [hn]
  unfold payload
  rw [if_neg (by omega), if_neg (by omega), if_pos (by omega), byte_eq (b := a) (by omega),
    byte_eq (b := b) (by omega), byte_eq (b := c) (by omega)]

/-- The piece of four bytes is these four. -/
theorem bytes_quadruple (h : isQuadruple a b c d = true) :
    (Piece.scalar (Char.ofNat
      (((a.toNat % 8 * 64 + payload b) * 64 + payload c) * 64 + payload d))).bytes
      = [a, b, c, d] := by
  have hquadruple := isQuadruple_iff.mp h
  have hn := toNat_ofNat (n := ((a.toNat % 8 * 64 + payload b) * 64 + payload c) * 64 + payload d)
    (by unfold payload; omega)
  rw [Piece.bytes, String.utf8EncodeChar]
  simp only [hn]
  unfold payload
  rw [if_neg (by omega), if_neg (by omega), if_neg (by omega), byte_eq (b := a) (by omega),
    byte_eq (b := b) (by omega), byte_eq (b := c) (by omega), byte_eq (b := d) (by omega)]

end Bytes

/-- A text is nothing but the bytes of its pieces. -/
theorem flatMap_bytes_pieces (text : Bytes) : (pieces text).flatMap Piece.bytes = text := by
  fun_induction pieces text with
  | case1 => rfl
  | case2 a rest ha ih => rw [List.flatMap_cons, ih, bytes_single (lt_ascii_iff.mp ha)]; rfl
  | case3 a ha => rfl
  | case4 a ha b rest hpair ih => rw [List.flatMap_cons, ih, bytes_pair hpair]; rfl
  | case5 a ha b hpair ih => rw [List.flatMap_cons, ih]; rfl
  | case6 a ha b hpair c rest htriple ih => rw [List.flatMap_cons, ih, bytes_triple htriple]; rfl
  | case7 a ha b hpair c htriple ih => rw [List.flatMap_cons, ih]; rfl
  | case8 a ha b hpair c htriple d rest hquadruple ih =>
    rw [List.flatMap_cons, ih, bytes_quadruple hquadruple]
    rfl
  | case9 a ha b hpair c htriple d rest hquadruple ih => rw [List.flatMap_cons, ih]; rfl

/-! ## Texts and lists of code points -/

/-- The bytes of code points. -/
def encode (cs : List Char) : Bytes := cs.flatMap String.utf8EncodeChar

/-- The code point that a piece is. -/
def Piece.scalar? : Piece → Option Char
  | .scalar c => some c
  | .stray _ => none

/-- The code points of a text, if it is UTF-8. -/
def scalars? (text : Bytes) : Option (List Char) := (pieces text).mapM Piece.scalar?

theorem encode_append (cs ds : List Char) : encode (cs ++ ds) = encode cs ++ encode ds :=
  List.flatMap_append

theorem utf8_eq_encode (s : String) : utf8 s = encode s.toList := rfl

/-- Encoded code points are split where they were put together. -/
theorem pieces_encode (cs : List Char) (rest : Bytes) :
    pieces (encode cs ++ rest) = cs.map .scalar ++ pieces rest := by
  induction cs with
  | nil => rfl
  | cons c cs ih =>
    rw [encode, List.flatMap_cons, List.append_assoc, pieces_utf8EncodeChar, ← encode, ih]
    rfl

/-- Pieces are all code points exactly if no byte is stray. -/
theorem mapM_scalar?_eq_some_iff {ps : List Piece} {cs : List Char} :
    ps.mapM Piece.scalar? = some cs ↔ ps = cs.map .scalar := by
  have hone : ∀ p c, Piece.scalar? p = some c ↔ p = .scalar c := by
    intro p c
    cases p with
    | scalar d =>
      exact ⟨fun h => congrArg _ (Option.some.inj h), fun h => congrArg _ (Piece.scalar.inj h)⟩
    | stray b => exact ⟨fun h => absurd h (by simp [Piece.scalar?]), fun h => absurd h (by simp)⟩
  simp only [mapM_eq_some_iff, hone]
  rw [← List.forall₂_map_right_iff (R := Eq), List.forall₂_eq_eq_eq]

/-- **A text is UTF-8 exactly if it encodes code points, and then it splits into these.** -/
theorem scalars?_eq_some_iff {text : Bytes} {cs : List Char} :
    scalars? text = some cs ↔ text = encode cs := by
  rw [scalars?, mapM_scalar?_eq_some_iff]
  constructor
  · intro h
    rw [← flatMap_bytes_pieces text, h, List.flatMap_map]
    rfl
  · rintro rfl
    have h := pieces_encode cs []
    rwa [List.append_nil, pieces, List.append_nil] at h

/-- UTF-8 is what code points are encoded as. -/
theorem isUtf8_iff {text : Bytes} : isUtf8 text = true ↔ ∃ cs, text = encode cs := by
  simp only [← scalars?_eq_some_iff, scalars?, mapM_scalar?_eq_some_iff, isUtf8]
  generalize pieces text = ps
  induction ps with
  | nil => exact ⟨fun _ => ⟨[], rfl⟩, fun _ => rfl⟩
  | cons p ps ih =>
    cases p with
    | stray b => simp [eq_comm, List.map_eq_cons_iff]
    | scalar c =>
      rw [List.all_cons, Bool.true_and, ih]
      constructor
      · rintro ⟨cs, rfl⟩
        exact ⟨c :: cs, rfl⟩
      · rintro ⟨cs, hcs⟩
        obtain ⟨-, rest, -, -, hrest⟩ := List.map_eq_cons_iff.mp hcs.symm
        exact ⟨rest, hrest.symm⟩

theorem isUtf8_utf8 (s : String) : isUtf8 (utf8 s) = true := isUtf8_iff.mpr ⟨s.toList, rfl⟩

/-- UTF-8 can be put together. -/
theorem isUtf8_append {x y : Bytes} (hx : isUtf8 x = true) (hy : isUtf8 y = true) :
    isUtf8 (x ++ y) = true := by
  obtain ⟨cs, rfl⟩ := isUtf8_iff.mp hx
  obtain ⟨ds, rfl⟩ := isUtf8_iff.mp hy
  exact isUtf8_iff.mpr ⟨cs ++ ds, (encode_append cs ds).symm⟩

end YaccTables.Text
