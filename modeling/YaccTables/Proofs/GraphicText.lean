import YaccTables.Proofs.Literals

/-!
# Texts of graphic code points

`GraphicText` is what a comment may hold without harm: UTF-8 of graphic code points only. It says
nothing of how a text is split into pieces, only what encodes to it.

`commentTextWith` brings any bytes into that form. A graphic code point stays, and what takes the
place of anything else is graphic itself: the replacement character, or an escape in printable ASCII
(`graphicText_commentPiece`). So the graphic texts are those that it leaves as they are
(`commentTextWith_eq_self_iff`), and making a text fit twice does nothing more.

Which code points are graphic depends on the version of Unicode. Nothing here does: the results hold
for every table that is an `IsGraphicTable`, and `commentText_normalForm` is the case of the table
at hand.
-/

namespace YaccTables

open Text

/-- UTF-8 that is made of graphic code points. -/
def GraphicText (isGraphic : Nat → Bool) (text : Bytes) : Prop :=
  ∃ cs, text = encode cs ∧ ∀ c ∈ cs, isGraphic c.toNat = true

section Tables

variable {isGraphic : Nat → Bool}

namespace GraphicText

variable {x y : Bytes}

theorem isUtf8 (h : GraphicText isGraphic x) : Text.isUtf8 x = true := by
  obtain ⟨cs, hx, -⟩ := h
  exact isUtf8_iff.mpr ⟨cs, hx⟩

/-- Graphic texts can be put together. -/
theorem append (hx : GraphicText isGraphic x) (hy : GraphicText isGraphic y) :
    GraphicText isGraphic (x ++ y) := by
  obtain ⟨cs, rfl, hcs⟩ := hx
  obtain ⟨ds, rfl, hds⟩ := hy
  refine ⟨cs ++ ds, (encode_append cs ds).symm, ?_⟩
  intro c hc
  rcases List.mem_append.mp hc with hc | hc
  · exact hcs c hc
  · exact hds c hc

/-- Graphic texts can be put together piece by piece. -/
theorem flatMap {α : Type} {xs : List α} {f : α → Bytes}
    (h : ∀ a ∈ xs, GraphicText isGraphic (f a)) : GraphicText isGraphic (xs.flatMap f) := by
  induction xs with
  | nil => exact ⟨[], rfl, by simp⟩
  | cons a xs ih =>
    obtain ⟨ha, hxs⟩ := List.forall_mem_cons.mp h
    exact ha.append (ih hxs)

/-- A graphic code point makes a graphic text. -/
theorem char {c : Char} (h : isGraphic c.toNat = true) :
    GraphicText isGraphic (String.utf8EncodeChar c) :=
  ⟨[c], by simp [encode], by simpa using h⟩

/-- A code point that is not graphic is none of the pieces. -/
theorem scalar_notMem (h : GraphicText isGraphic x) {c : Char} (hc : isGraphic c.toNat = false) :
    Piece.scalar c ∉ pieces x := by
  obtain ⟨cs, rfl, hcs⟩ := h
  have hpieces : pieces (encode cs) = cs.map .scalar :=
    mapM_scalar?_eq_some_iff.mp (scalars?_eq_some_iff.mpr rfl)
  rw [hpieces]
  intro hmem
  obtain ⟨d, hd, heq⟩ := List.mem_map.mp hmem
  obtain rfl := Piece.scalar.inj heq
  rw [hcs d hd] at hc
  exact absurd hc (by decide)

end GraphicText

/-! ## Printable ASCII -/

/-- Printable ASCII is graphic. -/
theorem graphicText_of_isPlain (htable : IsGraphicTable isGraphic) {text : Bytes}
    (h : isPlain text = true) : GraphicText isGraphic text := by
  rw [← List.flatMap_singleton' text]
  refine .flatMap fun b hb => ?_
  have hbounds := bounds_of_isPlain h hb
  -- a byte of ASCII is the code point of the same number
  have hnumber : (Char.ofNat b.toNat).toNat = b.toNat := toNat_ofNat (by omega)
  have hbyte : String.utf8EncodeChar (Char.ofNat b.toNat) = [b] := bytes_single (by omega)
  rw [← hbyte]
  apply GraphicText.char
  rw [hnumber]
  exact htable.printable b.toNat hbounds.1 hbounds.2

/-! ## Text fit for a comment -/

/-- Every piece is graphic once it is fit for a comment. -/
theorem graphicText_commentPiece (htable : IsGraphicTable isGraphic) (p : Piece) :
    GraphicText isGraphic (commentPiece isGraphic p) := by
  cases p with
  | stray b => exact .char (show isGraphic '\ufffd'.toNat = true from htable.replacement)
  | scalar c =>
    rw [commentPiece]
    split
    · rename_i hgraphic
      exact .char hgraphic
    · exact graphicText_of_isPlain htable (isPlain_escapePoint c.toNat)

/-- What is fit for a comment is graphic. -/
theorem graphicText_commentTextWith (htable : IsGraphicTable isGraphic) (text : Bytes) :
    GraphicText isGraphic (commentTextWith isGraphic text) :=
  .flatMap fun p _ => graphicText_commentPiece htable p

/-- Code points in front of a text are made fit one by one, whatever the text is. -/
theorem commentTextWith_encode_append (isGraphic : Nat → Bool) (cs : List Char) (rest : Bytes) :
    commentTextWith isGraphic (encode cs ++ rest)
      = cs.flatMap (fun c => commentPiece isGraphic (.scalar c))
        ++ commentTextWith isGraphic rest := by
  unfold commentTextWith
  rw [pieces_encode, List.flatMap_append, List.flatMap_map]

theorem commentTextWith_encode (isGraphic : Nat → Bool) (cs : List Char) :
    commentTextWith isGraphic (encode cs)
      = cs.flatMap fun c => commentPiece isGraphic (.scalar c) := by
  have h := commentTextWith_encode_append isGraphic cs []
  rwa [List.append_nil, show commentTextWith isGraphic [] = [] from rfl, List.append_nil] at h

/-- A text can be made fit in parts, cut where a code point ends. -/
theorem commentTextWith_append (isGraphic : Nat → Bool) {x : Bytes} (hx : Text.isUtf8 x = true)
    (rest : Bytes) : commentTextWith isGraphic (x ++ rest)
      = commentTextWith isGraphic x ++ commentTextWith isGraphic rest := by
  obtain ⟨cs, rfl⟩ := isUtf8_iff.mp hx
  rw [commentTextWith_encode_append, commentTextWith_encode]

/-- Graphic text stays as it is, and no other does. -/
theorem commentTextWith_eq_self_iff (htable : IsGraphicTable isGraphic) {text : Bytes} :
    commentTextWith isGraphic text = text ↔ GraphicText isGraphic text := by
  constructor
  · intro h
    exact h ▸ graphicText_commentTextWith htable text
  · rintro ⟨cs, rfl, hcs⟩
    rw [commentTextWith_encode]
    apply List.flatMap_congr
    intro c hc
    exact if_pos (hcs c hc)

/-- What ends a line, a text or a file is not graphic. -/
theorem IsGraphicTable.isGraphic_mark (htable : IsGraphicTable isGraphic) {c : Char}
    (hc : c ∈ ['\n', '\r', '\x00', '\ufeff']) : isGraphic c.toNat = false := by
  simp only [List.mem_cons, List.not_mem_nil, or_false] at hc
  rcases hc with rfl | rfl | rfl | rfl
  · exact htable.control _ (by decide)
  · exact htable.control _ (by decide)
  · exact htable.control _ (by decide)
  · exact htable.byteOrderMark

/-- Text fit for a comment is a normal form by every table of graphic code points. -/
theorem commentTextWith_normalForm (htable : IsGraphicTable isGraphic) (text : Bytes) :
    Text.isUtf8 (commentTextWith isGraphic text) = true ∧
      GraphicText isGraphic (commentTextWith isGraphic text) ∧
      (∀ c ∈ ['\n', '\r', '\x00', '\ufeff'],
        Piece.scalar c ∉ pieces (commentTextWith isGraphic text)) ∧
      (commentTextWith isGraphic text = text ↔ GraphicText isGraphic text) ∧
      (Text.isUtf8 text = true → ∀ rest, commentTextWith isGraphic (text ++ rest)
        = commentTextWith isGraphic text ++ commentTextWith isGraphic rest) ∧
      commentTextWith isGraphic (commentTextWith isGraphic text)
        = commentTextWith isGraphic text := by
  have hgraphic := graphicText_commentTextWith htable text
  refine ⟨hgraphic.isUtf8, hgraphic, ?_, commentTextWith_eq_self_iff htable,
    commentTextWith_append isGraphic, (commentTextWith_eq_self_iff htable).mpr hgraphic⟩
  exact fun c hc => hgraphic.scalar_notMem (htable.isGraphic_mark hc)

end Tables

/-- **Text fit for a comment is a normal form.** It is UTF-8 of graphic code points, so that nothing
in it ends a line, a text or a file. Such text stays as it is, and no other does. Texts can be made
fit in parts, cut where a code point ends, and to do it again changes nothing. -/
theorem commentText_normalForm (text : Bytes) :
    Text.isUtf8 (commentText text) = true ∧
      GraphicText isGraphic (commentText text) ∧
      (∀ c ∈ ['\n', '\r', '\x00', '\ufeff'], Piece.scalar c ∉ pieces (commentText text)) ∧
      (commentText text = text ↔ GraphicText isGraphic text) ∧
      (Text.isUtf8 text = true → ∀ rest,
        commentText (text ++ rest) = commentText text ++ commentText rest) ∧
      commentText (commentText text) = commentText text :=
  commentTextWith_normalForm isGraphicTable_isGraphic text

theorem commentText_normalForm_truncated :
    Text.isUtf8 (utf8 "é\t\u2028") = true ∧
      commentText (utf8 "é\t\u2028" ++ [0xe2, 0x80]) = utf8 "é\\t\\u2028\ufffd\ufffd" ∧
      GraphicText isGraphic (utf8 "é\\t") ∧ commentText (utf8 "é\\t") = utf8 "é\\t" := by
  have hutf8 : Text.isUtf8 (utf8 "é\t\u2028") = true := isUtf8_utf8 _
  obtain ⟨-, -, -, -, happend, -⟩ := commentText_normalForm (utf8 "é\t\u2028")
  have hgraphic : GraphicText isGraphic (utf8 "é\\t") :=
    ⟨['é', '\\', 't'], rfl, List.all_eq_true.mp (by decide +kernel)⟩
  obtain ⟨-, -, -, hself, -, -⟩ := commentText_normalForm (utf8 "é\\t")
  exact ⟨hutf8, (happend hutf8 _).trans (by decide +kernel), hgraphic, hself.mpr hgraphic⟩

end YaccTables
