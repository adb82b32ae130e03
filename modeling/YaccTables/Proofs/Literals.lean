import Mathlib.Algebra.Order.Ring.Nat
import YaccTables.Code.Scan
import YaccTables.Listing
import YaccTables.Proofs.CodePoints
import YaccTables.Proofs.Decimal

/-!
# Texts that stay in their place

Names come into a generated file between quotes and in comments. Whatever bytes they are made of,
they do not get out:

* a quoted text is read as one literal, which ends with its own last quote (`isLiteral_quote`).
  Every piece of text is either a run of bytes that mean themselves, or one escape, and reading goes
  on behind it (`Passes`);
* a comment of quoted text, or of text made fit for comments, is read up to the end of its line and
  not beyond it (`isRemark_quote`, `isRemark_commentTextWith`), since none of its bytes is a control
  character (`Inline`).
-/

namespace YaccTables

open Text

/-! ## Texts without control characters -/

/-- No byte is a control character, and so none ends a line. -/
def Inline (text : Bytes) : Prop := ∀ b ∈ text, 32 ≤ b.toNat

instance (text : Bytes) : Decidable (Inline text) :=
  List.decidableBAll (fun b : UInt8 => 32 ≤ b.toNat) text

namespace Inline

variable {x y : Bytes}

/-- Texts without control characters can be put together. -/
theorem append (hx : Inline x) (hy : Inline y) : Inline (x ++ y) := by
  intro b hb
  rcases List.mem_append.mp hb with hb | hb
  · exact hx b hb
  · exact hy b hb

/-- Texts without control characters can be put together piece by piece. -/
theorem flatMap {α : Type} {xs : List α} {f : α → Bytes} (h : ∀ a ∈ xs, Inline (f a)) :
    Inline (xs.flatMap f) := by
  intro b hb
  obtain ⟨a, ha, hb⟩ := List.mem_flatMap.mp hb
  exact h a ha b hb

theorem lineFeed_notMem (h : Inline x) : lineFeed ∉ x := fun hb => absurd (h _ hb) (by decide)

theorem carriageReturn_notMem (h : Inline x) : carriageReturn ∉ x :=
  fun hb => absurd (h _ hb) (by decide)

end Inline

/-- Text of printable ASCII. -/
def isPlain (text : Bytes) : Bool := text.all fun b => 32 ≤ b.toNat && b.toNat < 127

theorem isPlain_append {x y : Bytes} (hx : isPlain x = true) (hy : isPlain y = true) :
    isPlain (x ++ y) = true := by
  unfold isPlain at *
  rw [List.all_append, hx, hy]
  rfl

theorem isPlain_hexDigit : ∀ d < 16, isPlain [hexDigit d] = true := by decide

/-- Hexadecimal digits are plain. -/
theorem isPlain_hexadecimal (width n : Nat) : isPlain (hexadecimal width n) = true := by
  induction width generalizing n with
  | zero => rfl
  | succ width ih => exact isPlain_append (ih _) (isPlain_hexDigit _ (Nat.mod_lt n (by decide)))

/-- An escape is plain. -/
theorem isPlain_escapePoint (n : Nat) : isPlain (escapePoint n) = true := by
  unfold escapePoint
  split
  iterate 7 decide
  split
  · exact isPlain_append (by decide) (isPlain_hexadecimal 2 n)
  split
  · exact isPlain_append (by decide) (isPlain_hexadecimal 4 n)
  · exact isPlain_append (by decide) (isPlain_hexadecimal 8 n)

/-- Plain bytes are printable ASCII. -/
theorem bounds_of_isPlain {text : Bytes} (h : isPlain text = true) {b : UInt8} (hb : b ∈ text) :
    32 ≤ b.toNat ∧ b.toNat < 127 := by
  simpa using List.all_eq_true.mp h b hb

/-- Plain text holds no control characters. -/
theorem inline_of_isPlain {text : Bytes} (h : isPlain text = true) : Inline text :=
  fun _ hb => (bounds_of_isPlain h hb).1

/-- A code point is one byte of its own number, or none of its bytes is in ASCII. -/
theorem utf8EncodeChar_cases (c : Char) :
    String.utf8EncodeChar c = [UInt8.ofNat c.toNat] ∧ c.toNat < 128 ∨
      ∀ b ∈ String.utf8EncodeChar c, 128 ≤ b.toNat := by
  have hvalid := toNat_scalar c
  unfold String.utf8EncodeChar
  rw [show c.val.toNat = c.toNat from rfl]
  dsimp only
  split
  · exact .inl ⟨rfl, by omega⟩
  right
  have hbyte : ∀ {m n : Nat}, m + n < 256 → 128 ≤ n → 128 ≤ (UInt8.ofNat (m + n)).toNat := by
    intro m n hlt hle
    rw [toNat_byte hlt]
    omega
  split
  · simp only [List.forall_mem_cons]
    exact ⟨hbyte (by omega) (by omega), hbyte (by omega) (by omega), by simp⟩
  split
  · simp only [List.forall_mem_cons]
    exact ⟨hbyte (by omega) (by omega), hbyte (by omega) (by omega), hbyte (by omega) (by omega),
      by simp⟩
  · simp only [List.forall_mem_cons]
    exact ⟨hbyte (by omega) (by omega), hbyte (by omega) (by omega), hbyte (by omega) (by omega),
      hbyte (by omega) (by omega), by simp⟩

/-- A code point from the blank on is encoded without control characters. -/
theorem inline_utf8EncodeChar {c : Char} (h : 32 ≤ c.toNat) : Inline (String.utf8EncodeChar c) := by
  rcases utf8EncodeChar_cases c with ⟨hone, hlt⟩ | hmany
  · intro b hb
    rw [hone] at hb
    rwa [List.mem_singleton.mp hb, toNat_byte (by omega)]
  · exact fun b hb => Nat.le_trans (by decide) (hmany b hb)

/-- What tables of graphic code points have in common, whatever version of Unicode they are for. -/
structure IsGraphicTable (isGraphic : Nat → Bool) : Prop where
  /-- Printable ASCII is graphic. -/
  printable : ∀ n, 32 ≤ n → n < 127 → isGraphic n = true
  /-- So is what stands for a stray byte. -/
  replacement : isGraphic 0xfffd = true
  /-- Control characters are not graphic. -/
  control : ∀ n < 32, isGraphic n = false
  /-- Neither is the byte order mark. -/
  byteOrderMark : isGraphic 0xfeff = false

/-- A graphic code point is no control character. -/
theorem IsGraphicTable.le_of_isGraphic {isGraphic : Nat → Bool} (htable : IsGraphicTable isGraphic)
    {n : Nat} (h : isGraphic n = true) : 32 ≤ n := by
  by_contra hlt
  rw [htable.control n (Nat.not_le.mp hlt)] at h
  exact absurd h (by decide)

/-- The table of Unicode 17 is one. -/
theorem isGraphicTable_isGraphic : IsGraphicTable isGraphic := by
  obtain ⟨rest, hranges⟩ : ∃ rest, graphicRanges = (0x20, 0x7e) :: rest := ⟨_, rfl⟩
  constructor
  case printable =>
    intro n hle hlt
    rw [isGraphic, hranges, Ranges.contains, if_neg (by omega), decide_eq_true (by omega)]
    rfl
  case replacement => decide +kernel
  case control =>
    intro n hlt
    rw [isGraphic, hranges, Ranges.contains, if_pos hlt]
  case byteOrderMark => decide +kernel

/-- A printable code point is no control character. -/
theorem le_of_isPrintable {n : Nat} (h : isPrintable n = true) : 32 ≤ n := by
  rw [isPrintable, Bool.or_eq_true, Bool.and_eq_true, beq_iff_eq] at h
  rcases h with h | h
  · omega
  · exact isGraphicTable_isGraphic.le_of_isGraphic h.1

/-- A piece of quoted text holds no control characters. -/
theorem inline_quotePiece (p : Piece) : Inline (quotePiece p) := by
  cases p with
  | stray b => exact inline_of_isPlain (isPlain_append (by decide) (isPlain_hexadecimal 2 b.toNat))
  | scalar c =>
    rw [quotePiece]
    split
    · rename_i hmark
      rw [Bool.or_eq_true, beq_iff_eq, beq_iff_eq] at hmark
      rcases hmark with rfl | rfl
      · decide
      · decide
    split
    · rename_i hprints
      exact inline_utf8EncodeChar (le_of_isPrintable hprints)
    · exact inline_of_isPlain (isPlain_escapePoint c.toNat)

/-- Quoted text holds no control characters. -/
theorem inline_quote (text : Bytes) : Inline (quote text) :=
  (Inline.append (by decide) (.flatMap fun p _ => inline_quotePiece p)).append (by decide)

/-- Text fit for a comment holds no control characters. -/
theorem inline_commentTextWith {isGraphic : Nat → Bool} (htable : IsGraphicTable isGraphic)
    (text : Bytes) : Inline (commentTextWith isGraphic text) := by
  refine .flatMap fun p _ => ?_
  cases p with
  | stray b => exact inline_utf8EncodeChar (show 32 ≤ '\ufffd'.toNat by decide)
  | scalar c =>
    rw [commentPiece]
    split
    · rename_i hgraphic
      exact inline_utf8EncodeChar (htable.le_of_isGraphic hgraphic)
    · exact inline_of_isPlain (isPlain_escapePoint c.toNat)

/-! ## Quoted text is one literal -/

open Code

theorem length_hexadecimal (width n : Nat) : (hexadecimal width n).length = width := by
  induction width generalizing n with
  | zero => rfl
  | succ width ih => rw [hexadecimal, List.length_append, ih, List.length_singleton]

theorem hexValue_hexDigit :
    ∀ d < 16, isHexDigit (hexDigit d) = true ∧ hexValue (hexDigit d) = d := by decide

theorem all_hexadecimal (width n : Nat) :
    (hexadecimal width n).all (fun b => isHexDigit b && hexValue b < 16) = true := by
  induction width generalizing n with
  | zero => rfl
  | succ width ih =>
    obtain ⟨hdigit, hvalue⟩ := hexValue_hexDigit (n % 16) (Nat.mod_lt n (by decide))
    rw [hexadecimal, List.all_append, ih, List.all_cons, hdigit, hvalue,
      decide_eq_true (Nat.mod_lt n (by decide))]
    rfl

/-- A number is read back from its hexadecimal digits. -/
theorem foldl_hexadecimal {width n : Nat} (h : n < 16 ^ width) :
    (hexadecimal width n).foldl (fun m b => m * 16 + hexValue b) 0 = n := by
  induction width generalizing n with
  | zero => exact (Nat.lt_one_iff.mp h).symm
  | succ width ih =>
    have hdiv : n / 16 < 16 ^ width := Nat.div_lt_of_lt_mul (by rwa [Nat.pow_succ'] at h)
    rw [hexadecimal, List.foldl_append, ih hdiv, List.foldl_cons, List.foldl_nil,
      (hexValue_hexDigit (n % 16) (Nat.mod_lt n (by decide))).2]
    omega

/-- A number in enough digits is read back. -/
theorem digits?_hexadecimal {width n : Nat} (h : n < 16 ^ width) (rest : Bytes) :
    digits? 16 width (hexadecimal width n ++ rest) = some n := by
  unfold digits?
  dsimp only
  rw [List.take_left' (length_hexadecimal width n),
    if_pos ⟨length_hexadecimal width n, all_hexadecimal width n⟩, foldl_hexadecimal h]

/-- What makes an escape behind a backslash, whatever follows. -/
def IsEscape (x : Bytes) : Prop :=
  ∀ rest, ∃ value, escape? (ascii '"') (x ++ rest) = some (value, x.length)

/-- A number behind its letter, which says how many digits there are. -/
theorem isEscape_hexadecimal {n width limit : Nat} {letter : UInt8}
    (hletter : ∀ text, escape? (ascii '"') (letter :: text) = do
      let value ← digits? 16 width text
      guard (value ≤ limit && !(0xd800 ≤ value && value < 0xe000))
      some (value, 1 + width))
    (hwidth : n < 16 ^ width) (hlimit : n ≤ limit) (hscalar : n < 0xd800 ∨ 0xdfff < n) :
    IsEscape (letter :: hexadecimal width n) := by
  intro rest
  have hguard : (decide (n ≤ limit) && !(decide (0xd800 ≤ n) && decide (n < 0xe000))) = true := by
    simp
    omega
  refine ⟨n, ?_⟩
  rw [List.cons_append, hletter, digits?_hexadecimal hwidth, Option.bind_eq_bind, Option.bind_some,
    hguard, List.length_cons, length_hexadecimal, Nat.add_comm]
  rfl

/-- A byte is escaped by its two digits. -/
theorem isEscape_byte {n : Nat} (h : n < 256) : IsEscape (ascii 'x' :: hexadecimal 2 n) :=
  isEscape_hexadecimal (fun _ => rfl) (by omega) (by omega) (by omega)

/-- A code point that is escaped begins with a backslash. -/
theorem exists_escapePoint_eq (c : Char) :
    ∃ x, escapePoint c.toNat = ascii '\\' :: x ∧ IsEscape x := by
  have hvalid := toNat_scalar c
  unfold escapePoint
  split
  iterate 7 exact ⟨_, rfl, fun _ => ⟨_, rfl⟩⟩
  split
  · rename_i hcontrol
    simp only [Bool.or_eq_true, decide_eq_true_eq, beq_iff_eq] at hcontrol
    exact ⟨_, rfl, isEscape_byte (by omega)⟩
  split
  · exact ⟨_, rfl, isEscape_hexadecimal (fun _ => rfl) (by omega) (by omega) (by omega)⟩
  · exact ⟨_, rfl, isEscape_hexadecimal (fun _ => rfl) (by omega) (by omega) (by omega)⟩

/-- Reading a quoted text goes on behind a part of it, whatever follows. -/
def Passes (x : Bytes) : Prop :=
  ∀ units length rest, ∃ units', quotedLength? (ascii '"') 0 units length (x ++ rest)
    = quotedLength? (ascii '"') 0 units' (length + x.length) rest

namespace Passes

variable {x y : Bytes}

/-- Parts of a literal can be put together. -/
theorem append (hx : Passes x) (hy : Passes y) : Passes (x ++ y) := by
  intro units length rest
  obtain ⟨units₁, h₁⟩ := hx units length (y ++ rest)
  obtain ⟨units₂, h₂⟩ := hy units₁ (length + x.length) rest
  refine ⟨units₂, ?_⟩
  rw [List.append_assoc, h₁, h₂, List.length_append, Nat.add_assoc]

/-- Parts of a literal can be put together piece by piece. -/
theorem flatMap {α : Type} {xs : List α} {f : α → Bytes} (h : ∀ a ∈ xs, Passes (f a)) :
    Passes (xs.flatMap f) := by
  induction xs with
  | nil => exact fun units _ _ => ⟨units, rfl⟩
  | cons a xs ih =>
    obtain ⟨ha, hxs⟩ := List.forall_mem_cons.mp h
    exact ha.append (ih hxs)

/-- A byte that is neither a mark nor a backslash stands for itself. -/
theorem plain {b : UInt8} (hfeed : b ≠ lineFeed) (hmark : b ≠ ascii '"')
    (hslash : b ≠ ascii '\\') : Passes [b] := by
  intro units length rest
  refine ⟨if !(0x80 ≤ b && b < 0xc0) then units + 1 else units, ?_⟩
  rw [List.singleton_append, quotedLength?, if_neg hfeed, if_neg hmark, if_neg hslash]
  rfl

/-- Bytes that are to be skipped count for the length and for nothing else. -/
theorem quotedLength?_skip (mark : UInt8) (units length : Nat) (x rest : Bytes) :
    quotedLength? mark x.length units length (x ++ rest)
      = quotedLength? mark 0 units (length + x.length) rest := by
  induction x generalizing length with
  | nil => rfl
  | cons b x ih =>
    rw [List.length_cons, List.cons_append, quotedLength?, ih, Nat.add_right_comm, Nat.add_assoc]

/-- An escape is a part of a literal. -/
theorem escape (hx : IsEscape x) : Passes (ascii '\\' :: x) := by
  intro units length rest
  obtain ⟨value, hvalue⟩ := hx rest
  refine ⟨units + 1, ?_⟩
  rw [List.cons_append, quotedLength?, if_neg (by decide), if_neg (by decide), if_pos rfl, hvalue]
  show quotedLength? _ x.length _ _ _ = _
  rw [quotedLength?_skip, List.length_cons, Nat.add_right_comm, Nat.add_assoc]

end Passes

/-- A code point other than the mark and the backslash stands for itself. -/
theorem passes_utf8EncodeChar {c : Char} (hle : 32 ≤ c.toNat) (hmark : c ≠ '"')
    (hslash : c ≠ '\\') : Passes (String.utf8EncodeChar c) := by
  have hne : ∀ {d : Char}, c ≠ d → c.toNat ≠ d.toNat := fun hcd heq => hcd (Char.toNat_inj.mp heq)
  have hmark' : c.toNat ≠ 34 := hne hmark
  have hslash' : c.toNat ≠ 92 := hne hslash
  -- the numbers of its bytes are not those of the bytes that mean something else
  have hbytes : ∀ b ∈ String.utf8EncodeChar c,
      b.toNat ≠ 10 ∧ b.toNat ≠ 34 ∧ b.toNat ≠ 92 := by
    intro b hb
    rcases utf8EncodeChar_cases c with ⟨hone, hlt⟩ | hmany
    · rw [hone] at hb
      rw [List.mem_singleton.mp hb, toNat_byte (by omega)]
      omega
    · have hb' := hmany b hb
      omega
  refine List.flatMap_singleton' (String.utf8EncodeChar c) ▸ Passes.flatMap fun b hb => ?_
  obtain ⟨hfeed, hquote, hback⟩ := hbytes b hb
  exact .plain (ne_of_apply_ne _ hfeed) (ne_of_apply_ne _ hquote) (ne_of_apply_ne _ hback)

/-- Every piece of quoted text is a part of a literal. -/
theorem passes_quotePiece (p : Piece) : Passes (quotePiece p) := by
  cases p with
  | stray b => exact .escape (isEscape_byte b.toNat_lt)
  | scalar c =>
    rw [quotePiece]
    split
    · rename_i hmark
      rw [Bool.or_eq_true, beq_iff_eq, beq_iff_eq] at hmark
      rcases hmark with rfl | rfl
      · exact .escape fun _ => ⟨_, rfl⟩
      · exact .escape fun _ => ⟨_, rfl⟩
    rename_i hmark
    split
    · rename_i hprints
      rw [Bool.or_eq_true, beq_iff_eq, beq_iff_eq, not_or] at hmark
      exact passes_utf8EncodeChar (le_of_isPrintable hprints) hmark.1 hmark.2
    · obtain ⟨x, heq, hx⟩ := exists_escapePoint_eq c
      rw [heq]
      exact .escape hx

/-- A text on one line that is read as one literal of text, whatever stands behind it. -/
structure IsLiteral (text : Bytes) : Prop where
  onLine : lineFeed ∉ text
  whole : ∀ rest, quoted? (text ++ rest) = some (.text, text.length)

/-- **Quoted text is one literal**, whatever bytes it is made of. -/
theorem isLiteral_quote (text : Bytes) : IsLiteral (quote text) := by
  constructor
  case onLine => exact (inline_quote text).lineFeed_notMem
  case whole =>
    intro rest
    have hpasses : Passes ((pieces text).flatMap quotePiece) :=
      .flatMap fun p _ => passes_quotePiece p
    have hquote : quote text ++ rest
        = ascii '"' :: ((pieces text).flatMap quotePiece ++ ascii '"' :: rest) := by
      rw [quote, List.append_assoc, List.append_assoc]
      rfl
    have hlength : (quote text).length = 1 + ((pieces text).flatMap quotePiece).length + 1 := by
      rw [quote, List.length_append, List.length_append]
      rfl
    -- behind the pieces stands the mark that ends the literal
    obtain ⟨units, hread⟩ := hpasses 0 1 (ascii '"' :: rest)
    rw [hquote, hlength]
    show (quotedLength? (ascii '"') 0 0 1
      ((pieces text).flatMap quotePiece ++ ascii '"' :: rest)).bind _ = _
    rw [hread]
    rfl

/-! ## Comments end with their lines -/

/-- A text without carriage returns stays as it is. -/
theorem withoutReturns_eq {text : Bytes} (h : carriageReturn ∉ text) (before : Bytes) :
    withoutReturns false before text = before.reverse ++ text := by
  induction text generalizing before with
  | nil => rw [withoutReturns, List.append_nil]
  | cons b text ih =>
    obtain ⟨hb, htext⟩ := not_or.mp (mt List.mem_cons.mpr h)
    have hstays : (b != carriageReturn) = true := bne_iff_ne.mpr (Ne.symm hb)
    simp only [withoutReturns, hstays, Bool.true_or, if_true]
    rw [ih htext, List.reverse_cons, List.append_assoc]
    rfl

/-- The comment that a text makes behind the words of a line. -/
def remark (text : Bytes) : Bytes := utf8 "// " ++ text

/-- A text on one line that makes a comment just up to the end of that line, whatever stands
behind. -/
structure IsRemark (text : Bytes) : Prop where
  onLine : lineFeed ∉ text
  whole : ∀ rest, comment? false (remark text ++ lineFeed :: rest)
    = some (remark text, (remark text).length)

/-- A comment of text without control characters ends with its line. -/
theorem Inline.isRemark {text : Bytes} (h : Inline text) : IsRemark text := by
  constructor
  case onLine => exact h.lineFeed_notMem
  case whole =>
    intro rest
    have hinline : Inline (remark text) := Inline.append (by decide) h
    have htake : (remark text ++ lineFeed :: rest).takeWhile (· != lineFeed) = remark text := by
      refine takeWhile_run (fun b hb => bne_iff_ne.mpr ?_) (by simp)
      rintro rfl
      exact hinline.lineFeed_notMem hb
    have hlast : (remark text).getLast? ≠ some carriageReturn := fun hlast =>
      hinline.carriageReturn_notMem (List.mem_of_getLast? hlast)
    have hsound : isSoundComment false false (remark text) = true := by
      rw [isSoundComment, Bool.or_false, Bool.and_false]
      rfl
    have hline : ¬ (remark text ++ lineFeed :: rest).take 2 = utf8 "/*" := by
      show ¬ utf8 "//" = utf8 "/*"
      decide
    rw [comment?, if_neg hline]
    dsimp only
    rw [htake, if_neg hlast, hsound, withoutReturns_eq hinline.carriageReturn_notMem]
    rfl

/-- A comment of quoted text ends with its line. -/
theorem isRemark_quote (text : Bytes) : IsRemark (quote text) := (inline_quote text).isRemark

/-- A comment of text made fit for it ends with its line. -/
theorem isRemark_commentTextWith {isGraphic : Nat → Bool} (htable : IsGraphicTable isGraphic)
    (text : Bytes) : IsRemark (commentTextWith isGraphic text) :=
  (inline_commentTextWith htable text).isRemark

end YaccTables
