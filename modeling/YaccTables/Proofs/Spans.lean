import Mathlib.Data.Prod.Lex
import YaccTables.Proofs.ErrorSpans
import YaccTables.Proofs.TextLines

/-!
# What a span tells of its source

A span that lies in its source can be reported, in whatever steps it was cut out of it:

* its line and column are a place in the lines of the text (`LiesAt`), and from the place one gets
  back to the offset. Two places compare like their offsets, line first (`LiesAt.lt_iff`), so that
  nothing is lost when an offset is told as a place (`position?_liesAt`);
* its context is a piece of the text around it that ends where one line feed more would come in
  (`Longest`), on either side (`context?_window`).

The lines before an offset are what both rest on: the last of them is where the offset is
(`exists_lines_eq`).
-/

namespace YaccTables.Span

/-! ## Spans cut out of a source -/

/-- The spans that are cut out of a source, step by step. -/
inductive CutFrom (source : Source) : Span → Prop
  | whole : CutFrom source (whole source)
  | slice {s : Span} (a b : Int) : CutFrom source s → CutFrom source (s.slice a b)
  | skip {s : Span} (n : Int) : CutFrom source s → CutFrom source (s.skip n)
  | after {s : Span} : CutFrom source s → CutFrom source s.after

/-- The span lies in a text. The spans that it was cut out of need not. -/
structure InRange (s : Span) (text : Bytes) : Prop where
  start_nonneg : 0 ≤ s.start
  len_nonneg : 0 ≤ s.len
  stop_le : s.start + s.len ≤ text.length

section Cut

variable {source : Source} {s : Span}

/-- A span that is cut from a source knows it. -/
theorem CutFrom.source_eq (h : CutFrom source s) : s.source = some source := by
  induction h with
  | whole => rfl
  | slice a b _ ih => exact ih
  | skip n _ ih => exact ih
  | after _ ih => exact ih

/-- A span that is cut within a source has an offset and a length. -/
theorem CutFrom.exists_eq (hs : CutFrom source s) (hin : s.InRange source.text) :
    ∃ offset len : Nat, s = ⟨some source, offset, len⟩ ∧ offset + len ≤ source.text.length := by
  obtain ⟨hstart, hlen, hstop⟩ := hin
  refine ⟨s.start.toNat, s.len.toNat, ?_, by omega⟩
  rw [← hs.source_eq, Int.toNat_of_nonneg hstart, Int.toNat_of_nonneg hlen]

end Cut

/-! ## Places in the lines of a text -/

/-- The bytes of the first lines of a text, with their line feeds. -/
def bytesBefore (text : Bytes) (n : Nat) : Nat :=
  (((lines text).take n).map fun l => l.length + 1).sum

/-- Line and column, both counted from one, are the place of an offset: the line is there, the
column is not beyond its end, and the lines above and the bytes on the left are as many as the
offset says. -/
structure LiesAt (text : Bytes) (offset : Int) (line col : Nat) : Prop where
  line_pos : 1 ≤ line
  col_pos : 1 ≤ col
  exists_line : ∃ l, (lines text)[line - 1]? = some l ∧ col - 1 ≤ l.length
  offset_eq : ((bytesBefore text (line - 1) + (col - 1) : Nat) : Int) = offset

section Places

variable {text : Bytes}

/-- Further lines have more bytes before them. -/
theorem bytesBefore_mono {m n : Nat} (h : m ≤ n) : bytesBefore text m ≤ bytesBefore text n := by
  have htake : (lines text).take n
      = (lines text).take m ++ ((lines text).drop m).take (n - m) := by
    rw [← List.take_add, Nat.add_sub_cancel' h]
  rw [bytesBefore, bytesBefore, htake, List.map_append, List.sum_append]
  exact Nat.le_add_right _ _

/-- A line and its end are before the next line. -/
theorem bytesBefore_succ {n : Nat} {l : Bytes} (h : (lines text)[n]? = some l) :
    bytesBefore text (n + 1) = bytesBefore text n + (l.length + 1) := by
  rw [bytesBefore, List.take_add_one, h, List.map_append, List.sum_append]
  simp [bytesBefore]

/-- A place on an earlier line comes before all places on a later one. -/
theorem LiesAt.lt_of_line_lt {o o' : Int} {line col line' col' : Nat} (h : LiesAt text o line col)
    (h' : LiesAt text o' line' col') (hlt : line < line') : o < o' := by
  obtain ⟨l, hl, hcol⟩ := h.exists_line
  have hline := h.line_pos
  have hnext : bytesBefore text line = bytesBefore text (line - 1) + (l.length + 1) := by
    rw [← bytesBefore_succ hl, Nat.sub_add_cancel hline]
  have hmono : bytesBefore text line ≤ bytesBefore text (line' - 1) :=
    bytesBefore_mono (by omega)
  have heq := h.offset_eq
  have heq' := h'.offset_eq
  omega

/-- Offsets are in the order of lines and columns. -/
theorem LiesAt.lt_iff {o o' : Int} {line col line' col' : Nat} (h : LiesAt text o line col)
    (h' : LiesAt text o' line' col') : o < o' ↔ toLex (line, col) < toLex (line', col') := by
  have heq := h.offset_eq
  have heq' := h'.offset_eq
  have hcol := h.col_pos
  have hcol' := h'.col_pos
  rw [Prod.Lex.toLex_lt_toLex]
  rcases Nat.lt_trichotomy line line' with hlt | rfl | hgt
  · exact ⟨fun _ => .inl hlt, fun _ => h.lt_of_line_lt h' hlt⟩
  · constructor
    · intro ho
      exact .inr ⟨rfl, by omega⟩
    · rintro (hlt | ⟨-, hlt⟩)
      · exact absurd hlt (Nat.lt_irrefl _)
      · omega
  · have ho := h'.lt_of_line_lt h hgt
    constructor
    · intro hlt
      omega
    · rintro (hlt | ⟨heq, -⟩)
      · omega
      · omega

/-- An offset has one line and column. -/
theorem LiesAt.eq_iff {o o' : Int} {line col line' col' : Nat} (h : LiesAt text o line col)
    (h' : LiesAt text o' line' col') : o = o' ↔ (line, col) = (line', col') := by
  constructor
  · intro ho
    have hnlt : ¬ toLex (line, col) < toLex (line', col') := fun hlt =>
      absurd ((h.lt_iff h').mpr hlt) (by omega)
    have hngt : ¬ toLex (line', col') < toLex (line, col) := fun hgt =>
      absurd ((h'.lt_iff h).mpr hgt) (by omega)
    exact toLex_inj.mp (le_antisymm (not_lt.mp hngt) (not_lt.mp hnlt))
  · intro hplace
    obtain ⟨rfl, rfl⟩ := Prod.mk.inj hplace
    exact h.offset_eq.symm.trans h'.offset_eq

/-! ### The place of an offset -/

/-- The last line is what stands behind the last line end. -/
theorem rtakeWhile_last {init : List Bytes} {last : Bytes} (h : lineFeed ∉ last) :
    (endedLines init ++ last).rtakeWhile (· != lineFeed) = last := by
  have hrun : ∀ b ∈ last.reverse, (b != lineFeed) = true := by
    intro b hb
    exact bne_iff_ne.mpr (ne_of_mem_of_not_mem (List.mem_reverse.mp hb) h)
  have hend : ∀ b ∈ (endedLines init).reverse.head?, (b != lineFeed) = false := by
    rcases List.eq_nil_or_concat init with rfl | ⟨ls, l, rfl⟩
    · simp [endedLines]
    · simp [endedLines]
  rw [List.rtakeWhile, List.reverse_append, takeWhile_run hrun hend, List.reverse_reverse]

/-- The last of the lines up to an offset gives its place. -/
theorem liesAt_positionAt {offset : Nat} (h : offset ≤ text.length) :
    LiesAt text offset (positionAt text offset).1 (positionAt text offset).2 := by
  obtain ⟨init, last, hlines, hbefore, hinit, hlast⟩ := exists_lines_eq (text.take offset)
  obtain ⟨first, more, -, hmore⟩ := lines_append_of_notMem hlast (text.drop offset)
  have htext : lines text = init ++ (last ++ first) :: more := by
    rw [← hmore, ← lines_ended_append hinit, ← List.append_assoc, ← hbefore,
      List.take_append_drop]
  have hline : lineAt text offset = init.length + 1 := by
    rw [lineAt, ← length_lines, hlines, List.length_append]
    rfl
  have hcol : columnAt text offset = last.length + 1 := by
    rw [columnAt, hbefore, rtakeWhile_last hlast]
  rw [positionAt_eq h, hline, hcol]
  constructor
  case line_pos => exact Nat.le_add_left 1 _
  case col_pos => exact Nat.le_add_left 1 _
  case exists_line =>
    refine ⟨last ++ first, ?_, ?_⟩
    · rw [htext, Nat.add_sub_cancel, List.getElem?_append_right (Nat.le_refl _), Nat.sub_self]
      rfl
    · rw [Nat.add_sub_cancel, List.length_append]
      exact Nat.le_add_right _ _
  case offset_eq =>
    have hlength : (endedLines init ++ last).length = offset := by
      rw [← hbefore, List.length_take_of_le h]
    rw [bytesBefore, htext, Nat.add_sub_cancel, Nat.add_sub_cancel, List.take_left,
      ← length_endedLines, ← List.length_append, hlength]

end Places

/-- A span within its source has the position where it starts. -/
theorem position?_of_cut {source : Source} {s : Span} (hs : CutFrom source s)
    (hin : s.InRange source.text) :
    ∃ line col, s.position? = some (line, col) ∧ LiesAt source.text s.start line col := by
  obtain ⟨offset, len, rfl, hle⟩ := hs.exists_eq hin
  have hoffset : offset ≤ source.text.length := Nat.le_of_add_right_le hle
  refine ⟨_, _, ?_, liesAt_positionAt hoffset⟩
  rw [position?_of_le len hoffset, positionAt_eq hoffset]

/-- **Line and column of a span say where it starts**, and places of one text are in the order of
their offsets. -/
theorem position?_liesAt {source : Source} {s : Span} (hs : CutFrom source s)
    (hin : s.InRange source.text) :
    ∃ line col, s.position? = some (line, col) ∧ LiesAt source.text s.start line col ∧
      ∀ s', CutFrom source s' → s'.InRange source.text →
        ∃ line' col', s'.position? = some (line', col') ∧
          (s.start < s'.start ↔ toLex (line, col) < toLex (line', col')) ∧
          (s.start = s'.start ↔ (line, col) = (line', col')) := by
  obtain ⟨line, col, hposition, hplace⟩ := position?_of_cut hs hin
  refine ⟨line, col, hposition, hplace, fun s' hs' hin' => ?_⟩
  obtain ⟨line', col', hposition', hplace'⟩ := position?_of_cut hs' hin'
  exact ⟨line', col', hposition', hplace.lt_iff hplace', hplace.eq_iff hplace'⟩

/-- A text in which line feeds begin, follow each other and end. -/
def emptyLines : Source := { text := utf8 "\n\nab\n\n", file := utf8 "g.y" }

/-- The second of two empty lines, cut out of a span that does not lie in the text. -/
def emptyLine : Span := ((whole emptyLines).slice (-3) 5).skip 8

theorem position?_liesAt_emptyLine :
    CutFrom emptyLines emptyLine ∧ emptyLine.InRange emptyLines.text ∧
      ∃ line col, emptyLine.position? = some (line, col) ∧
        LiesAt emptyLines.text emptyLine.start line col ∧
        ∀ s', CutFrom emptyLines s' → s'.InRange emptyLines.text →
          ∃ line' col', s'.position? = some (line', col') ∧
            (emptyLine.start < s'.start ↔ toLex (line, col) < toLex (line', col')) ∧
            (emptyLine.start = s'.start ↔ (line, col) = (line', col')) := by
  have hcut : CutFrom emptyLines emptyLine := .skip _ (.slice _ _ .whole)
  have hin : emptyLine.InRange emptyLines.text := ⟨by decide, by decide, by decide⟩
  exact ⟨hcut, hin, position?_liesAt hcut hin⟩

/-! ## The window around a span -/

/-- The longest part of a text with at most so many line feeds. Parts are those at one end. -/
structure Longest (PartOf : Bytes → Bytes → Prop) (feeds : Nat) (text part : Bytes) : Prop where
  partOf : PartOf part text
  count_le : part.count lineFeed ≤ feeds
  length_le : ∀ other, PartOf other text → other.count lineFeed ≤ feeds →
    other.length ≤ part.length

/-- What a limit shows of the text on one side of a span: all of it, nothing, or the longest part
with one line feed less than the limit. -/
inductive Shown (PartOf : Bytes → Bytes → Prop) (text : Bytes) : Int → Bytes → Prop
  | all : Shown PartOf text noLimit text
  | nothing : Shown PartOf text 0 []
  | longest {feeds : Nat} {part : Bytes} (h : Longest PartOf feeds text part) :
    Shown PartOf text (feeds + 1) part

section Window

variable {text part : Bytes} {feeds : Nat}

/-- A part at the end of a text is the longest if a line feed stands in front of it. -/
theorem longest_suffix {rest : Bytes} (h : text = rest ++ lineFeed :: part)
    (hcount : part.count lineFeed = feeds) : Longest (· <:+ ·) feeds text part := by
  refine ⟨?_, hcount.le, fun other hother hfew => ?_⟩
  · rw [h, List.append_cons]
    exact List.suffix_append _ _
  · by_contra hlonger
    have hinside : lineFeed :: part <:+ other := by
      refine List.suffix_of_suffix_length_le (h ▸ List.suffix_append _ _) hother ?_
      rw [List.length_cons]
      omega
    have hmore := hinside.sublist.count_le lineFeed
    rw [List.count_cons_self] at hmore
    omega

/-- What is cut at a line end is the longest part with so many line ends. -/
theorem longest_prefix {rest : Bytes} (h : text = part ++ lineFeed :: rest)
    (hcount : part.count lineFeed = feeds) : Longest (· <+: ·) feeds text part := by
  refine ⟨h ▸ List.prefix_append _ _, hcount.le, fun other hother hfew => ?_⟩
  by_contra hlonger
  have hinside : part ++ [lineFeed] <+: other := by
    refine List.prefix_of_prefix_length_le ⟨rest, ?_⟩ hother ?_
    · rw [h, List.append_assoc, List.singleton_append]
    · rw [List.length_append, List.length_singleton]
      omega
  have hmore := hinside.sublist.count_le lineFeed
  rw [List.count_append, List.count_singleton_self] at hmore
  omega

/-- All of a text is the longest part if it has few enough lines. -/
theorem longest_self {PartOf : Bytes → Bytes → Prop} (hself : PartOf text text)
    (hlen : ∀ other, PartOf other text → other.length ≤ text.length)
    (h : (lines text).length ≤ feeds + 1) : Longest PartOf feeds text text := by
  refine ⟨hself, ?_, fun other hother _ => hlen other hother⟩
  rw [length_lines] at h
  omega

/-- A text parted between two of its lines. -/
theorem parted_lines {ls ms : List Bytes} (h : ls ++ ms = lines text) (hls : ls ≠ [])
    (hms : ms ≠ []) :
    text = joinLines ls ++ lineFeed :: joinLines ms ∧
      (joinLines ls).count lineFeed + 1 = ls.length ∧
      (joinLines ms).count lineFeed + 1 = ms.length := by
  have hfree : ∀ l ∈ ls ++ ms, lineFeed ∉ l := fun l hl =>
    lineFeed_notMem_of_mem_lines (h ▸ hl)
  refine ⟨?_, count_joinLines (fun l hl => hfree l (List.mem_append_left ms hl)) hls,
    count_joinLines (fun l hl => hfree l (List.mem_append_right ls hl)) hms⟩
  rw [← joinLines_append hls hms, h, joinLines_lines]

/-- The last lines are the longest part from behind with so many line ends. -/
theorem lastLines_longest (feeds : Nat) (text : Bytes) :
    Longest (· <:+ ·) feeds text (lastLines (feeds + 1) text) := by
  rcases Nat.lt_or_ge (feeds + 1) (lines text).length with hlt | hge
  · have hparts := List.take_append_drop ((lines text).length - (feeds + 1)) (lines text)
    have hlength : ((lines text).drop ((lines text).length - (feeds + 1))).length = feeds + 1 := by
      rw [List.length_drop]
      omega
    have hhidden : (lines text).take ((lines text).length - (feeds + 1)) ≠ [] :=
      List.ne_nil_of_length_pos (by rw [List.length_take]; omega)
    obtain ⟨htext, -, hcount⟩ := parted_lines hparts hhidden
      (List.ne_nil_of_length_pos (by rw [hlength]; omega))
    exact longest_suffix htext (Nat.succ.inj (hcount.trans hlength))
  · have hall : lastLines (feeds + 1) text = text := by
      rw [lastLines, Nat.sub_eq_zero_of_le hge, List.drop_zero, joinLines_lines]
    rw [hall]
    exact longest_self List.suffix_rfl (fun _ h => h.length_le) hge

/-- The first lines are the longest part from the front with so many line ends. -/
theorem firstLines_longest (feeds : Nat) (text : Bytes) :
    Longest (· <+: ·) feeds text (firstLines (feeds + 1) text) := by
  rcases Nat.lt_or_ge (feeds + 1) (lines text).length with hlt | hge
  · have hparts := List.take_append_drop (feeds + 1) (lines text)
    have hlength : ((lines text).take (feeds + 1)).length = feeds + 1 :=
      List.length_take_of_le hlt.le
    have hhidden : (lines text).drop (feeds + 1) ≠ [] :=
      List.ne_nil_of_length_pos (by rw [List.length_drop]; omega)
    obtain ⟨htext, hcount, -⟩ := parted_lines hparts
      (List.ne_nil_of_length_pos (by rw [hlength]; omega)) hhidden
    exact longest_prefix htext (Nat.succ.inj (hcount.trans hlength))
  · have hall : firstLines (feeds + 1) text = text := by
      rw [firstLines, List.take_of_length_le hge, joinLines_lines]
    rw [hall]
    exact longest_self List.prefix_rfl (fun _ h => h.length_le) hge

/-- The text above is shown for every limit. -/
theorem exists_above {limit : Int} (h : 0 ≤ limit ∨ limit = noLimit) (text : Bytes) :
    ∃ above, above? limit text = some above ∧ Shown (· <:+ ·) text limit above := by
  rcases h with h | rfl
  · obtain ⟨n, rfl⟩ := Int.eq_ofNat_of_zero_le h
    refine ⟨lastLines n text, ?_, ?_⟩
    · rw [above?, if_neg (by rw [noLimit]; omega), if_neg (by omega), Int.toNat_natCast]
    · cases n with
      | zero =>
        have hnone : lastLines 0 text = [] := by
          rw [lastLines, Nat.sub_zero, List.drop_length]
          rfl
        rw [hnone]
        exact .nothing
      | succ feeds => exact .longest (lastLines_longest feeds text)
  · exact ⟨text, if_pos rfl, .all⟩

/-- The text below is shown for every limit. -/
theorem exists_below {limit : Int} (h : 0 ≤ limit ∨ limit = noLimit) (text : Bytes) :
    ∃ below, below? limit text = some below ∧ Shown (· <+: ·) text limit below := by
  rcases h with h | rfl
  · obtain ⟨n, rfl⟩ := Int.eq_ofNat_of_zero_le h
    refine ⟨firstLines n text, ?_, ?_⟩
    · rw [below?, if_neg (by rw [noLimit]; omega), if_neg (by omega), Int.toNat_natCast]
    · cases n with
      | zero => exact .nothing
      | succ feeds => exact .longest (firstLines_longest feeds text)
  · exact ⟨text, if_pos rfl, .all⟩

/-- What is shown below begins where the span ends. -/
theorem Shown.of_prefix {limit : Int} (h : Shown (· <+: ·) text limit part) : part <+: text := by
  cases h with
  | all => exact List.prefix_rfl
  | nothing => exact List.nil_prefix
  | longest h => exact h.partOf

/-- What is shown above ends where the span begins. -/
theorem Shown.of_suffix {limit : Int} (h : Shown (· <:+ ·) text limit part) : part <:+ text := by
  cases h with
  | all => exact List.suffix_rfl
  | nothing => exact List.nil_suffix
  | longest h => exact h.partOf

end Window

/-- A window on a source: the text before, in and behind a span, what is shown of it under a limit,
and the place of the span. -/
structure Window (source : Source) (s : Span) (limit : Int) where
  before : Bytes
  inside : Bytes
  behind : Bytes
  above : Bytes
  below : Bytes
  line : Nat
  col : Nat
  text_eq : source.text = before ++ inside ++ behind
  start_eq : (before.length : Int) = s.start
  len_eq : (inside.length : Int) = s.len
  above_shown : Shown (· <:+ ·) before limit above
  below_shown : Shown (· <+: ·) behind limit below
  liesAt : LiesAt source.text s.start line col

namespace Window

variable {source : Source} {s : Span} {limit : Int}

/-- The bytes of the source that are seen. -/
def visible (w : Window source s limit) : Bytes := w.above ++ w.inside ++ w.below

/-- The window with its heading, the inside in a colour of its own. -/
def text (w : Window source s limit) : Bytes :=
  heading source.file w.line w.col ++ w.above ++ utf8 "\x1b[1;31m" ++ w.inside ++ utf8 "\x1b[0m"
    ++ w.below

/-- What is shown stands in the source. -/
theorem visible_infix (w : Window source s limit) : w.visible <:+: source.text := by
  obtain ⟨hidden, habove⟩ := w.above_shown.of_suffix
  obtain ⟨hidden', hbelow⟩ := w.below_shown.of_prefix
  refine ⟨hidden, hidden', ?_⟩
  rw [w.text_eq, ← habove, ← hbelow, visible]
  simp only [List.append_assoc]

end Window

/-- **The context of a span is a window on its source.** The offsets of a text are signed 64-bit
numbers, so that there are no longer ones. -/
theorem context?_window {source : Source} (hsize : source.text.length < 2 ^ 63) {s : Span}
    (hs : CutFrom source s) (hin : s.InRange source.text) {limit : Int}
    (hlimit : 0 ≤ limit ∨ limit = noLimit) :
    ∃ w : Window source s limit, s.text? = some w.inside ∧ s.position? = some (w.line, w.col) ∧
      s.context? limit = some w.text ∧ w.visible <:+: source.text := by
  obtain ⟨line, col, hposition, hplace⟩ := position?_of_cut hs hin
  obtain ⟨offset, len, rfl, hle⟩ := hs.exists_eq hin
  obtain ⟨above, habove, hshown⟩ := exists_above hlimit (source.text.take offset)
  obtain ⟨below, hbelow, hshown'⟩ := exists_below hlimit (source.text.drop (offset + len))
  let w : Window source ⟨some source, offset, len⟩ limit :=
    { before := source.text.take offset
      inside := source.text.extract offset (offset + len)
      behind := source.text.drop (offset + len)
      above, below, line, col
      text_eq := by
        rw [List.extract_eq_take_drop, Nat.add_sub_cancel_left, ← List.take_add,
          List.take_append_drop]
      start_eq := by rw [List.length_take_of_le (Nat.le_of_add_right_le hle)]
      len_eq := by
        rw [List.extract_eq_take_drop, Nat.add_sub_cancel_left, List.length_take_of_le]
        rw [List.length_drop]
        omega
      above_shown := hshown
      below_shown := hshown'
      liesAt := hplace }
  refine ⟨w, text?_of_le hsize hle, hposition, ?_, w.visible_infix⟩
  simp only [context?, cut?_of_le hsize hle, hposition, habove, hbelow, Option.bind_eq_bind,
    Option.bind_some]
  rfl

theorem context?_window_emptyLine :
    emptyLines.text.length < 2 ^ 63 ∧ CutFrom emptyLines emptyLine ∧
      emptyLine.InRange emptyLines.text ∧ (0 ≤ (2 : Int) ∨ 2 = noLimit) ∧
      ∃ w : Window emptyLines emptyLine 2, emptyLine.text? = some w.inside ∧
        emptyLine.position? = some (w.line, w.col) ∧ emptyLine.context? 2 = some w.text ∧
        w.visible <:+: emptyLines.text := by
  have hsize : emptyLines.text.length < 2 ^ 63 := by decide +kernel
  have hcut : CutFrom emptyLines emptyLine := .skip _ (.slice _ _ .whole)
  have hin : emptyLine.InRange emptyLines.text := ⟨by decide, by decide, by decide⟩
  have hlimit : 0 ≤ (2 : Int) ∨ 2 = noLimit := .inl (by decide)
  exact ⟨hsize, hcut, hin, hlimit, context?_window hsize hcut hin hlimit⟩

end YaccTables.Span
