import Mathlib.Data.List.SplitBy
import YaccTables.Code.Sheet

/-!
# Columns only move white space

What is on a sheet besides its white space is its ink (`ink`): the marks, all bytes of literal
parts, and the bytes outside them that are no white space. Cells are filled up and ends of lines
are trimmed outside literal parts only, so that the ink stays as it is:

* `read_keeps` follows a sheet that is cut into cells, byte by byte;
* `inks_rowText`, `length_widths` and `inks_filled` put the cells together again;
* `trim_keeps` follows a text whose blanks at the ends of lines are taken away;
* `render_ink` is the result, and `visible_render` what it says about what can be seen.
-/

namespace YaccTables.Code.Sheet

/-! ## Ink -/

/-- Whether a byte is white space on a sheet. -/
def isBlank (b : UInt8) : Bool := b == tab || b == softTab || b == space || isLineEnd b

/-- Whether a literal part is open behind a text, if one is open before it or not. -/
def isInside (inside : Bool) (text : Bytes) : Bool :=
  text.foldl (fun inside b => inside != (b == literalMark)) inside

/-- A text without its white space outside literal parts. -/
def ink : Bool → Bytes → Bytes
  | _, [] => []
  | inside, b :: rest =>
    (if inside || !isBlank b then [b] else []) ++ ink (inside != (b == literalMark)) rest

/-- A text without marks. -/
def unmarked (text : Bytes) : Bytes := text.filter (· != literalMark)

/-- Texts are read one after the other. -/
theorem isInside_append (inside : Bool) (t u : Bytes) :
    isInside inside (t ++ u) = isInside (isInside inside t) u :=
  List.foldl_append

/-- The ink of a text behind another depends on the part that the other leaves open. -/
theorem ink_append (inside : Bool) (t u : Bytes) :
    ink inside (t ++ u) = ink inside t ++ ink (isInside inside t) u := by
  induction t generalizing inside with
  | nil => rfl
  | cons b t ih => rw [List.cons_append, ink, ih, ink, List.append_assoc]; rfl

/-- A text outside literal parts that leaves none open, and its ink. -/
structure Inks (text inked : Bytes) : Prop where
  closed : isInside false text = false
  ink : ink false text = inked

namespace Inks

variable {t u inked inked' : Bytes}

protected theorem nil : Inks [] [] := ⟨rfl, rfl⟩

theorem append (ht : Inks t inked) (hu : Inks u inked') : Inks (t ++ u) (inked ++ inked') where
  closed := by rw [isInside_append, ht.closed, hu.closed]
  ink := by rw [ink_append, ht.closed, ht.ink, hu.ink]

/-- White space has no ink. -/
theorem blank {b : UInt8} (h : isBlank b) : Inks [b] [] := by
  have hmark : (b == literalMark) = false := by
    by_contra hmark
    have hmark : b = literalMark := by simpa using hmark
    subst hmark
    exact absurd h (by decide)
  exact ⟨by simp [isInside, hmark], by simp [Sheet.ink, h]⟩

/-- Nor have several bytes of it. -/
theorem blanks (h : ∀ b ∈ t, isBlank b) : Inks t [] := by
  induction t with
  | nil => exact .nil
  | cons b t ih =>
    obtain ⟨hb, ht⟩ := List.forall_mem_cons.mp h
    exact (blank hb).append (ih ht)

theorem replicate {b : UInt8} (h : isBlank b) (n : Nat) : Inks (List.replicate n b) [] :=
  blanks fun _ hc => List.eq_of_mem_replicate hc ▸ h

/-- Texts one after the other. -/
theorem flatMap {α : Type} {l : List α} {text : α → Bytes}
    (h : ∀ a ∈ l, isInside false (text a) = false) :
    Inks (l.flatMap text) (l.flatMap fun a => Sheet.ink false (text a)) := by
  induction l with
  | nil => exact .nil
  | cons a l ih =>
    obtain ⟨ha, hl⟩ := List.forall_mem_cons.mp h
    exact append ⟨ha, rfl⟩ (ih hl)

/-- Lines with line feeds between them. -/
theorem joinLines {ls : List Bytes} (h : ∀ l ∈ ls, isInside false l = false) :
    Inks (joinLines ls) (ls.flatMap (Sheet.ink false)) := by
  induction ls with
  | nil => exact .nil
  | cons l ls ih =>
    obtain ⟨hl, hls⟩ := List.forall_mem_cons.mp h
    cases ls with
    | nil =>
      have hone : Inks l (Sheet.ink false l) := ⟨hl, rfl⟩
      simpa [YaccTables.joinLines, List.intercalate] using hone
    | cons m ls =>
      have hall := append (append ⟨hl, rfl⟩ (blank rfl : Inks [lineFeed] [])) (ih hls)
      simpa [YaccTables.joinLines, List.intercalate, List.intersperse] using hall

end Inks

/-! ## Cutting a sheet into cells -/

/-- The cells that a sheet has been cut into, in order. -/
def State.cells (s : State) : List Cell :=
  s.sections.reverse.flatten.flatten ++ s.rows.reverse.flatten ++ s.row.reverse

namespace State

/-- The end of a cell adds it. -/
theorem cells_endCell (s : State) (isHard : Bool) :
    (s.endCell isHard).cells = s.cells ++ [⟨s.text.reverse, s.width, isHard⟩] := by
  simp [cells, endCell]

/-- The end of a line moves its cells to the lines. -/
theorem cells_endRow (s : State) : s.endRow.cells = s.cells := by
  simp [cells, endRow]

/-- The end of a section moves its lines to the sections. -/
theorem cells_endSection (s : State) : s.endSection.cells = s.cells := by
  simp [cells, endSection]

end State

/-- A sheet as far as it has been cut: the cells are closed, a literal part is open if one is open
in the cell to come, and no ink is lost. -/
structure Keeps (s : State) (text : Bytes) : Prop where
  closed : ∀ c ∈ s.cells, isInside false c.text = false
  inside : isInside false s.text.reverse = s.isLiteral
  inside_text : isInside false text = s.isLiteral
  ink : (s.cells.flatMap fun c => ink false c.text) ++ ink false s.text.reverse = ink false text

namespace Keeps

variable {s : State} {text : Bytes}

/-- A byte in the cell, which is a mark or is read as the part it stands in says. -/
theorem extend (h : Keeps s text) (b : UInt8) :
    Keeps { s.extend b with isLiteral := s.isLiteral != (b == literalMark) } (text ++ [b]) where
  closed := h.closed
  inside := by
    rw [State.extend, List.reverse_cons, isInside_append, h.inside]
    rfl
  inside_text := by
    rw [isInside_append, h.inside_text]
    rfl
  ink := by
    rw [State.extend, List.reverse_cons, ink_append, ink_append, h.inside, h.inside_text,
      ← h.ink, ← List.append_assoc]
    rfl

/-- A byte that ends the cell, outside literal parts. -/
theorem endCell (h : Keeps s text) (hs : s.isLiteral = false) {b : UInt8} (hb : isBlank b)
    (isHard : Bool) : Keeps (s.endCell isHard) (text ++ [b]) where
  closed := by
    rw [State.cells_endCell, List.forall_mem_append, List.forall_mem_singleton]
    exact ⟨h.closed, h.inside.trans hs⟩
  inside := hs.symm
  inside_text := by
    rw [isInside_append, h.inside_text, hs, (Inks.blank hb).closed, State.endCell, hs]
  ink := by
    rw [State.cells_endCell, List.flatMap_append, List.flatMap_singleton, h.ink, ink_append,
      h.inside_text, hs, (Inks.blank hb).ink]
    rfl

/-- The ends of lines and sections only move cells. -/
theorem of_cells (h : Keeps s text) {s' : State} (hcells : s'.cells = s.cells)
    (htext : s'.text = s.text) (hliteral : s'.isLiteral = s.isLiteral) : Keeps s' text where
  closed := hcells ▸ h.closed
  inside := by rw [htext, hliteral, h.inside]
  inside_text := by rw [hliteral, h.inside_text]
  ink := by rw [hcells, htext, h.ink]

end Keeps

/-- What one byte does: it goes into the cell, or it is white space and ends it. -/
theorem next_keeps {s : State} {text : Bytes} (h : Keeps s text) (b : UInt8) :
    Keeps (s.next b) (text ++ [b]) := by
  rw [State.next]
  split_ifs with hmark hs htab hfeed hform
  · simpa [hmark] using h.extend b
  · have hb : (b == literalMark) = false := by simpa using hmark
    simpa [hb, State.extend] using h.extend b
  · have hblank : isBlank b := by rcases htab with rfl | rfl <;> rfl
    exact h.endCell (by simpa using hs) hblank _
  · have hblank : isBlank b := by rw [hfeed]; rfl
    exact (h.endCell (by simpa using hs) hblank false).of_cells (State.cells_endRow _) rfl rfl
  · have hblank : isBlank b := by rw [hform]; rfl
    exact (h.endCell (by simpa using hs) hblank false).of_cells
      ((State.cells_endSection _).trans (State.cells_endRow _)) rfl rfl
  · have hb : (b == literalMark) = false := by simpa using hmark
    simpa [hb, State.extend] using h.extend b

/-- What all of a sheet does. -/
theorem read_keeps (sheet : Bytes) : Keeps (sheet.foldl State.next {}) sheet := by
  induction sheet using List.reverseRecOn with
  | nil => exact ⟨by simp [State.cells], rfl, rfl, rfl⟩
  | append_singleton text b ih =>
    rw [List.foldl_append]
    exact next_keeps ih b

/-- The cells of a sheet hold its ink. -/
theorem sections_ink {sheet : Bytes} (h : isInside false sheet = false) :
    (∀ c ∈ (sections sheet).flatten.flatten, isInside false c.text = false) ∧
      ((sections sheet).flatten.flatten.flatMap fun c => ink false c.text) = ink false sheet := by
  have hkeeps := read_keeps sheet
  rw [sections]
  generalize sheet.foldl State.next {} = s at hkeeps ⊢
  -- the cell at the end of the sheet, which nothing ends
  have hlast : ∃ s' : State, s' = (if s.text.isEmpty then s else s.endCell false) ∧
      (∀ c ∈ s'.cells, isInside false c.text = false) ∧
      (s'.cells.flatMap fun c => ink false c.text) = ink false sheet := by
    refine ⟨_, rfl, ?_⟩
    split_ifs with hempty
    · have hnil : s.text = [] := by simpa using hempty
      have hink := hkeeps.ink
      rw [hnil] at hink
      exact ⟨hkeeps.closed, by simpa [ink] using hink⟩
    · rw [State.cells_endCell, List.forall_mem_append, List.forall_mem_singleton,
        List.flatMap_append, List.flatMap_singleton]
      exact ⟨⟨hkeeps.closed, hkeeps.inside.trans (hkeeps.inside_text.symm.trans h)⟩, hkeeps.ink⟩
  obtain ⟨s', hs', hclosed, hink⟩ := hlast
  have hcells : s'.endRow.endSection.sections.reverse.flatten.flatten = s'.cells := by
    simp [State.endRow, State.endSection, State.cells]
  rw [← hs', hcells]
  exact ⟨hclosed, hink⟩

/-! ## Filling the cells up -/

/-- A line is its cells and white space between them. -/
theorem inks_rowText (atStart : Bool) (cells : Row) (widths : List Nat)
    (h : ∀ c ∈ cells, isInside false c.text = false) :
    Inks (rowText atStart cells widths) (cells.flatMap fun c => ink false c.text) := by
  induction cells generalizing atStart widths with
  | nil =>
    rw [rowText]
    exact .nil
  | cons c cells ih =>
    cases widths with
    | nil =>
      rw [rowText]
      · exact .flatMap h
      · exact List.cons_ne_nil _ _
    | cons width widths =>
      obtain ⟨hc, hcells⟩ := List.forall_mem_cons.mp h
      rw [rowText, List.flatMap_cons]
      split_ifs with hempty hstart
      all_goals try rw [List.isEmpty_iff.mp hempty]
      · exact (Inks.replicate rfl _).append (ih _ _ hcells)
      · exact (Inks.replicate rfl _).append (ih _ _ hcells)
      · have htext : Inks c.text (ink false c.text) := ⟨hc, rfl⟩
        have hpadded := htext.append (Inks.replicate rfl (width - c.width) (b := space))
        rw [List.append_nil] at hpadded
        exact hpadded.append (ih _ _ hcells)

/-- Each line has its widths. -/
theorem length_widths (fuel : Nat) (rows : List Row) :
    (widths fuel rows).length = rows.length := by
  induction fuel generalizing rows with
  | zero => rw [widths, List.length_map]
  | succ fuel ih =>
    have hrun : ∀ run : List Row,
        (if (run.head?.map hasColumn).getD false then
          let width := columnWidth (run.filterMap List.head?)
          (widths fuel (run.map List.tail)).map (width :: ·)
        else run.map fun _ => []).length = run.length := by
      intro run
      split_ifs
      · rw [List.length_map, ih, List.length_map]
      · rw [List.length_map]
    rw [widths, List.length_flatMap]
    simp only [hrun]
    rw [← List.length_flatten, List.flatten_splitBy]

/-- The lines of a section are closed and hold the ink of its cells. -/
theorem sectionLines_ink {rows : List Row}
    (h : ∀ c ∈ rows.flatten, isInside false c.text = false) :
    (∀ l ∈ sectionLines rows, isInside false l = false) ∧
      (sectionLines rows).flatMap (ink false)
        = rows.flatten.flatMap fun c => ink false c.text := by
  have hlength := length_widths ((rows.map List.length).foldl max 0) rows
  rw [sectionLines]
  generalize widths _ rows = ws at hlength ⊢
  induction rows generalizing ws with
  | nil => exact ⟨by simp, by simp⟩
  | cons row rows ih =>
    cases ws with
    | nil => simp at hlength
    | cons w ws =>
      rw [List.flatten_cons, List.forall_mem_append] at h
      obtain ⟨hclosed, hink⟩ := ih h.2 ws (by simpa using hlength)
      have hrow := inks_rowText true row w h.1
      rw [List.zipWith_cons_cons, List.forall_mem_cons, List.flatMap_cons, List.flatten_cons,
        List.flatMap_append, hrow.ink, hink]
      exact ⟨⟨hrow.closed, hclosed⟩, rfl⟩

/-- Filling the cells up keeps the ink. -/
theorem inks_filled {sheet : Bytes} (h : isInside false sheet = false) :
    Inks (filled sheet) (ink false sheet) := by
  obtain ⟨hcells, hink⟩ := sections_ink h
  have hsection : ∀ rows ∈ sections sheet, ∀ c ∈ rows.flatten, isInside false c.text = false := by
    intro rows hrows c hc
    obtain ⟨row, hrow, hc⟩ := List.mem_flatten.mp hc
    exact hcells c (List.mem_flatten.mpr
      ⟨row, List.mem_flatten.mpr ⟨rows, hrows, hrow⟩, hc⟩)
  have hlines : ∀ l ∈ (sections sheet).flatMap sectionLines, isInside false l = false := by
    intro l hl
    obtain ⟨rows, hrows, hl⟩ := List.mem_flatMap.mp hl
    exact (sectionLines_ink (hsection rows hrows)).1 l hl
  have hall : ((sections sheet).flatMap sectionLines).flatMap (ink false) = ink false sheet := by
    rw [← hink, List.flatMap_assoc]
    generalize sections sheet = all at hsection
    induction all with
    | nil => rfl
    | cons rows all ih =>
      obtain ⟨hrows, hall⟩ := List.forall_mem_cons.mp hsection
      rw [List.flatMap_cons, List.flatten_cons, List.flatten_append, List.flatMap_append, ih hall,
        (sectionLines_ink hrows).2]
  rw [filled, ← hall]
  exact .joinLines hlines

/-! ## Blanks at the ends of lines -/

/-- A text as far as it has been trimmed: what has been written is a text of the same ink without
its marks, and only blanks are held back. -/
structure Trims (s : TrimState) (text : Bytes) : Prop where
  inside : isInside false text = (s.part == .literal)
  pending : ∀ b ∈ s.pending, isBlank b
  written : ∃ inked, s.written.reverse = unmarked inked ∧ ink false inked = ink false text ∧
    isInside false inked = isInside false text

/-- Marks are left out byte by byte. -/
theorem unmarked_append (t u : Bytes) : unmarked (t ++ u) = unmarked t ++ unmarked u :=
  List.filter_append ..

/-- Any other byte than the mark stays. -/
theorem unmarked_of_ne {b : UInt8} (h : b ≠ literalMark) : unmarked [b] = [b] :=
  List.filter_eq_self.mpr (by simpa using h)

/-- White space has no marks. -/
theorem unmarked_blanks {t : Bytes} (h : ∀ b ∈ t, isBlank b) : unmarked t = t := by
  refine List.filter_eq_self.mpr fun b hb => ?_
  by_contra hmark
  have hmark : b = literalMark := by simpa using hmark
  exact absurd (hmark ▸ h b hb) (by decide)

namespace Trims

variable {s s' : TrimState} {text : Bytes} {b : UInt8}

/-- A byte for which a piece with the same ink is written. -/
theorem write (h : Trims s text) (piece : Bytes)
    (hpart : isInside (s.part == .literal) [b] = (s'.part == .literal))
    (hpending : ∀ b ∈ s'.pending, isBlank b)
    (hwritten : s'.written.reverse = s.written.reverse ++ unmarked piece)
    (hinside : isInside (s.part == .literal) piece = isInside (s.part == .literal) [b])
    (hink : ink (s.part == .literal) piece = ink (s.part == .literal) [b]) :
    Trims s' (text ++ [b]) where
  inside := by rw [isInside_append, h.inside, hpart]
  pending := hpending
  written := by
    obtain ⟨inked, hreverse, hsame, hopen⟩ := h.written
    refine ⟨inked ++ piece, ?_, ?_, ?_⟩
    · rw [hwritten, hreverse, unmarked_append]
    · rw [ink_append, ink_append, hsame, hopen, h.inside, hink]
    · rw [isInside_append, isInside_append, hopen, h.inside, hinside]

/-- A byte of a literal part, or the mark behind it. -/
theorem nextLiteral (h : Trims s text) (hs : s.part = .literal) (b : UInt8) :
    Trims (if b = literalMark then { s with part := .blank }
      else { s with written := b :: s.written }) (text ++ [b]) := by
  split_ifs with hmark
  · refine h.write [b] ?_ h.pending ?_ rfl rfl
    · rw [hs, hmark]
      rfl
    · rw [hmark]
      exact (List.append_nil _).symm
  · have hb : (b == literalMark) = false := by simpa using hmark
    refine h.write [b] ?_ h.pending ?_ rfl rfl
    · simp [isInside, hs, hb]
    · rw [List.reverse_cons, unmarked_of_ne hmark]

/-- A byte outside literal parts: blanks are held back until a byte comes that is none. -/
theorem nextPlain (h : Trims s text) (hs : s.part ≠ .literal) (b : UInt8) :
    Trims (s.nextPlain b) (text ++ [b]) := by
  have hpart : (s.part == .literal) = false := by simpa using hs
  have hpending : Inks s.pending.reverse [] :=
    .blanks fun c hc => h.pending c (List.mem_reverse.mp hc)
  have hunmarked : unmarked s.pending.reverse = s.pending.reverse :=
    unmarked_blanks fun c hc => h.pending c (List.mem_reverse.mp hc)
  -- what was held back, and a byte behind it
  have hpiece : ∀ c : UInt8, isInside false (s.pending.reverse ++ [c]) = isInside false [c] ∧
      ink false (s.pending.reverse ++ [c]) = ink false [c] := fun c => by
    rw [isInside_append, ink_append, hpending.closed, hpending.ink]
    exact ⟨rfl, rfl⟩
  rw [TrimState.nextPlain]
  by_cases hblank : b = tab ∨ b = softTab ∨ b = space
  · rw [if_pos hblank]
    have hb : Inks [b] [] := .blank (by rcases hblank with rfl | rfl | rfl <;> rfl)
    refine h.write [] (by rw [hpart, hb.closed]; rfl) ?_ (List.append_nil _).symm
      (by rw [hpart, hb.closed]; rfl) (by rw [hpart, hb.ink]; rfl)
    refine List.forall_mem_cons.mpr ⟨?_, h.pending⟩
    rcases hblank with rfl | rfl | rfl <;> rfl
  rw [if_neg hblank]
  split_ifs with hend hmark
  · have hb : Inks [b] [] := .blank (by simp [isBlank, hend])
    have hfeed : Inks [lineFeed] [] := .blank rfl
    exact h.write [lineFeed] (by rw [hpart, hb.closed]; rfl) (by simp) List.reverse_cons
      (by rw [hpart, hb.closed, hfeed.closed]) (by rw [hpart, hb.ink, hfeed.ink])
  · obtain ⟨hinside, hink⟩ := hpiece b
    refine h.write (s.pending.reverse ++ [b]) ?_ (by simp) ?_ (hpart ▸ hinside) (hpart ▸ hink)
    · rw [hpart, hmark]
      rfl
    · rw [List.reverse_append, unmarked_append, hunmarked, hmark]
      exact congrArg _ (List.append_nil _).symm
  · obtain ⟨hinside, hink⟩ := hpiece b
    have hb : (b == literalMark) = false := by simpa using hmark
    refine h.write (s.pending.reverse ++ [b]) ?_ (by simp) ?_ (hpart ▸ hinside) (hpart ▸ hink)
    · rw [hpart, isInside, List.foldl_cons, hb]
      rfl
    · rw [List.reverse_cons, List.reverse_append, unmarked_append, hunmarked,
        unmarked_of_ne hmark, List.append_assoc]

end Trims

/-- What trimming a text does. -/
theorem trim_keeps (text : Bytes) : Trims (text.foldl TrimState.next {}) text := by
  induction text using List.reverseRecOn with
  | nil => exact ⟨rfl, by simp, [], rfl, rfl, rfl⟩
  | append_singleton text b ih =>
    rw [List.foldl_append, List.foldl_cons, List.foldl_nil, TrimState.next]
    by_cases hs : (text.foldl TrimState.next {}).part = .literal
    · rw [if_pos hs]
      exact ih.nextLiteral hs b
    · rw [if_neg hs]
      exact ih.nextPlain hs b

/-! ## The text on a sheet -/

/-- Columns only move white space: what is written is a text with the ink of the sheet, without its
marks. So literal parts come out byte for byte, and the words outside them in their order. -/
theorem render_ink {sheet : Bytes} (h : isInside false sheet = false) :
    ∃ text, render sheet = unmarked text ∧ ink false text = ink false sheet := by
  obtain ⟨text, htext, hink, -⟩ := (trim_keeps (filled sheet)).written
  exact ⟨text, htext, hink.trans (inks_filled h).ink⟩

/-- What can be seen of a text without marks is what can be seen of its ink. -/
theorem visible_unmarked (inside : Bool) (text : Bytes) :
    (unmarked text).filter (!isBlank ·) = (unmarked (ink inside text)).filter (!isBlank ·) := by
  induction text generalizing inside with
  | nil => rfl
  | cons b text ih =>
    rw [ink, unmarked_append, List.filter_append, ← ih, ← List.singleton_append, unmarked_append,
      List.filter_append]
    congr 1
    split_ifs with hb
    · rfl
    · have hblank : isBlank b := by simpa using (not_or.mp (mt Bool.or_eq_true_iff.mpr hb)).2
      rw [unmarked_blanks (by simpa using hblank)]
      simp [hblank, unmarked]

/-- What can be seen of a sheet can be seen of its text, byte for byte and in the same order. -/
theorem visible_render {sheet : Bytes} (h : isInside false sheet = false) :
    (render sheet).filter (!isBlank ·) = (unmarked sheet).filter (!isBlank ·) := by
  obtain ⟨text, htext, hink⟩ := render_ink h
  rw [htext, visible_unmarked false, hink, ← visible_unmarked]

end YaccTables.Code.Sheet
