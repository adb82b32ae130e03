import Mathlib.Algebra.Order.Ring.Nat
import Mathlib.Data.List.Basic
import YaccTables.Bytes
import YaccTables.Proofs.Decimal

/-!
# Lines of a text

A text is its lines with line feeds between them, and there is one way to part it like that:

* `joinLines_lines` and `lines_joinLines` go from a text to its lines and back;
* `lines_ended_append` takes complete lines off the front of a text;
* `exists_lines_eq` says where the last line of a text begins, which is all that positions need.
-/

namespace YaccTables

/-- Lines with a line feed behind each of them. -/
def endedLines (ls : List Bytes) : Bytes := ls.flatMap (· ++ [lineFeed])

theorem endedLines_cons (l : Bytes) (ls : List Bytes) :
    endedLines (l :: ls) = l ++ lineFeed :: endedLines ls := by
  rw [endedLines, List.flatMap_cons, List.append_assoc, ← endedLines]
  rfl

theorem endedLines_append (ls ms : List Bytes) :
    endedLines (ls ++ ms) = endedLines ls ++ endedLines ms :=
  List.flatMap_append

/-- Each line counts with its end. -/
theorem length_endedLines (ls : List Bytes) :
    (endedLines ls).length = (ls.map fun l => l.length + 1).sum := by
  rw [endedLines, List.length_flatMap]
  simp only [List.length_append, List.length_singleton]

/-! ## From a text to its lines and back -/

theorem lines_ne_nil (text : Bytes) : lines text ≠ [] := List.splitOn_ne_nil _ _

/-- A text is put together again from its lines. -/
theorem joinLines_lines (text : Bytes) : joinLines (lines text) = text :=
  List.intercalate_splitOn lineFeed

theorem lines_joinLines {ls : List Bytes} (h : ∀ l ∈ ls, lineFeed ∉ l) (hne : ls ≠ []) :
    lines (joinLines ls) = ls := List.splitOn_intercalate lineFeed h hne

/-- A text without line ends is one line. -/
theorem lines_of_notMem {text : Bytes} (h : lineFeed ∉ text) : lines text = [text] :=
  List.splitOn_eq_singleton h

/-- A line end separates the lines before it from those behind it. -/
theorem lines_append_feed (text rest : Bytes) :
    lines (text ++ lineFeed :: rest) = lines text ++ lines rest :=
  List.splitOn_append_cons_self text rest

/-- Ended lines are followed by the lines of the rest. -/
theorem lines_ended_append {ls : List Bytes} (h : ∀ l ∈ ls, lineFeed ∉ l) (text : Bytes) :
    lines (endedLines ls ++ text) = ls ++ lines text := by
  induction ls with
  | nil => rfl
  | cons l ls ih =>
    obtain ⟨hl, hls⟩ := List.forall_mem_cons.mp h
    rw [endedLines_cons, List.append_assoc, List.cons_append, lines_append_feed, ih hls,
      lines_of_notMem hl]
    rfl

/-- Bytes on one line lengthen the first line behind them. -/
theorem lines_append_of_notMem {text : Bytes} (h : lineFeed ∉ text) (rest : Bytes) :
    ∃ first more, lines rest = first :: more ∧ lines (text ++ rest) = (text ++ first) :: more := by
  induction text with
  | nil =>
    obtain ⟨first, more, hrest⟩ := List.exists_cons_of_ne_nil (lines_ne_nil rest)
    exact ⟨first, more, hrest, hrest⟩
  | cons b text ih =>
    obtain ⟨hb, htext⟩ := not_or.mp (mt List.mem_cons.mpr h)
    obtain ⟨first, more, hrest, hmore⟩ := ih htext
    refine ⟨first, more, hrest, ?_⟩
    have hne : ¬ ((b == lineFeed) = true) := by simpa using Ne.symm hb
    rw [List.cons_append, lines, List.splitOn_cons_eq_if_modifyHead, if_neg hne, ← lines, hmore]
    rfl

/-! ## Line feeds -/

/-- The last line of a text stands behind complete lines. -/
theorem exists_lines_eq (text : Bytes) :
    ∃ init last, lines text = init ++ [last] ∧ text = endedLines init ++ last ∧
      (∀ l ∈ init, lineFeed ∉ l) ∧ lineFeed ∉ last := by
  induction text with
  | nil => exact ⟨[], [], rfl, rfl, by simp, by simp⟩
  | cons b text ih =>
    obtain ⟨init, last, -, htext, hinit, hlast⟩ := ih
    -- the parts of the longer text, from which its lines follow
    have hparts : ∃ init' last', b :: text = endedLines init' ++ last' ∧
        (∀ l ∈ init', lineFeed ∉ l) ∧ lineFeed ∉ last' := by
      by_cases hb : b = lineFeed
      · refine ⟨[] :: init, last, ?_, List.forall_mem_cons.mpr ⟨by simp, hinit⟩, hlast⟩
        rw [endedLines_cons, hb, htext]
        rfl
      · cases init with
        | nil =>
          refine ⟨[], b :: last, by rw [htext]; rfl, by simp, ?_⟩
          simpa [eq_comm] using And.intro hb hlast
        | cons l init =>
          obtain ⟨hl, hinit⟩ := List.forall_mem_cons.mp hinit
          refine ⟨(b :: l) :: init, last, ?_, List.forall_mem_cons.mpr ⟨?_, hinit⟩, hlast⟩
          · rw [htext, endedLines_cons, endedLines_cons]
            rfl
          · simpa [eq_comm] using And.intro hb hl
    obtain ⟨init', last', heq, hinit', hlast'⟩ := hparts
    refine ⟨init', last', ?_, heq, hinit', hlast'⟩
    rw [heq, lines_ended_append hinit', lines_of_notMem hlast']

/-- No line holds a line end. -/
theorem lineFeed_notMem_of_mem_lines {text l : Bytes} (h : l ∈ lines text) : lineFeed ∉ l := by
  obtain ⟨init, last, hlines, -, hinit, hlast⟩ := exists_lines_eq text
  rw [hlines] at h
  rcases List.mem_append.mp h with h | h
  · exact hinit l h
  · rwa [List.mem_singleton.mp h]

/-- Ended lines have one line end each. -/
theorem count_endedLines {ls : List Bytes} (h : ∀ l ∈ ls, lineFeed ∉ l) :
    (endedLines ls).count lineFeed = ls.length := by
  induction ls with
  | nil => rfl
  | cons l ls ih =>
    obtain ⟨hl, hls⟩ := List.forall_mem_cons.mp h
    rw [endedLines_cons, List.count_append, List.count_eq_zero_of_not_mem hl, List.count_cons_self,
      ih hls, List.length_cons, Nat.zero_add]

/-- There is one line more than there are line ends. -/
theorem length_lines (text : Bytes) : (lines text).length = text.count lineFeed + 1 := by
  obtain ⟨init, last, hlines, htext, hinit, hlast⟩ := exists_lines_eq text
  rw [hlines, htext, List.count_append, count_endedLines hinit,
    List.count_eq_zero_of_not_mem hlast, List.length_append]
  rfl

/-- Lines can be put together part by part. -/
theorem joinLines_append {ls ms : List Bytes} (hls : ls ≠ []) (hms : ms ≠ []) :
    joinLines (ls ++ ms) = joinLines ls ++ lineFeed :: joinLines ms := by
  obtain ⟨l, ls, rfl⟩ := List.exists_cons_of_ne_nil hls
  obtain ⟨m, ms, rfl⟩ := List.exists_cons_of_ne_nil hms
  simp only [joinLines, List.cons_append, intercalate_cons, List.flatMap_append, List.flatMap_cons,
    List.append_assoc]
  rfl

/-- Lines that are put together have a line end between each two. -/
theorem count_joinLines {ls : List Bytes} (h : ∀ l ∈ ls, lineFeed ∉ l) (hne : ls ≠ []) :
    (joinLines ls).count lineFeed + 1 = ls.length := by
  rw [← length_lines, lines_joinLines h hne]

end YaccTables
