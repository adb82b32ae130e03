import YaccTables.Proofs.Building
import YaccTables.Proofs.Tokenizing

/-!
# Text behind the closing mark

A grammar may be followed by a mark `%%` and anything at all. Nothing of that is looked at: text
that can be read stays readable, and means the same, with a line feed, the mark and any bytes put
behind it.

The line feed is what keeps the two apart. It ends a line comment, it is no part of a word and it
stands in no quoted name, so that a step that finds something in a text finds the same with a line
feed and more behind the text (`Scan.step_append`). Scanning then goes through the tokens of the
text as before (`Scan.stream_append`). If it got to the end of the text, it goes on with what is
behind the line feed; if it got stuck, it may now find more tokens, but then the document had ended
before.
-/

namespace YaccTables

namespace Scan

/-! ## One step with more text behind it -/

section Step

variable {p : UInt8 → Bool} {b mark : UInt8} {rest : Bytes} (behind : Bytes)

/-- A run does not go beyond a byte that is not of its class. -/
theorem run_append (hb : p b = false) : run p (rest ++ b :: behind) = run p rest := by
  unfold run
  rw [List.takeWhile_append, List.takeWhile_cons_of_neg (by simp [hb]), List.append_nil]
  split
  · next hall => exact hall.symm
  · rfl

/-- A quoted name stays one if more lines follow. -/
theorem quotation_append {kind : TokenKind} {more : Nat}
    (h : quotation mark rest = .token kind more) :
    quotation mark (rest ++ lineFeed :: behind) = .token kind more := by
  obtain ⟨rfl, hend, rfl⟩ := quotation_eq_token h
  have hfeed : isQuotable mark lineFeed = false := by simp [isQuotable]
  have hlt := (List.getElem?_eq_some_iff.mp hend).1
  rw [quotation, run_append behind hfeed, List.getElem?_append_left hlt, if_pos hend]

/-- A mark or directive stays one if more lines follow. -/
theorem percent_append {kind : TokenKind} {more : Nat} (h : percent rest = .token kind more) :
    percent (rest ++ lineFeed :: behind) = .token kind more := by
  cases rest with
  | nil => exact absurd h (by simp [percent])
  | cons c body =>
    have hrun : run isWordStart (c :: body ++ lineFeed :: behind) = run isWordStart (c :: body) :=
      run_append behind (by decide)
    rw [← h]
    show percent (c :: (body ++ lineFeed :: behind)) = percent (c :: body)
    rw [percent, percent, ← List.cons_append, hrun]

/-- A step that finds something other than blanks finds the same with a line feed and more behind
the text. -/
theorem step_append (hb : isGap b = false) {found : Option TokenKind × Nat}
    (h : (step b rest).found? = some found) :
    step b (rest ++ lineFeed :: behind) = step b rest := by
  have hrun : run isWordPart (rest ++ lineFeed :: behind) = run isWordPart rest :=
    run_append behind (by decide)
  cases hstep : step b rest with
  | stuck more =>
    rw [hstep] at h
    exact absurd h (by simp [Step.found?])
  | gap more =>
    rcases step_eq_gap hstep with ⟨hgap, -⟩ | ⟨body, rfl, rfl, rfl⟩ | ⟨body, n, rfl, rfl, hn, rfl⟩
    · exact absurd (hgap.symm.trans hb) (by decide)
    -- a comment of either sort
    · show slash (ascii '/' :: (body ++ lineFeed :: behind)) = _
      rw [slash, if_pos rfl, run_append behind (by decide)]
    · show slash (ascii '*' :: (body ++ lineFeed :: behind)) = _
      rw [slash, if_neg (by decide), if_pos rfl, commentEnd?_append hn]
  | token kind more =>
    rcases step_eq_token hstep with ⟨rfl, hword, rfl⟩ | ⟨-, rfl, -, -⟩ | ⟨-, rfl, -, -⟩ |
      ⟨-, hmark, -, -⟩ | ⟨rfl, rfl, rfl⟩ | ⟨rfl, rfl, rfl⟩ | ⟨rfl, rfl, rfl⟩
    · rw [step, if_neg (by simp [hb]), if_pos hword, hrun]
    · exact percent_append behind hstep
    · exact percent_append behind hstep
    · rcases hmark with rfl | rfl
      · exact quotation_append behind hstep
      · exact quotation_append behind hstep
    all_goals rfl

end Step

/-! ## The whole stream with more text behind it -/

/-- The tokens of a text stay what they are with a line feed and more behind it. If the text was
scanned to its end, scanning goes on behind the line feed. -/
theorem stream_append (engine : Engine) (offset : Nat) (text behind : Bytes) :
    ∃ s : TokenStream, stream engine offset 0 (text ++ lineFeed :: behind) =
        s.prepend (stream engine offset 0 text).scanned ∧
      ((stream engine offset 0 text).flaw? = none →
        s = stream engine (offset + text.length + 1) 0 behind) := by
  match text with
  | [] =>
    have hblank : isGap lineFeed = true := by decide
    exact ⟨stream engine (offset + 1) 0 behind, stream_blank offset behind hblank, fun _ => rfl⟩
  | b :: rest =>
    rw [List.cons_append]
    by_cases hb : isGap b = true
    · -- a blank: there may be fewer in the run than now, but they are passed over one by one
      obtain ⟨s, hs, hdone⟩ := stream_append engine (offset + 1) rest behind
      rw [stream_blank offset _ hb, stream_blank offset _ hb]
      refine ⟨s, hs, fun hflaw => ?_⟩
      rw [hdone hflaw, List.length_cons]
      congr 1
      omega
    · replace hb : isGap b = false := Bool.eq_false_iff.mpr hb
      -- behind the lexeme everything is as it was
      have hnext : ∀ more, more ≤ rest.length →
          ∃ s : TokenStream,
            stream engine (offset + 1 + more) 0 ((rest ++ lineFeed :: behind).drop more) =
              s.prepend (stream engine (offset + 1 + more) 0 (rest.drop more)).scanned ∧
            ((stream engine (offset + 1 + more) 0 (rest.drop more)).flaw? = none →
              s = stream engine (offset + (b :: rest).length + 1) 0 behind) := by
        intro more hle
        obtain ⟨s, hs, hdone⟩ := stream_append engine (offset + 1 + more) (rest.drop more) behind
        rw [List.drop_append_of_le_length hle]
        refine ⟨s, hs, fun hflaw => ?_⟩
        rw [hdone hflaw, List.length_drop, List.length_cons]
        congr 1
        omega
      cases hstep : step b rest with
      | gap more =>
        have hsame := (step_append behind hb (by rw [hstep]; rfl)).trans hstep
        rw [stream_gap offset hstep, stream_gap offset hsame]
        exact hnext more (mem_of_gap hstep).1
      | token kind more =>
        have hle := (mem_of_token hstep).1
        have hsame := (step_append behind hb (by rw [hstep]; rfl)).trans hstep
        obtain ⟨s, hs, hdone⟩ := hnext more hle
        rw [stream_token offset hstep, stream_token offset hsame, hs,
          List.take_append_of_le_length hle]
        exact ⟨s, rfl, hdone⟩
      | stuck fitting =>
        obtain ⟨flaw, hstuck⟩ : ∃ flaw, stream engine offset 0 (b :: rest) = .stuck flaw :=
          ⟨_, by rw [stream, hstep]⟩
        rw [hstuck]
        exact ⟨_, rfl, fun hflaw => absurd hflaw (by simp [TokenStream.flaw?])⟩
termination_by text.length

end Scan

/-! ## Documents with trailing text -/

/-- The text with a line feed, a closing mark and more behind it. -/
def Source.followedBy (source : Source) (trailing : Bytes) : Source :=
  { source with text := source.text ++ utf8 "\n%%" ++ trailing }

namespace Document

open Scan

/-- Behind a mark on a line of its own nothing matters for what comes before. -/
theorem ofText_closed (text trailing : Bytes) :
    ∃ s : TokenStream, TokenStream.ofText (text ++ utf8 "\n%%" ++ trailing) =
        s.prepend (TokenStream.ofText text).scanned ∧
      ((TokenStream.ofText text).flaw? = none →
        ∃ (mark : Token) (rest : TokenStream), s = .next mark rest ∧ mark.kind = .sections) := by
  have hbehind : text ++ utf8 "\n%%" ++ trailing =
      text ++ lineFeed :: (ascii '%' :: ascii '%' :: trailing) := by
    rw [List.append_assoc]
    rfl
  obtain ⟨s, hs, hdone⟩ := stream_append .standard 0 text (ascii '%' :: ascii '%' :: trailing)
  refine ⟨s, by rw [hbehind]; exact hs, fun hflaw => ?_⟩
  -- the closing mark is found wherever scanning goes on
  have hmark : step (ascii '%') (ascii '%' :: trailing) = .token .sections 1 := rfl
  rw [hdone hflaw, stream_token _ hmark]
  exact ⟨_, _, rfl, rfl⟩

/-- A document is still written where it was: it ended with a mark of its own, or it ended with the
text and now ends with the closing mark. -/
theorem WrittenIn.followedBy {doc : Document} {text : Bytes} (h : doc.WrittenIn text)
    (trailing : Bytes) : doc.WrittenIn (text ++ utf8 "\n%%" ++ trailing) := by
  obtain ⟨ts, rest, htokens, hform⟩ := h
  obtain ⟨s, hs, hdone⟩ := ofText_closed text trailing
  cases hform with
  | @mk declared defined mark last decls defs hdeclared hmark hdefined hlast hstart =>
    rw [show declared.flatten ++ mark :: (defined.flatten ++ [last]) ++ rest =
      (declared.flatten ++ [mark] ++ defined.flatten) ++ last :: rest by simp] at htokens
    obtain ⟨r, hr, hrtokens⟩ := TokenStream.eq_prepend_of_tokens htokens
    cases r with
    | stuck flaw => exact absurd hrtokens (by simp [TokenStream.tokens])
    | done offset =>
      have hflaw : (TokenStream.ofText text).flaw? = none := by
        rw [hr, TokenStream.flaw?_prepend]
        rfl
      obtain ⟨closing, r', rfl, hclosing⟩ := hdone hflaw
      refine ⟨_, r'.tokens, ?_, .mk hdeclared hmark hdefined (.inr hclosing) hstart⟩
      rw [hs, hr, TokenStream.tokens_prepend, TokenStream.scanned_prepend]
      simp [TokenStream.scanned, TokenStream.tokens]
    | next t r' =>
      obtain ⟨rfl, -⟩ := List.cons.inj hrtokens
      refine ⟨_, r'.scanned ++ s.tokens, ?_, .mk hdeclared hmark hdefined hlast hstart⟩
      rw [hs, hr, TokenStream.tokens_prepend, TokenStream.scanned_prepend]
      simp [TokenStream.scanned]

end Document

namespace Description

/-- **Text behind the closing mark is never looked at.** -/
theorem parse_followedBy {source : Source} {a : Description} (h : parse source = .ok a)
    (trailing : Bytes) :
    parse (source.followedBy trailing) = .ok a ∧
      ∀ kind, Grammar.ofSource kind (source.followedBy trailing) =
        Grammar.ofSource kind source := by
  have hparse : parse (source.followedBy trailing) = .ok a := by
    obtain ⟨doc, hdoc, rfl⟩ := parse_eq_ok_iff.mp h
    exact parse_eq_ok_iff.mpr ⟨doc, hdoc.followedBy trailing, rfl⟩
  refine ⟨hparse, fun kind => ?_⟩
  rw [Grammar.ofSource, Grammar.ofSource, hparse, h]

/-- Grammar text that ends in the middle of a line comment, in which there is a mark. -/
def endsInComment : Source := { text := utf8 "%start s %% s: 'x' | s s; // %%" }

theorem parse_followedBy_endsInComment : ∃ a, parse endsInComment = .ok a ∧
    parse (endsInComment.followedBy (utf8 "% 'x /* %% ;")) = .ok a ∧
    ∀ kind, Grammar.ofSource kind (endsInComment.followedBy (utf8 "% 'x /* %% ;")) =
      Grammar.ofSource kind endsInComment := by
  let a : Description :=
    { start := utf8 "s"
      tokens := [utf8 "x"]
      rules := [⟨utf8 "s", [⟨[.token (utf8 "x")], []⟩,
        ⟨[.rule (utf8 "s"), .rule (utf8 "s")], []⟩]⟩] }
  have hparse : parse endsInComment = .ok a := by decide +kernel
  exact ⟨a, hparse, parse_followedBy hparse _⟩

end Description

end YaccTables
