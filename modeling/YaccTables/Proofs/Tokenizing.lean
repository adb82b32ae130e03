import YaccTables.Proofs.LongestMatch

/-!
# Scanning a whole text

`Scan.ScansAs` is scanning told by the patterns alone: at every place that is reached, the longest
match is a gap and left out or a token and kept, and where nothing matches the text is stuck.
`Scan.scansAs_stream` says that the scanner does this, by one step (`longestMatch_of_found`) after
the other.

Where the tokens then stand follows from the relation. `TokenStream.RunsFrom` is the invariant that
puts one behind the other; that all bytes between them are blanks and comments (`ScansAs.gap_mem`)
needs the text as well. `TokenStream.Tokenizes` has all of it together.
-/

namespace YaccTables

/-- The offset just past the token. -/
def Token.stop (t : Token) : Nat := t.offset + t.lexeme.length

namespace TokenStream

/-- The offset at which the stream is at the end of its text or stuck. -/
def stop : TokenStream → Nat
  | .done offset => offset
  | .stuck flaw => flaw.offset
  | .next _ rest => rest.stop

/-- The stretches of text that no token takes, from an offset on: before the first token, between
each two of them, and behind the last. -/
def gapsFrom (start : Nat) : TokenStream → List (Nat × Nat)
  | .done offset => [(start, offset)]
  | .stuck flaw => [(start, flaw.offset)]
  | .next t rest => (start, t.offset) :: rest.gapsFrom t.stop

/-! ## One token behind the other -/

/-- The tokens are not empty, and none starts before the one in front of it is over. -/
def RunsFrom (start : Nat) : TokenStream → Prop
  | .done offset => start ≤ offset
  | .stuck flaw => start ≤ flaw.offset
  | .next t rest => start ≤ t.offset ∧ t.offset < t.stop ∧ rest.RunsFrom t.stop

namespace RunsFrom

variable {start : Nat} {s : TokenStream}

/-- A stream that runs from somewhere runs from any place before. -/
theorem mono {start' : Nat} (h : s.RunsFrom start) (hle : start' ≤ start) :
    s.RunsFrom start' := by
  cases s with
  | done offset => exact hle.trans h
  | stuck flaw => exact hle.trans h
  | next t rest => exact ⟨hle.trans h.1, h.2⟩

/-- A stream stops no sooner than it starts. -/
theorem le_stop (h : s.RunsFrom start) : start ≤ s.stop := by
  induction s generalizing start with
  | done offset => exact h
  | stuck flaw => exact h
  | next t rest ih =>
    have hrest : t.stop ≤ rest.stop := ih h.2.2
    have hstart := h.1
    have hpos := h.2.1
    show start ≤ rest.stop
    omega

/-- The tokens of a stream stand between its start and its stop. -/
theorem of_mem_scanned (h : s.RunsFrom start) {t : Token} (ht : t ∈ s.scanned) :
    start ≤ t.offset ∧ t.offset < t.stop ∧ t.stop ≤ s.stop := by
  induction s generalizing start with
  | done offset => exact absurd ht List.not_mem_nil
  | stuck flaw => exact absurd ht List.not_mem_nil
  | next u rest ih =>
    obtain ⟨hstart, hpos, hrest⟩ := h
    rcases List.mem_cons.mp ht with rfl | ht
    · exact ⟨hstart, hpos, hrest.le_stop⟩
    · obtain ⟨hle, hlt, hstop⟩ := ih hrest ht
      exact ⟨by omega, hlt, hstop⟩

/-- The gaps of a stream lie between its start and its stop. -/
theorem of_mem_gapsFrom (h : s.RunsFrom start) {g : Nat × Nat} (hg : g ∈ s.gapsFrom start) :
    start ≤ g.1 ∧ g.2 ≤ s.stop := by
  induction s generalizing start with
  | done offset =>
    obtain rfl := List.mem_singleton.mp hg
    exact ⟨le_rfl, le_rfl⟩
  | stuck flaw =>
    obtain rfl := List.mem_singleton.mp hg
    exact ⟨le_rfl, le_rfl⟩
  | next t rest ih =>
    obtain ⟨hstart, hpos, hrest⟩ := h
    rcases List.mem_cons.mp hg with rfl | hg
    · exact ⟨le_rfl, hpos.le.trans hrest.le_stop⟩
    · obtain ⟨hle, hstop⟩ := ih hrest hg
      exact ⟨by omega, hstop⟩

/-- The tokens of a stream stand one behind the other. -/
theorem pairwise_scanned (h : s.RunsFrom start) :
    s.scanned.Pairwise fun t u => t.stop ≤ u.offset := by
  induction s generalizing start with
  | done offset => exact List.Pairwise.nil
  | stuck flaw => exact List.Pairwise.nil
  | next t rest ih =>
    obtain ⟨-, -, hrest⟩ := h
    exact List.pairwise_cons.mpr ⟨fun u hu => (hrest.of_mem_scanned hu).1, ih hrest⟩

/-- No gap runs into a token. -/
theorem gap_apart (h : s.RunsFrom start) {t : Token} (ht : t ∈ s.scanned) {g : Nat × Nat}
    (hg : g ∈ s.gapsFrom start) : t.stop ≤ g.1 ∨ g.2 ≤ t.offset := by
  induction s generalizing start with
  | done offset => exact absurd ht List.not_mem_nil
  | stuck flaw => exact absurd ht List.not_mem_nil
  | next u rest ih =>
    obtain ⟨-, hpos, hrest⟩ := h
    rcases List.mem_cons.mp ht with rfl | ht
    · rcases List.mem_cons.mp hg with rfl | hg
      · exact .inr le_rfl
      · exact .inl (hrest.of_mem_gapsFrom hg).1
    · rcases List.mem_cons.mp hg with rfl | hg
      · exact .inr (hpos.le.trans (hrest.of_mem_scanned ht).1)
      · exact ih hrest ht hg

/-- Every byte up to the end is in a token or in a gap. -/
theorem covered (h : s.RunsFrom start) {i : Nat} (hi : start ≤ i) (hstop : i < s.stop) :
    (∃ t ∈ s.scanned, t.offset ≤ i ∧ i < t.stop) ∨
      ∃ g ∈ s.gapsFrom start, g.1 ≤ i ∧ i < g.2 := by
  induction s generalizing start with
  | done offset => exact .inr ⟨_, List.mem_cons_self, hi, hstop⟩
  | stuck flaw => exact .inr ⟨_, List.mem_cons_self, hi, hstop⟩
  | next t rest ih =>
    obtain ⟨-, -, hrest⟩ := h
    by_cases hbefore : i < t.offset
    · exact .inr ⟨_, List.mem_cons_self, hi, hbefore⟩
    by_cases hinside : i < t.stop
    · exact .inl ⟨t, List.mem_cons_self, Nat.le_of_not_lt hbefore, hinside⟩
    · rcases ih hrest (Nat.le_of_not_lt hinside) hstop with ⟨u, hu, hiu⟩ | ⟨g, hg, hig⟩
      · exact .inl ⟨u, List.mem_cons_of_mem t hu, hiu⟩
      · exact .inr ⟨g, List.mem_cons_of_mem _ hg, hig⟩

end RunsFrom

/-- The end of the input is a token of a stream that gets there, and of no other. -/
theorem tokens_eq (s : TokenStream) :
    s.tokens = s.scanned ++ if s.flaw?.isSome then [] else [.endAt s.stop] := by
  induction s with
  | done offset => rfl
  | stuck flaw => rfl
  | next t rest ih => exact congrArg (t :: ·) ih

end TokenStream

namespace Scan

open Pattern

/-! ## Scanning by the patterns -/

/-- Scanning as the patterns have it, of a text that starts at an offset. There is no choice: a text
has at most one longest match, and it is stuck exactly if it is not over and nothing matches. -/
inductive ScansAs : Nat → Bytes → TokenStream → Prop
  | done (offset : Nat) : ScansAs offset [] (.done offset)
  /-- The longest match is a gap. -/
  | gap {offset : Nat} {lexeme rest : Bytes} {s : TokenStream}
      (hmatch : LongestMatch (lexeme ++ rest) none lexeme)
      (hrest : ScansAs (offset + lexeme.length) rest s) :
      ScansAs offset (lexeme ++ rest) s
  /-- The longest match is a token of a kind. -/
  | token {offset : Nat} {kind : TokenKind} {lexeme rest : Bytes} {s : TokenStream}
      (hmatch : LongestMatch (lexeme ++ rest) (some kind) lexeme)
      (hrest : ScansAs (offset + lexeme.length) rest s) :
      ScansAs offset (lexeme ++ rest) (.next ⟨kind, offset, lexeme⟩ s)
  /-- There is more text, and nothing matches. What does not fit is a part of that text. -/
  | stuck {flaw : Flaw} {text : Bytes} (hmatch : NoMatch text) (hpos : 0 < flaw.len)
      (hlen : flaw.len ≤ text.length) (hfault : flaw.fault = .unexpectedInput) :
      ScansAs flaw.offset text (.stuck flaw)

variable {engine : Engine}

/-- Bytes that belong to a token already read are passed over. -/
theorem stream_pending (offset : Nat) {pending : Nat} {text : Bytes} (h : pending ≤ text.length) :
    stream engine offset pending text = stream engine (offset + pending) 0 (text.drop pending) := by
  induction pending generalizing offset text with
  | zero => rfl
  | succ pending ih =>
    cases text with
    | nil => exact absurd h (by simp)
    | cons b rest =>
      rw [stream, ih (offset + 1) (Nat.le_of_succ_le_succ h), List.drop_succ_cons]
      congr 1
      omega

/-- A token is followed by the stream of the rest. -/
theorem stream_token (offset : Nat) {b : UInt8} {rest : Bytes} {kind : TokenKind} {more : Nat}
    (h : step b rest = .token kind more) :
    stream engine offset 0 (b :: rest) = .next ⟨kind, offset, b :: rest.take more⟩
      (stream engine (offset + 1 + more) 0 (rest.drop more)) := by
  have hle : more ≤ rest.length := (mem_of_token h).1
  rw [stream, h, ← stream_pending (offset + 1) hle]

/-- What is passed over leaves the stream of the rest. -/
theorem stream_gap (offset : Nat) {b : UInt8} {rest : Bytes} {more : Nat}
    (h : step b rest = .gap more) :
    stream engine offset 0 (b :: rest) = stream engine (offset + 1 + more) 0 (rest.drop more) := by
  have hle : more ≤ rest.length := (mem_of_gap h).1
  rw [stream, h, ← stream_pending (offset + 1) hle]

/-- Blanks can be passed over one by one. -/
theorem stream_blank (offset : Nat) {b : UInt8} (rest : Bytes) (hb : isGap b = true) :
    stream engine offset 0 (b :: rest) = stream engine (offset + 1) 0 rest := by
  have hrun : ∀ offset c rest, isGap c = true →
      stream engine offset 0 (c :: rest) = stream engine (offset + 1) (run isGap rest) rest := by
    intro offset c rest hc
    have hstep : step c rest = .gap (run isGap rest) := by rw [step, if_pos hc]
    rw [stream, hstep]
  rw [hrun offset b rest hb]
  cases rest with
  | nil => rfl
  | cons c rest =>
    -- behind a blank there are more blanks to the run, or the run is over
    by_cases hc : isGap c = true
    · have hmore : run isGap (c :: rest) = run isGap rest + 1 := by
        rw [run, List.takeWhile_cons_of_pos hc, List.length_cons, run]
      rw [hmore, stream, hrun (offset + 1) c rest hc]
    · have hnone : run isGap (c :: rest) = 0 := by
        rw [run, List.takeWhile_cons_of_neg hc, List.length_nil]
      rw [hnone]

/-- The engine reports input that is left over from where no lexeme starts. -/
def Engine.LeavesOver (engine : Engine) : Prop :=
  ∀ start reached, ∃ fail, engine start reached = .unconsumed start fail

theorem Engine.leavesOver_standard : Engine.standard.LeavesOver := fun _ reached =>
  ⟨reached + 1, rfl⟩

/-- **The scanner scans as the patterns have it.** -/
theorem scansAs_stream (hengine : engine.LeavesOver) (offset : Nat) (text : Bytes) :
    ScansAs offset text (stream engine offset 0 text) := by
  match text with
  | [] => exact .done offset
  | b :: rest =>
    -- what comes behind a lexeme is scanned from the offset where the lexeme ends
    have hnext : ∀ sort more, (step b rest).found? = some (sort, more) →
        b :: rest = (b :: rest.take more) ++ rest.drop more ∧
          LongestMatch ((b :: rest.take more) ++ rest.drop more) sort (b :: rest.take more) ∧
          ScansAs (offset + (b :: rest.take more).length) (rest.drop more)
            (stream engine (offset + 1) more rest) := by
      intro sort more hfound
      have hle := (mem_of_found hfound).1
      have hsplit : b :: rest = (b :: rest.take more) ++ rest.drop more := by
        rw [List.cons_append, List.take_append_drop]
      refine ⟨hsplit, hsplit ▸ longestMatch_of_found hfound, ?_⟩
      rw [stream_pending (offset + 1) hle, List.length_cons, List.length_take,
        Nat.min_eq_left hle, show offset + (more + 1) = offset + 1 + more by omega]
      exact scansAs_stream hengine (offset + 1 + more) (rest.drop more)
    rw [stream]
    cases hstep : step b rest with
    | gap more =>
      obtain ⟨hsplit, hmatch, hrest⟩ := hnext none more (by rw [hstep]; rfl)
      rw [hsplit]
      exact .gap hmatch hrest
    | token kind more =>
      obtain ⟨hsplit, hmatch, hrest⟩ := hnext (some kind) more (by rw [hstep]; rfl)
      rw [hsplit]
      exact .token hmatch hrest
    | stuck fitting =>
      have hmatch : NoMatch (b :: rest) := noMatch_iff.mpr (by rw [hstep]; rfl)
      obtain ⟨fail, hfail⟩ := hengine offset (offset + fitting)
      dsimp only
      rw [hfail]
      obtain ⟨hpos, hle⟩ := MatchFailure.unconsumed_len fail
        (show offset < offset + (b :: rest).length from Nat.lt_add_of_pos_right (Nat.succ_pos _))
      exact @ScansAs.stuck (MatchFailure.flaw _ (.unconsumed offset fail)) _ hmatch hpos
        (Nat.le_of_add_le_add_left hle) rfl
termination_by text.length

/-! ## What follows for the tokens -/

/-- No pattern matches the empty text: what it matches stands at the start of every text, and there
are texts that start with nothing. -/
theorem ne_nil_of_mem {entry : Option TokenKind × Pattern} (hentry : entry ∈ patterns) {w : Bytes}
    (hw : w ∈ entry.2.matches') : w ≠ [] := by
  rintro rfl
  have hstarts : [] <+: (0 : UInt8) :: [] := List.nil_prefix
  obtain ⟨more, hfound, -⟩ := found_of_mem hentry hw hstarts
  exact absurd hfound (by simp [show step 0 [] = .stuck 0 from rfl, Step.found?])

/-- No match is empty. -/
theorem LongestMatch.length_pos {text lexeme : Bytes} {sort : Option TokenKind}
    (h : LongestMatch text sort lexeme) : 0 < lexeme.length := by
  obtain ⟨r, hr, hw⟩ := h.matched
  exact List.length_pos_iff.mpr (ne_nil_of_mem hr hw)

/-- Where anything matches, there is a longest match, so that to be stuck and to go on exclude each
other. -/
theorem noMatch_iff_not_longestMatch {text : Bytes} :
    NoMatch text ↔ ∀ sort lexeme, ¬ LongestMatch text sort lexeme := by
  constructor
  · intro h sort lexeme hlongest
    obtain ⟨r, hr, hw⟩ := hlongest.matched
    exact h _ hr _ hw hlongest.starts
  · intro h entry hentry w hw hstarts
    cases text with
    | nil => exact ne_nil_of_mem hentry hw (List.prefix_nil.mp hstarts)
    | cons b rest =>
      obtain ⟨more, hfound, -⟩ := found_of_mem hentry hw hstarts
      exact h _ _ (longestMatch_of_found hfound)

/-- What may stand between tokens: blanks and comments, as many as there are. -/
def gapText : Pattern := (blanks + lineComment + blockComment).star

theorem nil_mem_gapText : [] ∈ gapText.matches' := by
  rw [gapText, RegularExpression.matches'_star]
  exact Language.nil_mem_kstar _

/-- What is passed over can be put behind what was passed over before. -/
theorem LongestMatch.append_mem_gapText {text gap lexeme : Bytes}
    (h : LongestMatch text none lexeme) (hgap : gap ∈ gapText.matches') :
    gap ++ lexeme ∈ gapText.matches' := by
  have hone : lexeme ∈ (blanks + lineComment + blockComment).matches' := by
    obtain ⟨r, hr, hw⟩ := h.matched
    simp only [patterns, List.mem_cons, Prod.mk.injEq, reduceCtorEq, false_and, or_false, true_and,
      List.not_mem_nil] at hr
    simp only [RegularExpression.matches'_add, Language.mem_add]
    rcases hr with rfl | rfl | rfl
    · exact .inl (.inl hw)
    · exact .inl (.inr hw)
    · exact .inr hw
  rw [gapText, RegularExpression.matches'_star, Language.mem_kstar] at hgap ⊢
  obtain ⟨parts, rfl, hparts⟩ := hgap
  refine ⟨parts ++ [lexeme], by simp, ?_⟩
  intro part hpart
  rcases List.mem_append.mp hpart with hpart | hpart
  · exact hparts part hpart
  · rwa [List.mem_singleton.mp hpart]

/-- The stream of a text that starts at an offset stops at the end of the text or, with a flaw,
where there is more text and nothing matches. -/
def StopsIn (offset : Nat) (text : Bytes) (s : TokenStream) : Prop :=
  ∃ before rest, text = before ++ rest ∧ s.stop = offset + before.length ∧
    match s.flaw? with
    | none => rest = []
    | some flaw => flaw.offset = s.stop ∧ flaw.fault = .unexpectedInput ∧ NoMatch rest ∧
      0 < flaw.len ∧ flaw.len ≤ rest.length

/-- A stream stops in a text if it does in a part at the end. -/
theorem StopsIn.append_left {offset : Nat} {lexeme text : Bytes} {s : TokenStream}
    (h : StopsIn (offset + lexeme.length) text s) : StopsIn offset (lexeme ++ text) s := by
  obtain ⟨before, rest, rfl, hstop, hend⟩ := h
  refine ⟨lexeme ++ before, rest, (List.append_assoc ..).symm, ?_, hend⟩
  rw [hstop, List.length_append, Nat.add_assoc]

theorem extract_middle (before gap text : Bytes) :
    (before ++ gap ++ text).extract before.length (before.length + gap.length) = gap := by
  rw [List.extract_eq_take_drop, List.append_assoc, List.drop_left, Nat.add_sub_cancel_left,
    List.take_left]

namespace ScansAs

variable {offset : Nat} {text : Bytes} {s : TokenStream}

/-- A stream that is scanned runs from where it starts. -/
theorem runsFrom (h : ScansAs offset text s) : s.RunsFrom offset := by
  induction h with
  | done offset => exact Nat.le_refl offset
  | gap hmatch hrest ih => exact ih.mono (Nat.le_add_right _ _)
  | token hmatch hrest ih => exact ⟨Nat.le_refl _, Nat.lt_add_of_pos_right hmatch.length_pos, ih⟩
  | stuck hmatch hpos hlen hfault => exact Nat.le_refl _

/-- Whatever no token takes is blanks and comments. The induction carries the gap that was begun
before the text at hand. -/
theorem gap_mem (h : ScansAs offset text s) (before : Bytes) {gap : Bytes}
    (hgap : gap ∈ gapText.matches') (hoffset : offset = before.length + gap.length) :
    ∀ g ∈ s.gapsFrom before.length,
      (before ++ gap ++ text).extract g.1 g.2 ∈ gapText.matches' := by
  induction h generalizing before gap with
  | done offset =>
    intro g hg
    obtain rfl := List.mem_singleton.mp hg
    rwa [hoffset, extract_middle]
  | @gap offset lexeme rest s hmatch hrest ih =>
    rw [← List.append_assoc, List.append_assoc before gap lexeme]
    refine ih before (hmatch.append_mem_gapText hgap) ?_
    rw [hoffset, List.length_append, Nat.add_assoc]
  | @token offset kind lexeme rest s hmatch hrest ih =>
    intro g hg
    rcases List.mem_cons.mp hg with rfl | hg
    · rwa [hoffset, extract_middle]
    · -- behind the token the next gap starts empty
      have hlength : (before ++ gap ++ lexeme).length = offset + lexeme.length := by
        rw [List.length_append, List.length_append, hoffset]
      have hbehind := ih (before ++ gap ++ lexeme) nil_mem_gapText hlength.symm g
      rw [hlength, List.append_nil, List.append_assoc] at hbehind
      exact hbehind hg
  | stuck hmatch hpos hlen hfault =>
    intro g hg
    obtain rfl := List.mem_singleton.mp hg
    rwa [hoffset, extract_middle]

/-- A stream that is scanned stops in its text. -/
theorem stopsIn (h : ScansAs offset text s) : StopsIn offset text s := by
  induction h with
  | done offset => exact ⟨[], [], rfl, rfl, rfl⟩
  | gap hmatch hrest ih => exact ih.append_left
  | token hmatch hrest ih => exact StopsIn.append_left ih
  | stuck hmatch hpos hlen hfault => exact ⟨[], _, rfl, rfl, rfl, hfault, hmatch, hpos, hlen⟩

end ScansAs

end Scan

namespace TokenStream

open Scan

/-- The stream has the tokens of the text, and the text has nothing else to it. -/
structure Tokenizes (s : TokenStream) (text : Bytes) : Prop where
  /-- At every place the longest match of the patterns. -/
  scansAs : ScansAs 0 text s
  lexeme_eq : ∀ t ∈ s.scanned, text.extract t.offset t.stop = t.lexeme
  nonempty : ∀ t ∈ s.scanned, t.offset < t.stop
  ordered : s.scanned.Pairwise fun t u => t.stop ≤ u.offset
  /-- Every byte before the end or a failure is in a token or in a gap. -/
  covered : ∀ i < s.stop, (∃ t ∈ s.scanned, t.offset ≤ i ∧ i < t.stop) ∨
    ∃ g ∈ s.gapsFrom 0, g.1 ≤ i ∧ i < g.2
  gap_apart : ∀ g ∈ s.gapsFrom 0, ∀ t ∈ s.scanned, t.stop ≤ g.1 ∨ g.2 ≤ t.offset
  /-- Gaps are blanks and comments only. -/
  gap_mem : ∀ g ∈ s.gapsFrom 0, text.extract g.1 g.2 ∈ gapText.matches'
  /-- Without a failure the last token ends the input. -/
  complete : s.flaw? = none →
    s.stop = text.length ∧ s.tokens = s.scanned ++ [.endAt text.length]
  /-- A failure is where there is more text and nothing matches. -/
  failed : ∀ flaw, s.flaw? = some flaw →
    flaw.offset = s.stop ∧ flaw.fault = .unexpectedInput ∧ NoMatch (text.drop s.stop) ∧
      0 < flaw.len ∧ flaw.offset + flaw.len ≤ text.length ∧ s.tokens = s.scanned

/-- A stream that is scanned from the start of a text tokenizes it. -/
theorem tokenizes_of_scansAs {text : Bytes} {s : TokenStream} (h : ScansAs 0 text s)
    (hstands : ∀ t ∈ s.scanned, WellScanned text t) : s.Tokenizes text := by
  obtain ⟨before, rest, htext, hstop, hend⟩ := h.stopsIn
  rw [Nat.zero_add] at hstop
  have htokens := s.tokens_eq
  constructor
  case scansAs => exact h
  case lexeme_eq =>
    intro t ht
    rw [List.extract_eq_take_drop, Token.stop, Nat.add_sub_cancel_left]
    exact (hstands t ht).lexeme_eq
  case nonempty => exact fun t ht => (h.runsFrom.of_mem_scanned ht).2.1
  case ordered => exact h.runsFrom.pairwise_scanned
  case covered => exact fun i hi => h.runsFrom.covered (Nat.zero_le i) hi
  case gap_apart => exact fun g hg t ht => h.runsFrom.gap_apart ht hg
  case gap_mem => exact h.gap_mem [] nil_mem_gapText rfl
  case complete =>
    intro hnone
    rw [hnone] at hend htokens
    obtain rfl : rest = [] := hend
    have hlength : s.stop = text.length := by rw [hstop, htext, List.append_nil]
    exact ⟨hlength, hlength ▸ htokens⟩
  case failed =>
    intro flaw hsome
    rw [hsome] at hend htokens
    obtain ⟨hoffset, hfault, hmatch, hpos, hlen⟩ := hend
    have hdrop : text.drop s.stop = rest := by rw [hstop, htext, List.drop_left]
    refine ⟨hoffset, hfault, hdrop.symm ▸ hmatch, hpos, ?_, htokens.trans (List.append_nil _)⟩
    rw [hoffset, hstop, htext, List.length_append]
    omega

/-- **Scanning finds the longest matches and loses nothing.** It is stuck where there is no longest
match, and that is where nothing matches. The longest match behind `/*` is the comment through the
first `*/`, so that `/*/` alone is none. -/
theorem ofText_tokenizes (text : Bytes) :
    (TokenStream.ofText text).Tokenizes text ∧
      (∀ place, NoMatch place ↔ ∀ sort lexeme, ¬ LongestMatch place sort lexeme) ∧
      (∀ body lexeme sort, LongestMatch (utf8 "/*" ++ body) sort lexeme ↔ sort = none ∧
        ∃ inside rest, body = inside ++ utf8 "*/" ++ rest ∧
          lexeme = utf8 "/*" ++ inside ++ utf8 "*/" ∧
          ∀ u v, body = u ++ utf8 "*/" ++ v → inside.length ≤ u.length) ∧
      NoMatch (utf8 "/*/") := by
  refine ⟨?_, fun place => noMatch_iff_not_longestMatch, ?_, ?_⟩
  · exact tokenizes_of_scansAs (scansAs_stream Engine.leavesOver_standard 0 text)
      (ofText_wellScanned text)
  · exact fun body lexeme sort => longestMatch_blockComment_iff
  · exact noMatch_iff.mpr (by decide)

end TokenStream

end YaccTables
