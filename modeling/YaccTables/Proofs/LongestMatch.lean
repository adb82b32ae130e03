import YaccTables.Proofs.Patterns
import YaccTables.Proofs.Scanning

/-!
# The longest match at a place

The scanner looks at a byte and decides what to do next; the patterns of grammar text say nothing
about how they are looked for. `longestMatch_iff` compares the two at one place of a text: the step
finds a lexeme exactly if it is the longest that any pattern matches there, and then only patterns
of one sort match. It comes from two lemmas, one in each direction: what a step finds is matched
(`mem_of_found`), and of what is matched a step finds at least as much (`found_of_mem`).
-/

namespace YaccTables

namespace Scan

open Pattern

/-! ## Matches -/

/-- The longest of all lexemes that a text starts with and that some pattern matches. All patterns
that match it are of the same sort. -/
structure LongestMatch (text : Bytes) (sort : Option TokenKind) (lexeme : Bytes) : Prop where
  starts : lexeme <+: text
  matched : ∃ r, (sort, r) ∈ patterns ∧ lexeme ∈ r.matches'
  longest : ∀ entry ∈ patterns, ∀ w ∈ entry.2.matches', w <+: text → w.length ≤ lexeme.length
  sort_unique : ∀ entry ∈ patterns, lexeme ∈ entry.2.matches' → entry.1 = sort

/-- No pattern matches anything that the text starts with. -/
def NoMatch (text : Bytes) : Prop :=
  ∀ entry ∈ patterns, ∀ w ∈ entry.2.matches', ¬ w <+: text

/-- There is one longest match at most. -/
theorem LongestMatch.unique {text : Bytes} {sort sort' : Option TokenKind} {w w' : Bytes}
    (h : LongestMatch text sort w) (h' : LongestMatch text sort' w') : sort = sort' ∧ w = w' := by
  obtain ⟨r, hr, hw⟩ := h.matched
  obtain ⟨r', hr', hw'⟩ := h'.matched
  have hle := h'.longest _ hr w hw h.starts
  have hge := h.longest _ hr' w' hw' h'.starts
  have heq : w = w' :=
    (List.prefix_of_prefix_length_le h.starts h'.starts hle).eq_of_length (by omega)
  subst heq
  exact ⟨h'.sort_unique _ hr hw, rfl⟩

/-! ## Runs of a class -/

theorem run_le (p : UInt8 → Bool) (text : Bytes) : run p text ≤ text.length :=
  (List.takeWhile_prefix p).length_le

/-- A run is as long as its bytes are of one sort. -/
theorem take_run (p : UInt8 → Bool) (text : Bytes) :
    text.take (run p text) = text.takeWhile p :=
  (List.prefix_iff_eq_take.mp (List.takeWhile_prefix p)).symm

theorem of_mem_take_run {p : UInt8 → Bool} {text : Bytes} :
    ∀ b ∈ text.take (run p text), p b = true := by
  rw [take_run]
  exact List.all_eq_true.mp List.all_takeWhile

/-- No longer part of the class stands at the start of the text. -/
theorem le_run {p : UInt8 → Bool} {u text : Bytes} (hu : u <+: text) (hp : ∀ b ∈ u, p b = true) :
    u.length ≤ run p text := by
  obtain ⟨rest, rfl⟩ := hu
  rw [run, List.takeWhile_append_of_pos hp, List.length_append]
  omega

/-- A run ends at a byte that is not of the class. -/
theorem run_eq {p : UInt8 → Bool} {u rest : Bytes} {b : UInt8} (hp : ∀ c ∈ u, p c = true)
    (hb : p b = false) : run p (u ++ b :: rest) = u.length := by
  rw [run, List.takeWhile_append_of_pos hp, List.takeWhile_cons_of_neg (by simp [hb]),
    List.append_nil]

/-! ## The end of a block comment -/

/-- The mark that ends the comment is part of the text. -/
theorem commentEnd?_bounds {u : Bytes} {n : Nat} (h : commentEnd? u = some n) :
    2 ≤ n ∧ n ≤ u.length := by
  induction u generalizing n with
  | nil => exact absurd h (by simp [commentEnd?])
  | cons b u ih =>
    rw [commentEnd?] at h
    split at h
    · next hend =>
      obtain rfl := Option.some.inj h
      cases u with
      | nil => exact absurd hend.2 (by simp)
      | cons c u => simp
    · obtain ⟨m, hm, rfl⟩ := Option.map_eq_some_iff.mp h
      have hbounds := ih hm
      rw [List.length_cons]
      omega

/-- Only the text through the end of the comment matters. -/
theorem commentEnd?_append {u : Bytes} {n : Nat} (h : commentEnd? u = some n) (v : Bytes) :
    commentEnd? (u ++ v) = some n := by
  induction u generalizing n with
  | nil => exact absurd h (by simp [commentEnd?])
  | cons b u ih =>
    cases u with
    | nil => exact absurd h (by simp [commentEnd?])
    | cons c u =>
      rw [commentEnd?] at h
      rw [List.cons_append, commentEnd?]
      split at h
      · next hend => rw [if_pos (by simpa using hend), h]
      · next hend =>
        obtain ⟨m, hm, rfl⟩ := Option.map_eq_some_iff.mp h
        rw [if_neg (by simpa using hend), ih hm, Option.map_some]

/-- The end of a comment is its first one. -/
theorem endsComment_take {u : Bytes} {n : Nat} (h : commentEnd? u = some n) :
    EndsComment (u.take n) := by
  unfold EndsComment
  rw [List.length_take, Nat.min_eq_left (commentEnd?_bounds h).2]
  induction u generalizing n with
  | nil => exact absurd h (by simp [commentEnd?])
  | cons b u ih =>
    rw [commentEnd?] at h
    split at h
    · next hend =>
      obtain rfl := Option.some.inj h
      cases u with
      | nil => exact absurd hend.2 (by simp)
      | cons c u =>
        rw [List.take_succ_cons, List.take_succ_cons, commentEnd?, if_pos (by simpa using hend)]
    · next hend =>
      obtain ⟨m, hm, rfl⟩ := Option.map_eq_some_iff.mp h
      -- the byte that decides is among those that are kept
      have hhead : (u.take m).head? = u.head? :=
        List.head?_take.trans (if_neg (by have := (commentEnd?_bounds hm).1; omega))
      rw [List.take_succ_cons, commentEnd?, hhead, if_neg hend, ih hm]
      rfl

/-- The comment ends with the first `*/`. -/
theorem commentEnd?_eq_some_iff {body : Bytes} {n : Nat} :
    commentEnd? body = some n ↔
      ∃ inside rest, body = inside ++ utf8 "*/" ++ rest ∧ n = inside.length + 2 ∧
        ∀ u v, body = u ++ utf8 "*/" ++ v → inside.length ≤ u.length := by
  have hmark : utf8 "*/" = [ascii '*', ascii '/'] := rfl
  induction body generalizing n with
  | nil => simp [commentEnd?, hmark]
  | cons b body ih =>
    rw [commentEnd?]
    split
    · next hend =>
      obtain ⟨rfl, hhead⟩ := hend
      obtain ⟨tail, rfl⟩ := List.head?_eq_some_iff.mp hhead
      constructor
      · intro h
        exact ⟨[], tail, rfl, (Option.some.inj h).symm, fun u v _ => Nat.zero_le u.length⟩
      · rintro ⟨inside, rest, -, rfl, hfirst⟩
        have hle := hfirst [] tail rfl
        rw [List.length_nil, Nat.le_zero] at hle
        rw [hle]
    · next hend =>
      -- the mark does not stand right here, so that whatever comes before it starts with this byte
      have hcons : ∀ u v, b :: body = u ++ utf8 "*/" ++ v →
          ∃ u', u = b :: u' ∧ body = u' ++ utf8 "*/" ++ v := by
        intro u v heq
        cases u with
        | nil =>
          obtain ⟨rfl, rfl⟩ := List.cons.inj heq
          exact absurd ⟨rfl, rfl⟩ hend
        | cons c u =>
          obtain ⟨rfl, rfl⟩ := List.cons.inj heq
          exact ⟨u, rfl, rfl⟩
      rw [Option.map_eq_some_iff]
      constructor
      · rintro ⟨m, hm, rfl⟩
        obtain ⟨inside, rest, rfl, rfl, hfirst⟩ := ih.mp hm
        refine ⟨b :: inside, rest, rfl, by rw [List.length_cons, Nat.add_right_comm], ?_⟩
        intro u v heq
        obtain ⟨u', rfl, hbody⟩ := hcons u v heq
        exact Nat.succ_le_succ (hfirst u' v hbody)
      · rintro ⟨inside, rest, heq, rfl, hfirst⟩
        obtain ⟨inside', rfl, hbody⟩ := hcons inside rest heq
        refine ⟨inside'.length + 2, ih.mpr ⟨inside', rest, hbody, rfl, ?_⟩, rfl⟩
        intro u v huv
        exact Nat.le_of_succ_le_succ (hfirst (b :: u) v (by rw [huv]; rfl))

/-! ## What a step finds is matched -/

/-- What a step finds: the sort of a lexeme, and its number of bytes beyond the first. -/
def Step.found? : Step → Option (Option TokenKind × Nat)
  | .gap more => some (none, more)
  | .token kind more => some (some kind, more)
  | .stuck _ => none

/-- What a step that finds a gap can find. -/
theorem step_eq_gap {b : UInt8} {rest : Bytes} {more : Nat} (h : step b rest = .gap more) :
    (isGap b = true ∧ more = run isGap rest) ∨
      (∃ body, b = ascii '/' ∧ rest = ascii '/' :: body ∧
        more = 1 + run (· != lineFeed) body) ∨
      ∃ body n, b = ascii '/' ∧ rest = ascii '*' :: body ∧ commentEnd? body = some n ∧
        more = 1 + n := by
  unfold step at h
  split at h
  · next hb => exact .inl ⟨hb, (Step.gap.inj h).symm⟩
  split at h
  · exact absurd h (by simp)
  split at h
  · next hb =>
    unfold slash at h
    split at h
    · exact absurd h (by simp)
    · next c body =>
      split at h
      · next hc => exact .inr (.inl ⟨body, hb, by rw [hc], (Step.gap.inj h).symm⟩)
      split at h
      · next hc =>
        split at h
        · next n hn => exact .inr (.inr ⟨body, n, hb, by rw [hc], hn, (Step.gap.inj h).symm⟩)
        · exact absurd h (by simp)
      · exact absurd h (by simp)
  -- all that is left finds a token or nothing
  split at h
  · unfold percent at h
    repeat' split at h
    all_goals exact absurd h (by simp)
  split at h
  · simp only [quotation] at h
    split at h
    · exact absurd h (by simp)
    · exact absurd h (by simp)
  · repeat' split at h
    all_goals exact absurd h (by simp)

/-- What is passed over matches a pattern that gives no token. -/
theorem mem_of_gap {b : UInt8} {rest : Bytes} {more : Nat} (h : step b rest = .gap more) :
    more ≤ rest.length ∧ ∃ r, (none, r) ∈ patterns ∧ b :: rest.take more ∈ r.matches' := by
  rcases step_eq_gap h with ⟨hb, rfl⟩ | ⟨body, rfl, rfl, rfl⟩ | ⟨body, n, rfl, rfl, hn, rfl⟩
  · refine ⟨run_le isGap rest, blanks, List.mem_of_getElem? (i := 0) rfl, ?_⟩
    exact mem_blanks_iff.mpr
      ⟨List.cons_ne_nil _ _, List.forall_mem_cons.mpr ⟨hb, of_mem_take_run⟩⟩
  · have hle := run_le (· != lineFeed) body
    refine ⟨by rw [List.length_cons]; omega, lineComment, List.mem_of_getElem? (i := 1) rfl, ?_⟩
    rw [Nat.add_comm, List.take_succ_cons]
    exact mem_lineComment_iff.mpr ⟨_, rfl, of_mem_take_run⟩
  · have hle := (commentEnd?_bounds hn).2
    refine ⟨by rw [List.length_cons]; omega, blockComment, List.mem_of_getElem? (i := 2) rfl, ?_⟩
    rw [Nat.add_comm, List.take_succ_cons]
    exact mem_blockComment_iff.mpr ⟨_, rfl, endsComment_take hn⟩

/-- A token matches the pattern of its kind. -/
theorem mem_of_token {b : UInt8} {rest : Bytes} {kind : TokenKind} {more : Nat}
    (h : step b rest = .token kind more) :
    more ≤ rest.length ∧ ∃ r, (some kind, r) ∈ patterns ∧ b :: rest.take more ∈ r.matches' := by
  rcases step_eq_token h with ⟨rfl, hb, rfl⟩ | ⟨rfl, rfl, hhead, rfl⟩ | ⟨rfl, rfl, hhead, rfl⟩ |
    ⟨rfl, hmark, hend, rfl⟩ | ⟨rfl, rfl, rfl⟩ | ⟨rfl, rfl, rfl⟩ | ⟨rfl, rfl, rfl⟩
  · refine ⟨run_le isWordPart rest, identifier, List.mem_of_getElem? (i := 5) rfl, ?_⟩
    exact mem_identifier_iff.mpr ⟨b, _, hb, rfl, of_mem_take_run⟩
  · obtain ⟨tail, rfl⟩ := List.head?_eq_some_iff.mp hhead
    exact ⟨by simp, _, List.mem_of_getElem? (i := 3) rfl, mem_literal_iff.mpr rfl⟩
  · obtain ⟨c, hc, hword⟩ := hhead
    obtain ⟨tail, rfl⟩ := List.head?_eq_some_iff.mp hc
    refine ⟨run_le isWordStart _, directive, List.mem_of_getElem? (i := 4) rfl, ?_⟩
    refine mem_directive_iff.mpr ⟨_, rfl, ?_, of_mem_take_run⟩
    simp [run, List.takeWhile_cons_of_pos hword]
  · -- the run and the quote that ends it
    have hlt := (List.getElem?_eq_some_iff.mp hend).1
    have hquoted : b :: rest.take (run (isQuotable b) rest + 1) ∈ (quoted b).matches' := by
      rw [mem_quoted_iff, List.take_add_one, hend]
      exact ⟨_, rfl, of_mem_take_run⟩
    refine ⟨hlt, quoted b, ?_, hquoted⟩
    rcases hmark with rfl | rfl
    · exact List.mem_of_getElem? (i := 6) rfl
    · exact List.mem_of_getElem? (i := 7) rfl
  · exact ⟨Nat.zero_le _, _, List.mem_of_getElem? (i := 8) rfl, mem_literal_iff.mpr rfl⟩
  · exact ⟨Nat.zero_le _, _, List.mem_of_getElem? (i := 9) rfl, mem_literal_iff.mpr rfl⟩
  · exact ⟨Nat.zero_le _, _, List.mem_of_getElem? (i := 10) rfl, mem_literal_iff.mpr rfl⟩

/-- Whatever is found matches its pattern. -/
theorem mem_of_found {b : UInt8} {rest : Bytes} {sort : Option TokenKind} {more : Nat}
    (h : (step b rest).found? = some (sort, more)) :
    more ≤ rest.length ∧ ∃ r, (sort, r) ∈ patterns ∧ b :: rest.take more ∈ r.matches' := by
  cases hstep : step b rest with
  | gap n =>
    rw [hstep] at h
    obtain ⟨rfl, rfl⟩ := Prod.mk.inj (Option.some.inj h)
    exact mem_of_gap hstep
  | token kind n =>
    rw [hstep] at h
    obtain ⟨rfl, rfl⟩ := Prod.mk.inj (Option.some.inj h)
    exact mem_of_token hstep
  | stuck n =>
    rw [hstep] at h
    exact absurd h (by simp [Step.found?])

/-! ## What is matched, a step finds -/

/-- The step finds a lexeme of the sort that is at least this long. -/
def Reaches (b : UInt8) (rest : Bytes) (sort : Option TokenKind) (w : Bytes) : Prop :=
  ∃ more, (step b rest).found? = some (sort, more) ∧ w.length ≤ more + 1

section Found

variable {b : UInt8} {rest w : Bytes}

/-- White space is found if there is some. -/
theorem reaches_blanks (hw : w ∈ blanks.matches') (hstarts : w <+: b :: rest) :
    Reaches b rest none w := by
  obtain ⟨hne, hall⟩ := mem_blanks_iff.mp hw
  obtain ⟨c, u, rfl⟩ := List.exists_cons_of_ne_nil hne
  obtain ⟨rfl, hu⟩ := List.cons_prefix_cons.mp hstarts
  obtain ⟨hc, hall⟩ := List.forall_mem_cons.mp hall
  refine ⟨run isGap rest, by rw [step, if_pos hc]; rfl, ?_⟩
  exact Nat.succ_le_succ (le_run hu hall)

/-- A comment to the end of its line is found if there is one. -/
theorem reaches_lineComment (hw : w ∈ lineComment.matches') (hstarts : w <+: b :: rest) :
    Reaches b rest none w := by
  obtain ⟨u, rfl, hall⟩ := mem_lineComment_iff.mp hw
  have hmark : utf8 "//" = [ascii '/', ascii '/'] := rfl
  rw [hmark, List.cons_append, List.cons_append, List.nil_append] at hstarts
  obtain ⟨rfl, htail⟩ := List.cons_prefix_cons.mp hstarts
  obtain ⟨body, rfl, hu⟩ := List.cons_prefix_iff.mp htail
  refine ⟨1 + run (· != lineFeed) body, rfl, ?_⟩
  have hle := le_run hu hall
  show u.length + 2 ≤ _
  omega

/-- A comment between marks is found if there is one. -/
theorem reaches_blockComment (hw : w ∈ blockComment.matches') (hstarts : w <+: b :: rest) :
    Reaches b rest none w := by
  obtain ⟨u, rfl, hend⟩ := mem_blockComment_iff.mp hw
  have hmark : utf8 "/*" = [ascii '/', ascii '*'] := rfl
  rw [hmark, List.cons_append, List.cons_append, List.nil_append] at hstarts
  obtain ⟨rfl, htail⟩ := List.cons_prefix_cons.mp hstarts
  obtain ⟨body, rfl, v, rfl⟩ := List.cons_prefix_iff.mp htail
  refine ⟨1 + u.length, ?_, ?_⟩
  · have hstep : step (ascii '/') (ascii '*' :: (u ++ v)) = .gap (1 + u.length) := by
      show slash (ascii '*' :: (u ++ v)) = _
      rw [slash, if_neg (by decide), if_pos rfl, commentEnd?_append hend v]
    rw [hstep]
    rfl
  · show u.length + 2 ≤ _
    omega

/-- A directive is found if there is one. -/
theorem reaches_directive (hw : w ∈ directive.matches') (hstarts : w <+: b :: rest) :
    Reaches b rest (some .directive) w := by
  obtain ⟨u, rfl, hne, hall⟩ := mem_directive_iff.mp hw
  obtain ⟨rfl, hu⟩ := List.cons_prefix_cons.mp hstarts
  refine ⟨run isWordStart rest, ?_, Nat.succ_le_succ (le_run hu hall)⟩
  obtain ⟨c, u, rfl⟩ := List.exists_cons_of_ne_nil hne
  obtain ⟨body, rfl, -⟩ := List.cons_prefix_iff.mp hu
  have hc := hall c List.mem_cons_self
  have hpercent : c ≠ ascii '%' := by
    rintro rfl
    exact absurd hc (by decide)
  have hstep : step (ascii '%') (c :: body) = .token .directive (run isWordStart (c :: body)) := by
    show percent (c :: body) = _
    rw [percent, if_neg hpercent, if_pos hc]
  rw [hstep]
  rfl

/-- An identifier is found if there is one. -/
theorem reaches_identifier (hw : w ∈ identifier.matches') (hstarts : w <+: b :: rest) :
    Reaches b rest (some .identifier) w := by
  obtain ⟨c, u, hc, rfl, hall⟩ := mem_identifier_iff.mp hw
  obtain ⟨rfl, hu⟩ := List.cons_prefix_cons.mp hstarts
  have hgap : ∀ d : UInt8, isWordStart d = true → isGap d = false :=
    forall_byte (by decide +kernel)
  refine ⟨run isWordPart rest, ?_, Nat.succ_le_succ (le_run hu hall)⟩
  rw [step, if_neg (by simp [hgap c hc]), if_pos hc]
  rfl

/-- A quoted name is found if there is one. -/
theorem reaches_quoted {mark : UInt8} (hmark : mark = ascii '\'' ∨ mark = ascii '"')
    (hw : w ∈ (quoted mark).matches') (hstarts : w <+: b :: rest) :
    Reaches b rest (some .quoted) w := by
  obtain ⟨u, rfl, hall⟩ := mem_quoted_iff.mp hw
  obtain ⟨rfl, v, rfl⟩ := List.cons_prefix_cons.mp hstarts
  -- the run of quotable bytes goes up to the quote
  have hrun : run (isQuotable mark) (u ++ [mark] ++ v) = u.length := by
    rw [List.append_assoc]
    exact run_eq hall (by simp [isQuotable])
  have hquotation : quotation mark (u ++ [mark] ++ v) = .token .quoted (u.length + 1) := by
    rw [quotation, hrun, if_pos (by simp)]
  refine ⟨u.length + 1, ?_, by simp⟩
  have hstep : step mark (u ++ [mark] ++ v) = quotation mark (u ++ [mark] ++ v) := by
    rcases hmark with rfl | rfl
    · rfl
    · rfl
  rw [hstep, hquotation]
  rfl

/-- A literal is found if the step finds it wherever it stands. -/
theorem reaches_literal {c : UInt8} {u : Bytes} {kind : TokenKind}
    (hstep : ∀ v, step c (u ++ v) = .token kind u.length)
    (hw : w ∈ (literal (c :: u)).matches') (hstarts : w <+: b :: rest) :
    Reaches b rest (some kind) w := by
  obtain rfl := mem_literal_iff.mp hw
  obtain ⟨rfl, v, rfl⟩ := List.cons_prefix_cons.mp hstarts
  exact ⟨u.length, by rw [hstep]; rfl, by simp⟩

end Found

/-- Whatever pattern matches, something at least as long is found. -/
theorem found_of_mem {b : UInt8} {rest w : Bytes} {entry : Option TokenKind × Pattern}
    (hentry : entry ∈ patterns) (hw : w ∈ entry.2.matches') (hstarts : w <+: b :: rest) :
    Reaches b rest entry.1 w := by
  simp only [patterns, List.mem_cons, List.not_mem_nil, or_false] at hentry
  rcases hentry with rfl | rfl | rfl | rfl | rfl | rfl | rfl | rfl | rfl | rfl | rfl
  · exact reaches_blanks hw hstarts
  · exact reaches_lineComment hw hstarts
  · exact reaches_blockComment hw hstarts
  · exact reaches_literal (u := [ascii '%']) (fun v => rfl) hw hstarts
  · exact reaches_directive hw hstarts
  · exact reaches_identifier hw hstarts
  · exact reaches_quoted (.inl rfl) hw hstarts
  · exact reaches_quoted (.inr rfl) hw hstarts
  · exact reaches_literal (u := []) (fun v => rfl) hw hstarts
  · exact reaches_literal (u := []) (fun v => rfl) hw hstarts
  · exact reaches_literal (u := []) (fun v => rfl) hw hstarts

/-! ## One place of a text -/

/-- What is found is the longest match. -/
theorem longestMatch_of_found {b : UInt8} {rest : Bytes} {sort : Option TokenKind} {more : Nat}
    (h : (step b rest).found? = some (sort, more)) :
    LongestMatch (b :: rest) sort (b :: rest.take more) := by
  obtain ⟨hle, hmatched⟩ := mem_of_found h
  have hlength : (b :: rest.take more).length = more + 1 := by
    rw [List.length_cons, List.length_take, Nat.min_eq_left hle]
  have hstarts : b :: rest.take more <+: b :: rest :=
    List.cons_prefix_cons.mpr ⟨rfl, List.take_prefix more rest⟩
  -- whatever matches, the step finds something of the same sort that is at least as long
  have hfound : ∀ entry ∈ patterns, ∀ w ∈ entry.2.matches', w <+: b :: rest →
      entry.1 = sort ∧ w.length ≤ more + 1 := by
    intro entry hentry w hw hstarts
    obtain ⟨n, hn, hlen⟩ := found_of_mem hentry hw hstarts
    obtain ⟨hsort, rfl⟩ := Prod.mk.inj (Option.some.inj (hn.symm.trans h))
    exact ⟨hsort, hlen⟩
  constructor
  case starts => exact hstarts
  case matched => exact hmatched
  case longest =>
    intro entry hentry w hw hw'
    rw [hlength]
    exact (hfound entry hentry w hw hw').2
  case sort_unique => exact fun entry hentry hw => (hfound entry hentry _ hw hstarts).1

/-- Nothing is found where no pattern matches. -/
theorem noMatch_iff {b : UInt8} {rest : Bytes} :
    NoMatch (b :: rest) ↔ (step b rest).found? = none := by
  constructor
  · intro h
    cases hfound : (step b rest).found? with
    | none => rfl
    | some found =>
      obtain ⟨sort, more⟩ := found
      have hlongest := longestMatch_of_found hfound
      obtain ⟨r, hr, hw⟩ := hlongest.matched
      exact absurd hlongest.starts (h _ hr _ hw)
  · intro h entry hentry w hw hstarts
    obtain ⟨more, hmore, -⟩ := found_of_mem hentry hw hstarts
    exact absurd (h.symm.trans hmore) (by simp)

/-- **The step finds exactly the longest match.** -/
theorem longestMatch_iff {b : UInt8} {rest w : Bytes} {sort : Option TokenKind} :
    LongestMatch (b :: rest) sort w ↔
      ∃ more, (step b rest).found? = some (sort, more) ∧ w = b :: rest.take more := by
  constructor
  · intro h
    obtain ⟨r, hr, hw⟩ := h.matched
    obtain ⟨more, hmore, -⟩ := found_of_mem hr hw h.starts
    exact ⟨more, hmore, (h.unique (longestMatch_of_found hmore)).2⟩
  · rintro ⟨more, hmore, rfl⟩
    exact longestMatch_of_found hmore

/-- The longest match behind `/*` is the comment through the first `*/`. -/
theorem longestMatch_blockComment_iff {body lexeme : Bytes} {sort : Option TokenKind} :
    LongestMatch (utf8 "/*" ++ body) sort lexeme ↔ sort = none ∧
      ∃ inside rest, body = inside ++ utf8 "*/" ++ rest ∧
        lexeme = utf8 "/*" ++ inside ++ utf8 "*/" ∧
        ∀ u v, body = u ++ utf8 "*/" ++ v → inside.length ≤ u.length := by
  have hstep : step (ascii '/') (ascii '*' :: body) = slash (ascii '*' :: body) := rfl
  have htake : ∀ inside rest : Bytes, (inside ++ utf8 "*/" ++ rest).take (inside.length + 2)
      = inside ++ utf8 "*/" := fun inside rest => List.take_left' (by rw [List.length_append]; rfl)
  rw [show utf8 "/*" ++ body = ascii '/' :: ascii '*' :: body from rfl, longestMatch_iff, hstep,
    slash, if_neg (by decide), if_pos rfl]
  constructor
  · rintro ⟨more, hfound, rfl⟩
    split at hfound
    · next n hn =>
      obtain ⟨rfl, rfl⟩ := Prod.mk.inj (Option.some.inj hfound)
      obtain ⟨inside, rest, rfl, rfl, hfirst⟩ := commentEnd?_eq_some_iff.mp hn
      refine ⟨rfl, inside, rest, rfl, ?_, hfirst⟩
      rw [Nat.add_comm 1, List.take_succ_cons, htake]
      rfl
    · exact absurd hfound (by simp [Step.found?])
  · rintro ⟨rfl, inside, rest, rfl, rfl, hfirst⟩
    rw [commentEnd?_eq_some_iff.mpr ⟨inside, rest, rfl, rfl, hfirst⟩]
    refine ⟨_, rfl, ?_⟩
    rw [Nat.add_comm 1, List.take_succ_cons, htake]
    rfl

end Scan

end YaccTables
