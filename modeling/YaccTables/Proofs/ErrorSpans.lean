import Mathlib.Algebra.Group.Nat.Defs
import Mathlib.Data.List.DropRight
import YaccTables.Document.Meaning
import YaccTables.Proofs.Reading
import YaccTables.Proofs.Traversal

/-!
# Where errors stand

An error of grammar text can always be shown in place. There are three parts to it:

* Whatever reading a stream fails on is a flaw of that stream (`TokenStream.Blames`): the place
  where it is stuck, or one of its tokens. Every reading function has its own lemma, which also says
  that what it leaves has no flaws of its own (`TokenStream.AccountsFor`), and so they compose.
* The flaws of a scanned text lie in the text (`Scan.liesIn_of_blames_stream`): its tokens do, and
  where no token starts, so does what is shown of the failure of the engine.
* A span that lies in its source is read without falling out of it (`ParseError.ofFlaw_marks`), at
  the line and column of its offset (`Span.positionAt_eq`).
-/

namespace YaccTables

namespace TokenStream

/-! ## Flaws of a stream -/

/-- The flaw is where the stream is stuck, or at one of its tokens. -/
def Blames (s : TokenStream) (flaw : Flaw) : Prop :=
  s.flaw? = some flaw ∨ ∃ t ∈ s.tokens, ∃ fault, flaw = t.flaw fault

/-- A stream has all flaws of what it leaves behind. -/
def Leaves (s r : TokenStream) : Prop := ∀ flaw, r.Blames flaw → s.Blames flaw

/-- Reading the stream fails on one of its flaws, or leaves a part of the stream. -/
def AccountsFor {α : Type} (s : TokenStream) : Except Flaw (α × TokenStream) → Prop
  | .ok (_, r) => s.Leaves r
  | .error flaw => s.Blames flaw

section Reading

variable {α β : Type} {s r : TokenStream} {t : Token}

/-- Every fault at a token of a stream is a flaw of it. -/
theorem blames_of_mem (ht : t ∈ s.tokens) (fault : Fault) : s.Blames (t.flaw fault) :=
  .inr ⟨t, ht, fault, rfl⟩

/-- A stream that is stuck has the flaw that it is stuck with. -/
theorem blames_stuck (flaw : Flaw) : (TokenStream.stuck flaw).Blames flaw := .inl rfl

theorem Leaves.refl (s : TokenStream) : s.Leaves s := fun _ h => h

/-- Behind a token there are no flaws but those of the stream. -/
theorem leaves_next (t : Token) (r : TokenStream) : (TokenStream.next t r).Leaves r := by
  rintro flaw (hflaw | ⟨u, hu, fault, rfl⟩)
  · exact .inl hflaw
  · exact blames_of_mem (List.mem_cons_of_mem t hu) fault

namespace AccountsFor

/-- A failure is a flaw of the stream that was read. -/
theorem blames {x : Except Flaw (α × TokenStream)} {flaw : Flaw} (h : s.AccountsFor x)
    (hx : x = .error flaw) : s.Blames flaw := by
  subst hx
  exact h

/-- What is left has no flaws of its own. -/
theorem leaves {x : Except Flaw (α × TokenStream)} {a : α} (h : s.AccountsFor x)
    (hx : x = .ok (a, r)) : s.Leaves r := by
  subst hx
  exact h

/-- Reading a part of a stream accounts for the whole of it. -/
theorem of_leaves {x : Except Flaw (α × TokenStream)} (hx : r.AccountsFor x) (h : s.Leaves r) :
    s.AccountsFor x := by
  cases x with
  | error flaw => exact h flaw hx
  | ok p => exact fun flaw hflaw => h flaw (hx flaw hflaw)

/-- Reading goes on with what is left. -/
theorem bind {x : Except Flaw (α × TokenStream)}
    {f : α × TokenStream → Except Flaw (β × TokenStream)} (hx : s.AccountsFor x)
    (hf : ∀ a r, x = .ok (a, r) → s.Leaves r → s.AccountsFor (f (a, r))) :
    s.AccountsFor (x >>= f) := by
  cases x with
  | error flaw => exact hx
  | ok p => exact hf p.1 p.2 rfl hx

end AccountsFor

end Reading

end TokenStream

/-! ## Reading blames its stream -/

namespace Document.Reader

open TokenStream

variable {s : TokenStream} {t : Token} {flaw : Flaw}

/-- Taking a token fails where the stream is stuck. -/
theorem next_accounted (s : TokenStream) : s.AccountsFor (next s) := by
  cases s with
  | done offset => exact Leaves.refl _
  | stuck flaw => exact blames_stuck flaw
  | next t r => exact leaves_next t r

/-- The token that is taken is one of the stream. -/
theorem mem_of_next {r : TokenStream} (h : next s = .ok (t, r)) : t ∈ s.tokens := by
  cases s with
  | done offset =>
    obtain ⟨rfl, -⟩ := Prod.mk.inj (Except.ok.inj h)
    exact List.mem_singleton.mpr rfl
  | stuck flaw => exact absurd h (by simp [next])
  | next u r =>
    obtain ⟨rfl, -⟩ := Prod.mk.inj (Except.ok.inj h)
    exact List.mem_cons_self

/-- Taking a token of a kind fails at this token or where the stream is stuck. -/
theorem expect_accounted (kind : TokenKind) (s : TokenStream) :
    s.AccountsFor (expect kind s) := by
  refine (next_accounted s).bind fun t r hnext hr => ?_
  show s.AccountsFor (if t.kind = kind then .ok (t, r) else .error (t.flaw (.expected kind t)))
  split
  · exact hr
  · exact blames_of_mem (mem_of_next hnext) _

/-- The name of a token is read without looking at any other. -/
theorem nameOf_bind_accounted {α : Type} {f : Name → Except Flaw (α × TokenStream)}
    (ht : t ∈ s.tokens) (hf : ∀ name, s.AccountsFor (f name)) :
    s.AccountsFor (nameOf t >>= f) := by
  cases hname : nameOf t with
  | ok name => exact hf name
  | error flaw =>
    unfold nameOf at hname
    simp only at hname
    split at hname
    · split at hname
      · obtain rfl := Except.error.inj hname
        exact blames_of_mem ht _
      · exact absurd hname (by simp)
    · exact absurd hname (by simp)

/-- Reading names fails at a flaw of the stream. -/
theorem names_accounted (s : TokenStream) : s.AccountsFor (names s) := by
  induction s with
  | done offset => exact Leaves.refl _
  | stuck flaw => exact blames_stuck flaw
  | next t rest ih =>
    unfold names
    split
    · refine nameOf_bind_accounted List.mem_cons_self fun name => ?_
      exact (ih.of_leaves (leaves_next t rest)).bind fun more r _ hr => hr
    · exact Leaves.refl _

/-- Reading operands fails at the directive or at a flaw behind it. -/
theorem operands_accounted (directive : Token) (s : TokenStream) :
    (TokenStream.next directive s).AccountsFor (operands directive s) := by
  refine ((names_accounted s).of_leaves (leaves_next directive s)).bind fun ns r _ hr => ?_
  show AccountsFor _ (if ns = [] then .error (directive.flaw (.needsName directive.lexeme))
    else .ok (ns, r))
  split
  · exact blames_of_mem List.mem_cons_self _
  · exact hr

/-- Reading a declaration fails at the directive or at a flaw behind it. -/
theorem declaration_accounted (directive : Token) (s : TokenStream) :
    (TokenStream.next directive s).AccountsFor (declaration directive s) := by
  unfold declaration
  split
  · exact blames_of_mem List.mem_cons_self _
  · exact ((expect_accounted .identifier s).of_leaves (leaves_next directive s)).bind
      fun name r _ hr => hr
  all_goals exact (operands_accounted directive s).bind fun ns r _ hr => hr

/-- Reading an alternative fails at a flaw of the stream. -/
theorem alternative_accounted (s : TokenStream) : s.AccountsFor (alternative s) := by
  induction s with
  | done offset => exact Leaves.refl _
  | stuck flaw => exact blames_stuck flaw
  | next t rest ih =>
    have hrest : (TokenStream.next t rest).AccountsFor (alternative rest) :=
      ih.of_leaves (leaves_next t rest)
    unfold alternative
    split
    · exact hrest.bind fun alt r _ hr => hr
    · exact nameOf_bind_accounted List.mem_cons_self fun name =>
        hrest.bind fun alt r _ hr => hr
    · split
      · -- `%prec` and the token behind it
        refine ((next_accounted rest).of_leaves (leaves_next t rest)).bind
          fun operand r hnext hr => ?_
        have hmem : operand ∈ (TokenStream.next t rest).tokens :=
          List.mem_cons_of_mem t (mem_of_next hnext)
        show AccountsFor _ (if operand.isName then _ else _)
        split
        · exact nameOf_bind_accounted hmem fun name => hr
        · exact blames_of_mem hmem _
      · exact blames_of_mem List.mem_cons_self _
    · exact Leaves.refl _

/-- Reading declarations fails at a flaw of the stream. -/
theorem declarations_accounted (started : Bool) (s : TokenStream) :
    s.AccountsFor (declarations started s) := by
  fun_induction declarations started s with
  | case1 started flaw => exact blames_stuck flaw
  | case2 started offset => exact blames_of_mem (List.mem_singleton.mpr rfl) _
  | case3 started t rest hkind => exact leaves_next t rest
  | case4 started t rest hkind flaw hdecl => exact (declaration_accounted t rest).blames hdecl
  | case5 started t rest hkind d r hdecl hagain => exact blames_of_mem List.mem_cons_self _
  | case6 started t rest hkind d r hdecl hagain ih =>
    have hrest := ih.of_leaves ((declaration_accounted t rest).leaves hdecl)
    exact hrest.bind fun more r' _ hr => hr
  | case7 started t rest hsections hdirective => exact blames_of_mem List.mem_cons_self _

/-- Reading alternatives fails at a flaw of the stream. -/
theorem alternatives_accounted (s : TokenStream) : s.AccountsFor (alternatives s) := by
  fun_induction alternatives s with
  | case1 s flaw halt => exact (alternative_accounted s).blames halt
  | case2 s alt flaw halt =>
    exact (alternative_accounted s).leaves halt flaw (blames_stuck flaw)
  | case3 s alt offset halt =>
    have hnext := (alternative_accounted s).leaves halt
    exact hnext _ (blames_of_mem (List.mem_singleton.mpr rfl) _)
  | case4 s alt t rest halt hkind =>
    have hnext := (alternative_accounted s).leaves halt
    exact fun flaw hflaw => hnext flaw (leaves_next t rest flaw hflaw)
  | case5 s alt t rest halt hkind ih =>
    have hnext := (alternative_accounted s).leaves halt
    exact ((ih.of_leaves (leaves_next t rest)).of_leaves hnext).bind fun more r _ hr => hr
  | case6 s alt t rest halt hsemicolon hbar =>
    exact (alternative_accounted s).leaves halt _ (blames_of_mem List.mem_cons_self _)

/-- Reading definitions fails at a flaw of the stream. -/
theorem blames_of_definitions (h : definitions s = .error flaw) : s.Blames flaw := by
  -- a definition is its name, a colon and its alternatives
  have hcolon : ∀ t rest, (TokenStream.next t rest).AccountsFor (expect .colon rest) :=
    fun t rest => (expect_accounted .colon rest).of_leaves (leaves_next t rest)
  fun_induction definitions s with
  | case1 flaw' =>
    obtain rfl := Except.error.inj h
    exact blames_stuck _
  | case2 offset => exact absurd h (by simp)
  | case3 t rest hkind => exact absurd h (by simp)
  | case4 t rest hkind flaw' hc =>
    obtain rfl := Except.error.inj h
    exact (hcolon t rest).blames hc
  | case5 t rest hkind colon r hc flaw' ha =>
    obtain rfl := Except.error.inj h
    exact (hcolon t rest).leaves hc _ ((alternatives_accounted r).blames ha)
  | case6 t rest hkind colon r hc alts r' ha ih =>
    rcases bind_eq_error_iff.mp h with h | ⟨more, -, h⟩
    · exact (hcolon t rest).leaves hc _ ((alternatives_accounted r).leaves ha _ (ih h))
    · exact absurd h (by simp)
  | case7 t rest hsections hidentifier =>
    obtain rfl := Except.error.inj h
    exact blames_of_mem List.mem_cons_self _

end Document.Reader

/-- Reading a document fails at a flaw of its tokens. -/
theorem Document.blames_of_ofTokens {s : TokenStream} {flaw : Flaw}
    (h : Document.ofTokens s = .error flaw) : s.Blames flaw := by
  rcases bind_eq_error_iff.mp h with h | ⟨⟨decls, r⟩, hr, h⟩
  · exact (Reader.declarations_accounted false s).blames h
  · rcases bind_eq_error_iff.mp h with h | ⟨defs, -, h⟩
    · exact (Reader.declarations_accounted false s).leaves hr _ (Reader.blames_of_definitions h)
    · exact absurd h (by simp)

/-! ## Flaws of a text -/

/-- The flaw lies in a text of the given size, and is empty only at its end. -/
structure Flaw.LiesIn (flaw : Flaw) (size : Nat) : Prop where
  inside : flaw.offset + flaw.len ≤ size
  empty : flaw.len = 0 → flaw.offset = size

/-- The flaws of a stream are those at its first token and those behind it. -/
theorem TokenStream.blames_next_iff {t : Token} {r : TokenStream} {flaw : Flaw} :
    (TokenStream.next t r).Blames flaw ↔ (∃ fault, flaw = t.flaw fault) ∨ r.Blames flaw := by
  simp only [Blames, flaw?, tokens, List.mem_cons, exists_eq_or_imp]
  tauto

namespace Scan

variable {engine : Engine}

/-- The engine knows where the lexeme would start. Where it says that its automaton failed may be
anywhere, and it may as well fail for another reason. -/
def Engine.NamesStart (engine : Engine) : Prop :=
  ∀ start reached start' fail, engine start reached = .unconsumed start' fail → start' = start

/-- The standard engine names the start of what it leaves. -/
theorem Engine.namesStart_standard : Engine.standard.NamesStart := fun _ _ _ _ h =>
  (MatchFailure.unconsumed.inj h).1.symm

/-- Whatever the engine reports, it is shown on a part of the text. -/
theorem Engine.NamesStart.flaw_liesIn (hengine : engine.NamesStart) {start size : Nat}
    (h : start < size) (reached : Nat) : ((engine start reached).flaw size).LiesIn size := by
  cases hfailure : engine start reached with
  | unconsumed start' fail =>
    obtain rfl := hengine start reached start' fail hfailure
    obtain ⟨hpos, hle⟩ := MatchFailure.unconsumed_len fail h
    exact ⟨hle, fun hzero => absurd hzero hpos.ne'⟩
  | other reason => exact ⟨Nat.le_refl size, fun _ => rfl⟩

/-- All flaws of a scanned text lie in it. -/
theorem liesIn_of_blames_stream (hengine : engine.NamesStart) {offset pending : Nat} {text : Bytes}
    {flaw : Flaw} (h : (stream engine offset pending text).Blames flaw) :
    flaw.LiesIn (offset + text.length) := by
  induction text generalizing offset pending with
  | nil =>
    rw [stream] at h
    rcases h with h | ⟨t, ht, fault, rfl⟩
    · exact absurd h (by simp [TokenStream.flaw?])
    · obtain rfl := List.mem_singleton.mp ht
      exact ⟨Nat.le_refl _, fun _ => rfl⟩
  | cons b rest ih =>
    have hnext : ∀ more, (stream engine (offset + 1) more rest).Blames flaw →
        flaw.LiesIn (offset + (b :: rest).length) := by
      intro more hmore
      rw [List.length_cons, show offset + (rest.length + 1) = offset + 1 + rest.length by omega]
      exact ih hmore
    cases pending with
    | succ pending => exact hnext pending h
    | zero =>
      rw [stream] at h
      cases hstep : step b rest with
      | gap more =>
        rw [hstep] at h
        exact hnext more h
      | token kind more =>
        rw [hstep] at h
        rcases TokenStream.blames_next_iff.mp h with ⟨fault, rfl⟩ | h
        · have hlength : (b :: rest.take more).length ≤ (b :: rest).length :=
            Nat.succ_le_succ (List.length_take_le' more rest)
          exact ⟨Nat.add_le_add_left hlength offset, fun hzero => absurd hzero (Nat.succ_ne_zero _)⟩
        · exact hnext more h
      | stuck fitting =>
        rw [hstep] at h
        rcases h with h | ⟨t, ht, -⟩
        · obtain rfl := Option.some.inj h
          exact hengine.flaw_liesIn (Nat.lt_add_of_pos_right (Nat.succ_pos _)) _
        · exact absurd ht List.not_mem_nil

end Scan

/-! ## Line and column -/

namespace Span

/-- The line of an offset: one more than the line feeds before it. -/
def lineAt (text : Bytes) (offset : Nat) : Nat := (text.take offset).count lineFeed + 1

/-- The column of an offset: one more than the bytes before it on its line. -/
def columnAt (text : Bytes) (offset : Nat) : Nat :=
  ((text.take offset).rtakeWhile (· != lineFeed)).length + 1

/-- The byte at an offset decides on the position behind it. -/
theorem positionFrom_succ {line col n : Nat} {text : Bytes} {b : UInt8} (hb : text[n]? = some b) :
    positionFrom line col (n + 1) text
      = if b = lineFeed then ((positionFrom line col n text).1 + 1, 1)
        else ((positionFrom line col n text).1, (positionFrom line col n text).2 + 1) := by
  induction n generalizing line col text with
  | zero =>
    cases text with
    | nil => exact absurd hb (by simp)
    | cons c rest =>
      obtain rfl : c = b := by simpa using hb
      simp [positionFrom]
  | succ n ih =>
    cases text with
    | nil => exact absurd hb (by simp)
    | cons c rest =>
      rw [List.getElem?_cons_succ] at hb
      rw [positionFrom, positionFrom]
      split
      · exact ih hb
      · exact ih hb

/-- Line and column of an offset within a text. -/
theorem positionAt_eq {text : Bytes} {offset : Nat} (h : offset ≤ text.length) :
    positionAt text offset = (lineAt text offset, columnAt text offset) := by
  induction offset with
  | zero => rfl
  | succ n ih =>
    have hb : text[n]? = some text[n] := List.getElem?_eq_getElem h
    have hposition := ih (Nat.le_of_succ_le h)
    unfold positionAt at hposition ⊢
    rw [positionFrom_succ hb, hposition]
    simp only [lineAt, columnAt, List.take_add_one, hb, Option.toList_some, List.count_append,
      List.rtakeWhile_concat]
    by_cases hfeed : text[n] = lineFeed
    · simp [hfeed]
    · simp [hfeed]

/-! ## Spans that lie in their source -/

/-- A size that fits a machine word is not cut. -/
theorem word64_of_lt {n : Nat} (h : n < 2 ^ 63) : word64 n = n :=
  Int.bmod_eq_of_le (by omega) (by omega)

section InSource

variable {source : Source} {offset len : Nat}

/-- An offset within a text is what it is. -/
theorem offsetIn?_of_le {text : Bytes} (h : offset ≤ text.length) :
    offsetIn? text offset = some offset := by
  rw [offsetIn?, if_pos ⟨Int.natCast_nonneg offset, Int.ofNat_le.mpr h⟩, Int.toNat_natCast]

/-- A span within its source cuts it in three. -/
theorem cut?_of_le (hsize : source.text.length < 2 ^ 63)
    (hle : offset + len ≤ source.text.length) :
    cut? source.text ⟨some source, offset, len⟩
      = some (source.text.take offset, source.text.extract offset (offset + len),
          source.text.drop (offset + len)) := by
  have hstop : stop ⟨some source, offset, len⟩ = (offset + len : Nat) := by
    rw [stop, ← Int.natCast_add]
    exact word64_of_lt (by omega)
  rw [cut?, hstop, offsetIn?_of_le (by omega), offsetIn?_of_le hle, List.extract_eq_take_drop]
  exact if_pos (Nat.le_add_right offset len)

/-- The text of a span within its source. -/
theorem text?_of_le (hsize : source.text.length < 2 ^ 63)
    (hle : offset + len ≤ source.text.length) :
    text? ⟨some source, offset, len⟩ = some (source.text.extract offset (offset + len)) := by
  simp only [text?, cut?_of_le hsize hle, Option.map_some]

/-- The position of a span within its source. -/
theorem position?_of_le (len : Int) (hle : offset ≤ source.text.length) :
    position? ⟨some source, offset, len⟩
      = some (lineAt source.text offset, columnAt source.text offset) := by
  simp only [position?, offsetIn?_of_le hle, Option.map_some, positionAt_eq hle]

/-- The lines around a span within its source, with the span marked. -/
theorem context?_of_le (hsize : source.text.length < 2 ^ 63)
    (hle : offset + len ≤ source.text.length) :
    context? ⟨some source, offset, len⟩ defaultLimit
      = some (heading source.file (lineAt source.text offset) (columnAt source.text offset)
          ++ lastLines 1 (source.text.take offset)
          ++ utf8 "\x1b[1;31m" ++ source.text.extract offset (offset + len)
          ++ utf8 "\x1b[0m" ++ firstLines 1 (source.text.drop (offset + len))) := by
  have hposition := position?_of_le len (Nat.le_of_add_right_le hle)
  simp only [context?, cut?_of_le hsize hle, hposition]
  rfl

end InSource

end Span

namespace ParseError

/-- The error is on `len` bytes of the source from an offset on, and all that it tells of itself can
be told: the bytes, line and column, the message, and the bytes in place. -/
structure Marks (e : ParseError) (source : Source) (offset len : Nat) : Prop where
  span_eq : e.span = ⟨some source, offset, len⟩
  inside : offset + len ≤ source.text.length
  text_eq : e.span.text? = some (source.text.extract offset (offset + len))
  position_eq : e.span.position?
    = some (Span.lineAt source.text offset, Span.columnAt source.text offset)
  message_eq : e.message?
    = some (let head := (if source.file = [] then utf8 "<input>" else source.file)
          ++ utf8 ":" ++ decimal (Span.lineAt source.text offset)
          ++ utf8 ":" ++ decimal (Span.columnAt source.text offset)
          ++ utf8 ": " ++ e.fault.message
        if e.causes.isEmpty then head else (Outline.node head (e.causes.map .leaf)).print)
  context_eq : e.context?
    = some (Span.heading source.file (Span.lineAt source.text offset)
          (Span.columnAt source.text offset)
        ++ Span.lastLines 1 (source.text.take offset)
        ++ utf8 "\x1b[1;31m" ++ source.text.extract offset (offset + len)
        ++ utf8 "\x1b[0m" ++ Span.firstLines 1 (source.text.drop (offset + len)))

/-- An error of a flaw within the source marks the place of the flaw. -/
theorem ofFlaw_marks {source : Source} (hsize : source.text.length < 2 ^ 63) {flaw : Flaw}
    (hle : flaw.offset + flaw.len ≤ source.text.length) :
    (ofFlaw source flaw).Marks source flaw.offset flaw.len := by
  have hspan : (ofFlaw source flaw).span = ⟨some source, flaw.offset, flaw.len⟩ := by
    have hstart : word64 (0 + flaw.offset) = flaw.offset := by
      rw [Int.zero_add]
      exact Span.word64_of_lt (by omega)
    have hlen : word64 ((flaw.offset + flaw.len : Nat) - flaw.offset) = flaw.len := by
      rw [show ((flaw.offset + flaw.len : Nat) : Int) - flaw.offset = flaw.len by omega]
      exact Span.word64_of_lt (by omega)
    exact congrArg₂ (Span.mk (some source)) hstart hlen
  have hposition := Span.position?_of_le flaw.len (Nat.le_of_add_right_le hle)
  constructor
  case span_eq => exact hspan
  case inside => exact hle
  case text_eq => rw [hspan, Span.text?_of_le hsize hle]
  case position_eq => rw [hspan, hposition]
  case message_eq =>
    rw [message?, file, hspan, hposition]
    rfl
  case context_eq => rw [context?, hspan, Span.context?_of_le hsize hle]

end ParseError

namespace Description

/-- **Every error of a text can be reported.** It is on bytes of the text, and on none only if it is
at the end, wherever in the text or beyond it the engine says that it failed. The offsets of a text
are signed 64-bit numbers, so that there are no longer ones. -/
theorem parseWith_error_marks {engine : Scan.Engine} (hengine : engine.NamesStart)
    {source : Source} (hsize : source.text.length < 2 ^ 63) {e : ParseError}
    (h : parseWith engine source = .error e) :
    ∃ offset len, e.Marks source offset len ∧ (len = 0 → offset = source.text.length) := by
  unfold parseWith at h
  cases hflaw : Document.ofTextWith engine source.text with
  | ok doc =>
    rw [hflaw] at h
    exact absurd h (by simp)
  | error flaw =>
    rw [hflaw] at h
    obtain rfl := Except.error.inj h
    have hlies := Scan.liesIn_of_blames_stream hengine (Document.blames_of_ofTokens hflaw)
    rw [Nat.zero_add] at hlies
    exact ⟨flaw.offset, flaw.len, ParseError.ofFlaw_marks hsize hlies.inside, hlies.empty⟩

/-- A text that ends inside a quoted name, so that what does not fit ends with the text. -/
def openQuote : Source := { text := utf8 "%start a\n%%\na: 'b", file := utf8 "g.y" }

/-- An engine that says that it failed where the lexeme would start. -/
def hastyEngine : Scan.Engine := fun start _ => .unconsumed start start

/-- An engine that fails for reasons of its own. -/
def brokenEngine : Scan.Engine := fun _ _ => .other (utf8 "bad state")

theorem parseWith_error_marks_openQuote : openQuote.text.length < 2 ^ 63 ∧
    (∃ e, parseWith .standard openQuote = .error e ∧ e.span.text? = some (utf8 "'b") ∧
      ∃ offset len, e.Marks openQuote offset len ∧ (len = 0 → offset = openQuote.text.length)) ∧
    (∃ e, parseWith hastyEngine openQuote = .error e ∧ e.span.text? = some (utf8 "'") ∧
      ∃ offset len, e.Marks openQuote offset len ∧ (len = 0 → offset = openQuote.text.length)) ∧
    ∃ e, parseWith brokenEngine openQuote = .error e ∧
      e.message? = some (utf8 "g.y:3:6: scan failed\n└── bad state\n") ∧
      ∃ offset len, e.Marks openQuote offset len ∧ (len = 0 → offset = openQuote.text.length) := by
  have hsize : openQuote.text.length < 2 ^ 63 := by decide +kernel
  have herror : parseWith .standard openQuote = .error (.ofFlaw openQuote ⟨15, 2, .unexpectedInput⟩)
      := by decide +kernel
  have hhasty : parseWith hastyEngine openQuote
      = .error (.ofFlaw openQuote ⟨15, 1, .unexpectedInput⟩) := by decide +kernel
  have hbroken : parseWith brokenEngine openQuote
      = .error (.ofFlaw openQuote ⟨17, 0, .scanFailed (utf8 "bad state")⟩) := by decide +kernel
  have hbrokenNames : brokenEngine.NamesStart := fun _ _ _ _ h => absurd h (by simp [brokenEngine])
  have hhastyNames : hastyEngine.NamesStart := fun _ _ _ _ h =>
    (MatchFailure.unconsumed.inj h).1.symm
  refine ⟨hsize, ⟨_, herror, by decide +kernel, ?_⟩, ⟨_, hhasty, by decide +kernel, ?_⟩,
    ⟨_, hbroken, by decide +kernel, ?_⟩⟩
  · exact parseWith_error_marks Scan.Engine.namesStart_standard hsize herror
  · exact parseWith_error_marks hhastyNames hsize hhasty
  · exact parseWith_error_marks hbrokenNames hsize hbroken

end Description

end YaccTables
