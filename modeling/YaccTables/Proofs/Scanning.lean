import YaccTables.Token.Stream

/-!
# Scanned tokens

What every token of a scanned text satisfies, whatever the text: it stands in the text where it
says, it is not the one that ends the input, a quoted one has both of its quotes, and an identifier
is a word. Each fact is shown of one step (`Scan.step`); every token of the whole stream was found
by such a step (`Scan.exists_step_of_mem_scanned`).
-/

namespace YaccTables

namespace TokenStream

/-- The tokens before the end, in order. -/
def scanned : TokenStream → List Token
  | .next t rest => t :: rest.scanned
  | _ => []

/-- Every token but the one that ends the input was scanned. -/
theorem mem_scanned_of_mem_tokens {s : TokenStream} {t : Token} (h : t ∈ s.tokens)
    (hk : t.kind ≠ .endOfInput) : t ∈ s.scanned := by
  induction s with
  | done offset =>
    obtain rfl := List.mem_singleton.mp h
    exact absurd rfl hk
  | stuck flaw => simp [tokens] at h
  | next u rest ih =>
    rcases List.mem_cons.mp h with rfl | h
    · exact List.mem_cons_self
    · exact List.mem_cons_of_mem u (ih h)

end TokenStream

namespace Scan

/-! ## One step -/

/-- No token begins with a slash. -/
theorem slash_ne_token (rest : Bytes) (kind : TokenKind) (more : Nat) :
    slash rest ≠ .token kind more := by
  unfold slash
  intro h
  repeat' split at h
  all_goals simp at h

/-- A percent sign begins a mark or a directive. -/
theorem percent_eq_token {rest : Bytes} {kind : TokenKind} {more : Nat}
    (h : percent rest = .token kind more) :
    (kind = .sections ∧ rest.head? = some (ascii '%') ∧ more = 1) ∨
      (kind = .directive ∧ (∃ c, rest.head? = some c ∧ isWordStart c = true) ∧
        more = run isWordStart rest) := by
  unfold percent at h
  split at h
  · exact absurd h (by simp)
  · next c tail =>
    split at h
    · next hc =>
      simp only [Step.token.injEq] at h
      exact .inl ⟨h.1.symm, by rw [List.head?_cons, hc], h.2.symm⟩
    · split at h
      · next hw =>
        simp only [Step.token.injEq] at h
        exact .inr ⟨h.1.symm, ⟨c, rfl, hw⟩, h.2.symm⟩
      · exact absurd h (by simp)

/-- A quoted name goes up to the next mark of its sort. -/
theorem quotation_eq_token {mark : UInt8} {rest : Bytes} {kind : TokenKind} {more : Nat}
    (h : quotation mark rest = .token kind more) :
    kind = .quoted ∧ rest[run (isQuotable mark) rest]? = some mark ∧
      more = run (isQuotable mark) rest + 1 := by
  simp only [quotation] at h
  split at h
  · next hmark =>
    simp only [Step.token.injEq] at h
    exact ⟨h.1.symm, hmark, h.2.symm⟩
  · exact absurd h (by simp)

/-- What a step that finds a token can find. -/
theorem step_eq_token {b : UInt8} {rest : Bytes} {kind : TokenKind} {more : Nat}
    (h : step b rest = .token kind more) :
    (kind = .identifier ∧ isWordStart b = true ∧ more = run isWordPart rest) ∨
      (kind = .sections ∧ b = ascii '%' ∧ rest.head? = some (ascii '%') ∧ more = 1) ∨
      (kind = .directive ∧ b = ascii '%' ∧ (∃ c, rest.head? = some c ∧ isWordStart c = true) ∧
        more = run isWordStart rest) ∨
      (kind = .quoted ∧ (b = ascii '\'' ∨ b = ascii '"') ∧
        rest[run (isQuotable b) rest]? = some b ∧ more = run (isQuotable b) rest + 1) ∨
      (kind = .colon ∧ b = ascii ':' ∧ more = 0) ∨
      (kind = .bar ∧ b = ascii '|' ∧ more = 0) ∨
      (kind = .semicolon ∧ b = ascii ';' ∧ more = 0) := by
  unfold step at h
  split at h
  · exact absurd h (by simp)
  split at h
  · next hw =>
    simp only [Step.token.injEq] at h
    exact .inl ⟨h.1.symm, hw, h.2.symm⟩
  split at h
  · exact absurd h (slash_ne_token rest kind more)
  split at h
  · next hb =>
    rcases percent_eq_token h with ⟨hk, hhead, hmore⟩ | ⟨hk, hhead, hmore⟩
    · exact .inr (.inl ⟨hk, hb, hhead, hmore⟩)
    · exact .inr (.inr (.inl ⟨hk, hb, hhead, hmore⟩))
  split at h
  · next hb =>
    obtain ⟨hk, hmark, hmore⟩ := quotation_eq_token h
    exact .inr (.inr (.inr (.inl ⟨hk, hb, hmark, hmore⟩)))
  -- the three marks that stand for themselves
  split at h
  · next hb =>
    simp only [Step.token.injEq] at h
    exact .inr (.inr (.inr (.inr (.inl ⟨h.1.symm, hb, h.2.symm⟩))))
  split at h
  · next hb =>
    simp only [Step.token.injEq] at h
    exact .inr (.inr (.inr (.inr (.inr (.inl ⟨h.1.symm, hb, h.2.symm⟩)))))
  split at h
  · next hb =>
    simp only [Step.token.injEq] at h
    exact .inr (.inr (.inr (.inr (.inr (.inr ⟨h.1.symm, hb, h.2.symm⟩)))))
  · exact absurd h (by simp)

/-- The end of the input is not scanned as a token. -/
theorem step_token_kind {b : UInt8} {rest : Bytes} {kind : TokenKind} {more : Nat}
    (h : step b rest = .token kind more) : kind ≠ .endOfInput := by
  rcases step_eq_token h with h | h | h | h | h | h | h
  all_goals
    rw [h.1]
    decide

/-- A quoted name has both of its marks. -/
theorem step_quoted {b : UInt8} {rest : Bytes} {more : Nat}
    (h : step b rest = .token .quoted more) : 1 ≤ more ∧ more ≤ rest.length := by
  rcases step_eq_token h with h | h | h | ⟨-, -, hmark, hmore⟩ | h | h | h
  case inr.inr.inr.inl =>
    have hlt := (List.getElem?_eq_some_iff.mp hmark).1
    omega
  all_goals exact absurd h.1 (by decide)

/-! ## The whole stream -/

/-- The token stands in the text where it says, and has the shape of its kind. -/
structure WellScanned (text : Bytes) (t : Token) : Prop where
  kind_ne : t.kind ≠ .endOfInput
  inside : t.offset + t.lexeme.length ≤ text.length
  lexeme_eq : (text.drop t.offset).take t.lexeme.length = t.lexeme
  quotes : t.kind = .quoted → 2 ≤ t.lexeme.length

/-- A token is what stands in the text at its offset. -/
theorem step_wellScanned {b : UInt8} {rest : Bytes} {kind : TokenKind} {more : Nat}
    (h : step b rest = .token kind more) (before : Bytes) :
    WellScanned (before ++ b :: rest) ⟨kind, before.length, b :: rest.take more⟩ := by
  constructor
  case kind_ne => exact step_token_kind h
  case inside =>
    simp only [List.length_append, List.length_cons, List.length_take]
    omega
  case lexeme_eq =>
    have hmin : rest.take (rest.take more).length = rest.take more := by
      rw [List.take_eq_take_iff, List.length_take]
      omega
    rw [List.drop_left, List.length_cons, List.take_succ_cons, hmin]
  case quotes =>
    rintro rfl
    have hquoted := step_quoted h
    simp only [List.length_cons, List.length_take]
    omega

/-- Every scanned token was found by a step somewhere in the text. -/
theorem exists_step_of_mem_scanned {engine : Engine} {offset pending : Nat} {text : Bytes}
    {t : Token} (h : t ∈ (stream engine offset pending text).scanned) :
    ∃ before b rest more, text = before ++ b :: rest ∧ step b rest = .token t.kind more ∧
      t = ⟨t.kind, offset + before.length, b :: rest.take more⟩ := by
  induction text generalizing offset pending with
  | nil => simp [stream, TokenStream.scanned] at h
  | cons b rest ih =>
    -- the byte at hand goes over to what came before
    have hnext : ∀ more, t ∈ (stream engine (offset + 1) more rest).scanned →
        ∃ before c tail more, b :: rest = before ++ c :: tail ∧
          step c tail = .token t.kind more ∧
          t = ⟨t.kind, offset + before.length, c :: tail.take more⟩ := by
      intro more hmore
      obtain ⟨before, c, tail, n, hrest, hstep, ht⟩ := ih hmore
      refine ⟨b :: before, c, tail, n, by rw [hrest, List.cons_append], hstep, ?_⟩
      rw [List.length_cons, show offset + (before.length + 1) = offset + 1 + before.length by omega]
      exact ht
    cases pending with
    | succ pending => exact hnext pending h
    | zero =>
      rw [stream] at h
      cases hstep : step b rest with
      | gap more =>
        rw [hstep] at h
        exact hnext more h
      | stuck more =>
        rw [hstep] at h
        simp [TokenStream.scanned] at h
      | token kind more =>
        rw [hstep] at h
        rcases List.mem_cons.mp h with rfl | h
        · exact ⟨[], b, rest, more, rfl, hstep, rfl⟩
        · exact hnext more h

end Scan

/-- **Every scanned token stands in the text where it says and has the shape of its kind**, whatever
engine reports where none starts. -/
theorem TokenStream.ofTextWith_wellScanned (engine : Scan.Engine) (text : Bytes) :
    ∀ t ∈ (TokenStream.ofTextWith engine text).scanned, Scan.WellScanned text t := by
  intro t ht
  obtain ⟨before, b, rest, more, rfl, hstep, heq⟩ := Scan.exists_step_of_mem_scanned ht
  rw [heq, Nat.zero_add]
  exact Scan.step_wellScanned hstep before

/-- The tokens of a text stand in it where they say. -/
theorem TokenStream.ofText_wellScanned (text : Bytes) :
    ∀ t ∈ (TokenStream.ofText text).scanned, Scan.WellScanned text t :=
  ofTextWith_wellScanned .standard text

/-- An identifier is a word: letters, digits, underscores and dots. -/
theorem TokenStream.ofText_identifier {text : Bytes} {t : Token}
    (ht : t ∈ (TokenStream.ofText text).scanned) (hk : t.kind = .identifier) :
    ∀ b ∈ t.lexeme, Scan.isWordPart b = true := by
  obtain ⟨before, b, rest, more, rfl, hstep, heq⟩ := Scan.exists_step_of_mem_scanned ht
  rw [hk] at hstep
  rcases Scan.step_eq_token hstep with ⟨-, hstart, hmore⟩ | h | h | h | h | h | h
  case inl =>
    have hrun : rest.take more = rest.takeWhile Scan.isWordPart := by
      rw [hmore]
      exact (List.prefix_iff_eq_take.mp (List.takeWhile_prefix Scan.isWordPart)).symm
    rw [heq, hrun]
    intro c hc
    rcases List.mem_cons.mp hc with rfl | hc
    · simp [Scan.isWordPart, hstart]
    · exact List.all_eq_true.mp List.all_takeWhile c hc
  all_goals exact absurd h.1 (by decide)

end YaccTables
