import YaccTables.Document
import YaccTables.Token.Stream

/-!
# Reading documents

A document is read from tokens:

```text
document    = declaration* '%%' definition* ('%%' anything)?
declaration = '%start' identifier
            | ('%token' | '%left' | '%right' | '%nonassoc' | '%implicit_tokens') name+
definition  = identifier ':' alternative ('|' alternative)* ';'
alternative = name* ('%prec' name)?
```

A name is an identifier or quoted and not empty, and `%start` stands at most once. The functions
below stop at the first token that does not fit and say what they would have taken there.
-/

namespace YaccTables

namespace Document.Reader

/-- The next token, which at the end of the input is the one that ends it. -/
def next : TokenStream → Except Flaw (Token × TokenStream)
  | .done offset => .ok (.endAt offset, .done offset)
  | .stuck flaw => .error flaw
  | .next t rest => .ok (t, rest)

/-- The next token, which has to be of a kind. -/
def expect (kind : TokenKind) (s : TokenStream) : Except Flaw (Token × TokenStream) := do
  let (t, rest) ← next s
  if t.kind = kind then .ok (t, rest) else .error (t.flaw (.expected kind t))

/-- The name that a name token stands for. -/
def nameOf (t : Token) : Except Flaw Name :=
  if t.kind = .quoted then
    let name := (t.lexeme.drop 1).dropLast
    if name = [] then .error (t.flaw .emptyTokenName) else .ok name
  else .ok t.lexeme

/-- As many names as there are. -/
def names : TokenStream → Except Flaw (List Name × TokenStream)
  | .done offset => .ok ([], .done offset)
  | .stuck flaw => .error flaw
  | .next t rest =>
    if t.isName then do
      let name ← nameOf t
      let (more, rest) ← names rest
      .ok (name :: more, rest)
    else .ok ([], .next t rest)

/-- The operands of a directive that takes one or more names. -/
def operands (directive : Token) (s : TokenStream) : Except Flaw (List Name × TokenStream) := do
  let (names, rest) ← names s
  if names = [] then .error (directive.flaw (.needsName directive.lexeme)) else .ok (names, rest)

/-- The declaration that a directive begins. -/
def declaration (directive : Token) (s : TokenStream) : Except Flaw (Declaration × TokenStream) :=
  match Directive.ofLexeme? directive.lexeme with
  | none => .error (directive.flaw (.unknownDeclaration directive.lexeme))
  | some .start => do
    let (name, rest) ← expect .identifier s
    .ok (.start name.lexeme, rest)
  | some .tokens => do
    let (names, rest) ← operands directive s
    .ok (.tokens names, rest)
  | some (.precedence assoc) => do
    let (names, rest) ← operands directive s
    .ok (.precedence assoc names, rest)
  | some .implicit => do
    let (names, rest) ← operands directive s
    .ok (.implicit names, rest)

/-- The symbols of an alternative up to `%prec` and its operand, or to a token that is no part of
it. -/
def alternative : TokenStream → Except Flaw (Alternative × TokenStream)
  | .done offset => .ok (⟨[], none⟩, .done offset)
  | .stuck flaw => .error flaw
  | .next t rest =>
    match t.kind with
    | .identifier => do
      let (alt, rest) ← alternative rest
      .ok ({ alt with symbols := .bare t.lexeme :: alt.symbols }, rest)
    | .quoted => do
      let name ← nameOf t
      let (alt, rest) ← alternative rest
      .ok ({ alt with symbols := .quoted name :: alt.symbols }, rest)
    | .directive =>
      if t.lexeme = utf8 "%prec" then do
        let (operand, rest) ← next rest
        if operand.isName then
          let name ← nameOf operand
          .ok (⟨[], some name⟩, rest)
        else .error (operand.flaw (.expectedPrecName operand))
      else .error (t.flaw (.unexpectedDirective t.lexeme))
    | _ => .ok (⟨[], none⟩, .next t rest)

/-! ## Reading takes tokens

The loops below end because each round leaves a shorter stream. -/

/-- Taking a token leaves no more. -/
theorem next_size {s rest : TokenStream} {t : Token} (h : next s = .ok (t, rest)) :
    rest.size ≤ s.size := by
  cases s with
  | done offset => simp only [next, Except.ok.injEq, Prod.mk.injEq] at h; simp [← h.2]
  | stuck flaw => simp [next] at h
  | next u r =>
    simp only [next, Except.ok.injEq, Prod.mk.injEq] at h
    simp [← h.2, TokenStream.size]

/-- Taking a token of a kind leaves no more. -/
theorem expect_size {kind : TokenKind} {s rest : TokenStream} {t : Token}
    (h : expect kind s = .ok (t, rest)) : rest.size ≤ s.size := by
  unfold expect at h
  cases hn : next s with
  | error flaw => simp [hn, bind, Except.bind] at h
  | ok p =>
    obtain ⟨u, r⟩ := p
    simp only [hn, bind, Except.bind] at h
    split at h
    · simp only [Except.ok.injEq, Prod.mk.injEq] at h
      exact h.2 ▸ next_size hn
    · simp at h

/-- Reading names leaves no more. -/
theorem names_size {s rest : TokenStream} {ns : List Name} (h : names s = .ok (ns, rest)) :
    rest.size ≤ s.size := by
  induction s generalizing ns with
  | done offset => simp only [names, Except.ok.injEq, Prod.mk.injEq] at h; simp [← h.2]
  | stuck flaw => simp [names] at h
  | next t r ih =>
    unfold names at h
    split at h
    · cases hn : nameOf t with
      | error flaw => simp [hn, bind, Except.bind] at h
      | ok name =>
        cases hr : names r with
        | error flaw => simp [hn, hr, bind, Except.bind] at h
        | ok p =>
          obtain ⟨more, r'⟩ := p
          simp only [hn, hr, bind, Except.bind, Except.ok.injEq, Prod.mk.injEq] at h
          have := ih (h.2 ▸ hr)
          simp only [TokenStream.size]
          omega
    · simp only [Except.ok.injEq, Prod.mk.injEq] at h
      simp [← h.2]

/-- Reading the operands of a directive leaves no more. -/
theorem operands_size {directive : Token} {s rest : TokenStream} {ns : List Name}
    (h : operands directive s = .ok (ns, rest)) : rest.size ≤ s.size := by
  unfold operands at h
  cases hn : names s with
  | error flaw => simp [hn, bind, Except.bind] at h
  | ok p =>
    obtain ⟨ns', r⟩ := p
    simp only [hn, bind, Except.bind] at h
    split at h
    · simp at h
    · simp only [Except.ok.injEq, Prod.mk.injEq] at h
      exact h.2 ▸ names_size hn

/-- Reading a declaration leaves no more. -/
theorem declaration_size {directive : Token} {s rest : TokenStream} {d : Declaration}
    (h : declaration directive s = .ok (d, rest)) : rest.size ≤ s.size := by
  unfold declaration at h
  split at h
  · simp at h
  · cases hn : expect .identifier s with
    | error flaw => simp [hn, bind, Except.bind] at h
    | ok p =>
      simp only [hn, bind, Except.bind, Except.ok.injEq, Prod.mk.injEq] at h
      exact h.2 ▸ expect_size hn
  all_goals
    cases hn : operands directive s with
    | error flaw => simp [hn, bind, Except.bind] at h
    | ok p =>
      simp only [hn, bind, Except.bind, Except.ok.injEq, Prod.mk.injEq] at h
      exact h.2 ▸ operands_size hn

/-- Reading an alternative leaves no more. -/
theorem alternative_size {s rest : TokenStream} {alt : Alternative}
    (h : alternative s = .ok (alt, rest)) : rest.size ≤ s.size := by
  induction s generalizing alt with
  | done offset => simp only [alternative, Except.ok.injEq, Prod.mk.injEq] at h; simp [← h.2]
  | stuck flaw => simp [alternative] at h
  | next t r ih =>
    unfold alternative at h
    simp only [TokenStream.size]
    split at h
    · cases hr : alternative r with
      | error flaw => simp [hr, bind, Except.bind] at h
      | ok p =>
        obtain ⟨alt', r'⟩ := p
        simp only [hr, bind, Except.bind, Except.ok.injEq, Prod.mk.injEq] at h
        have := ih (h.2 ▸ hr)
        omega
    · cases hn : nameOf t with
      | error flaw => simp [hn, bind, Except.bind] at h
      | ok name =>
        cases hr : alternative r with
        | error flaw => simp [hn, hr, bind, Except.bind] at h
        | ok p =>
          obtain ⟨alt', r'⟩ := p
          simp only [hn, hr, bind, Except.bind, Except.ok.injEq, Prod.mk.injEq] at h
          have := ih (h.2 ▸ hr)
          omega
    · split at h
      · cases hn : next r with
        | error flaw => simp [hn, bind, Except.bind] at h
        | ok p =>
          obtain ⟨operand, r'⟩ := p
          simp only [hn, bind, Except.bind] at h
          split at h
          · cases hm : nameOf operand with
            | error flaw => simp [hm] at h
            | ok name =>
              simp only [hm, Except.ok.injEq, Prod.mk.injEq] at h
              have := next_size hn
              rw [← h.2]
              omega
          · simp at h
      · simp at h
    · simp only [Except.ok.injEq, Prod.mk.injEq] at h
      simp [← h.2, TokenStream.size]

/-! ## Sections -/

-- The named equations are used only by `decreasing_by`, which the unused-variable linter does not
-- see.
set_option linter.unusedVariables false in
/-- The declarations through the first `%%`. `started` says whether `%start` was seen. -/
def declarations (started : Bool) (s : TokenStream) :
    Except Flaw (List Declaration × TokenStream) :=
  match s with
  | .stuck flaw => .error flaw
  | .done offset =>
    .error ((Token.endAt offset).flaw (.expectedDeclaration (.endAt offset)))
  | .next t rest =>
    match t.kind with
    | .sections => .ok ([], rest)
    | .directive =>
      match h : declaration t rest with
      | .error flaw => .error flaw
      | .ok (d, rest') =>
        if d.isStart && started then .error (t.flaw .startRepeated)
        else do
          let (more, rest'') ← declarations (started || d.isStart) rest'
          .ok (d :: more, rest'')
    | _ => .error (t.flaw (.expectedDeclaration t))
termination_by s.size
decreasing_by
  have := declaration_size h
  simp only [TokenStream.size]
  omega

-- The named equations are used only by `decreasing_by`, which the unused-variable linter does not
-- see.
set_option linter.unusedVariables false in
/-- The alternatives of a definition, through its semicolon. -/
def alternatives (s : TokenStream) : Except Flaw (List Alternative × TokenStream) :=
  match h : alternative s with
  | .error flaw => .error flaw
  | .ok (_, .stuck flaw) => .error flaw
  | .ok (_, .done offset) =>
    .error ((Token.endAt offset).flaw (.expectedBarOrSemicolon (.endAt offset)))
  | .ok (alt, .next t rest) =>
    match t.kind with
    | .semicolon => .ok ([alt], rest)
    | .bar => do
      let (more, rest') ← alternatives rest
      .ok (alt :: more, rest')
    | _ => .error (t.flaw (.expectedBarOrSemicolon t))
termination_by s.size
decreasing_by
  have := alternative_size h
  simp only [TokenStream.size] at this
  omega

/-- Reading alternatives leaves no more. -/
theorem alternatives_size {s rest : TokenStream} {alts : List Alternative}
    (h : alternatives s = .ok (alts, rest)) : rest.size ≤ s.size := by
  fun_induction alternatives s generalizing alts with
  | case1 => simp at h
  | case2 => simp at h
  | case3 => simp at h
  | case4 s alt t r ha hk =>
    have := alternative_size ha
    simp only [Except.ok.injEq, Prod.mk.injEq, TokenStream.size] at h this
    rw [← h.2]
    omega
  | case5 s alt t r ha hk ih =>
    have := alternative_size ha
    simp only [TokenStream.size] at this
    cases hr : alternatives r with
    | error flaw => simp [hr, bind, Except.bind] at h
    | ok p =>
      obtain ⟨more, r'⟩ := p
      simp only [hr, bind, Except.bind, Except.ok.injEq, Prod.mk.injEq] at h
      have := ih (h.2 ▸ hr)
      omega
  | case6 => simp at h

-- The named equations are used only by `decreasing_by`, which the unused-variable linter does not
-- see.
set_option linter.unusedVariables false in
/-- The definitions up to the end of the input or the second `%%`. What follows that mark is not
looked at. -/
def definitions (s : TokenStream) : Except Flaw (List Definition) :=
  match s with
  | .stuck flaw => .error flaw
  | .done _ => .ok []
  | .next t rest =>
    match t.kind with
    | .sections => .ok []
    | .identifier =>
      match hc : expect .colon rest with
      | .error flaw => .error flaw
      | .ok (_, rest') =>
        match ha : alternatives rest' with
        | .error flaw => .error flaw
        | .ok (alts, rest'') => do
          let more ← definitions rest''
          .ok (⟨t.lexeme, alts⟩ :: more)
    | _ => .error (t.flaw (.expectedRuleName t))
termination_by s.size
decreasing_by
  have := expect_size hc
  have := alternatives_size ha
  simp only [TokenStream.size]
  omega

end Document.Reader

namespace Document

/-- Reads a document from tokens. -/
def ofTokens (s : TokenStream) : Except Flaw Document := do
  let (declarations, rest) ← Reader.declarations false s
  let definitions ← Reader.definitions rest
  .ok ⟨declarations, definitions⟩

/-- Reads a document from text, with the failures of an engine. -/
def ofTextWith (engine : Scan.Engine) (text : Bytes) : Except Flaw Document :=
  ofTokens (.ofTextWith engine text)

/-- Reads a document from text. -/
def ofText (text : Bytes) : Except Flaw Document := ofTextWith .standard text

end Document

end YaccTables
