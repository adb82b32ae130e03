import YaccTables.Document.Reader
import YaccTables.Proofs.DocumentForm
import YaccTables.Proofs.Scanning
import YaccTables.Proofs.Traversal

/-!
# Reading by the form

The reader is sound and complete for the form of a document: it reads one exactly from the streams
whose tokens start with one (`Document.ofTokens_eq_ok_iff`). The proof goes form by form, with one
lemma in each direction. A stream is taken apart with `TokenStream.prepend`, and `TokenStream.Peeks`
says what the one token of lookahead is: only completeness needs it.
-/

namespace YaccTables

/-! ## Directives -/

namespace Directive

/-- The word that announces the directive, if one does. -/
def word? : Directive → Option String
  | .start => some "%start"
  | .tokens => some "%token"
  | .precedence .left => some "%left"
  | .precedence .right => some "%right"
  | .precedence .nonassoc => some "%nonassoc"
  | .precedence (.other _) => none
  | .implicit => some "%implicit_tokens"

/-- A directive is known by its word. -/
theorem word?_of_ofLexeme? {lexeme : Bytes} {k : Directive} (h : ofLexeme? lexeme = some k) :
    ∃ w, k.word? = some w ∧ lexeme = utf8 w := by
  unfold ofLexeme? at h
  split at h
  · next hw => exact ⟨_, Option.some.inj h ▸ rfl, hw⟩
  split at h
  · next hw => exact ⟨_, Option.some.inj h ▸ rfl, hw⟩
  split at h
  · next hw => exact ⟨_, Option.some.inj h ▸ rfl, hw⟩
  split at h
  · next hw => exact ⟨_, Option.some.inj h ▸ rfl, hw⟩
  split at h
  · next hw => exact ⟨_, Option.some.inj h ▸ rfl, hw⟩
  split at h
  · next hw => exact ⟨_, Option.some.inj h ▸ rfl, hw⟩
  · exact absurd h (by simp)

/-- No word announces two directives. -/
theorem ofLexeme?_of_word? {k : Directive} {w : String} (h : k.word? = some w) :
    ofLexeme? (utf8 w) = some k := by
  unfold word? at h
  split at h
  case h_6 => exact absurd h (by simp)
  all_goals
    obtain rfl := Option.some.inj h
    decide +kernel

end Directive

/-! ## Streams by their tokens -/

namespace TokenStream

/-- The stream that starts with some tokens. -/
def prepend (ts : List Token) (s : TokenStream) : TokenStream := ts.foldr .next s

@[simp] theorem prepend_nil (s : TokenStream) : s.prepend [] = s := rfl

@[simp] theorem prepend_cons (t : Token) (ts : List Token) (s : TokenStream) :
    s.prepend (t :: ts) = .next t (s.prepend ts) := rfl

/-- Tokens can be put in front part by part. -/
@[simp] theorem prepend_append (ts us : List Token) (s : TokenStream) :
    s.prepend (ts ++ us) = (s.prepend us).prepend ts := by
  simp [prepend]

/-- Tokens in front come first. -/
@[simp] theorem tokens_prepend (ts : List Token) (s : TokenStream) :
    (s.prepend ts).tokens = ts ++ s.tokens := by
  induction ts with
  | nil => rfl
  | cons t ts ih => rw [prepend_cons, tokens, ih, List.cons_append]

/-- Tokens in front are scanned first. -/
@[simp] theorem scanned_prepend (ts : List Token) (s : TokenStream) :
    (s.prepend ts).scanned = ts ++ s.scanned := by
  induction ts with
  | nil => rfl
  | cons t ts ih => rw [prepend_cons, scanned, ih, List.cons_append]

/-- Tokens in front bring no flaw. -/
@[simp] theorem flaw?_prepend (ts : List Token) (s : TokenStream) :
    (s.prepend ts).flaw? = s.flaw? := by
  induction ts with
  | nil => rfl
  | cons t ts ih => rw [prepend_cons, flaw?, ih]

/-- The next token is there, and it satisfies the condition. -/
def Peeks (P : Token → Prop) : TokenStream → Prop
  | .done offset => P (.endAt offset)
  | .stuck _ => False
  | .next t _ => P t

/-- Tokens before the last one of a stream were scanned: the stream starts with them. -/
theorem eq_prepend_of_tokens {s : TokenStream} {ts rest : List Token} {t : Token}
    (h : s.tokens = ts ++ t :: rest) :
    ∃ r : TokenStream, s = r.prepend ts ∧ r.tokens = t :: rest := by
  induction ts generalizing s with
  | nil => exact ⟨s, rfl, h⟩
  | cons u ts ih =>
    cases s with
    | done offset => exact absurd (congrArg List.length h) (by simp [tokens])
    | stuck flaw => exact absurd h (by simp [tokens])
    | next v r =>
      rw [tokens, List.cons_append] at h
      obtain ⟨rfl, htail⟩ := List.cons.inj h
      obtain ⟨r', rfl, hr'⟩ := ih htail
      exact ⟨r', rfl, hr'⟩

end TokenStream

namespace Document.Reader

/-! ## Names -/

/-- What is inside of a lexeme stands between two bytes. -/
theorem inside_eq_iff {lexeme name : Bytes} (hne : name ≠ []) :
    (lexeme.drop 1).dropLast = name ↔ ∃ first last, lexeme = first :: (name ++ [last]) := by
  constructor
  · intro h
    cases lexeme with
    | nil => exact absurd h.symm hne
    | cons first tail =>
      rw [List.drop_one, List.tail_cons] at h
      have htail : tail ≠ [] := by
        rintro rfl
        exact hne h.symm
      refine ⟨first, tail.getLast htail, ?_⟩
      rw [← h, List.dropLast_append_getLast htail]
  · rintro ⟨first, last, rfl⟩
    simp

/-- The name of a token is the one that it has the form of. -/
theorem nameOf_eq_ok_iff {t : Token} {name : Name} (ht : t.isName = true) :
    nameOf t = .ok name ↔ NameForm t name := by
  unfold nameOf
  by_cases hk : t.kind = .quoted
  · rw [if_pos hk]
    dsimp only
    constructor
    · intro h
      split at h
      · exact absurd h (by simp)
      · next hne =>
        obtain rfl := Except.ok.inj h
        obtain ⟨first, last, hlexeme⟩ := (inside_eq_iff hne).mp rfl
        exact .quoted hk hlexeme hne
    · intro h
      cases h with
      | identifier hk' => exact absurd (hk.symm.trans hk') (by decide)
      | quoted _ hlexeme hne =>
        rw [(inside_eq_iff hne).mpr ⟨_, _, hlexeme⟩, if_neg hne]
  · rw [if_neg hk]
    have hk' : t.kind = .identifier := by simpa [Token.isName, hk] using ht
    constructor
    · intro h
      obtain rfl := Except.ok.inj h
      exact .identifier hk'
    · intro h
      cases h with
      | identifier _ => rfl
      | quoted hq _ _ => exact absurd hq hk

/-- Names that are read have the forms of names. -/
theorem names_sound {s r : TokenStream} {ns : List Name} (h : names s = .ok (ns, r)) :
    ∃ ts, s = r.prepend ts ∧ List.Forall₂ NameForm ts ns := by
  induction s generalizing ns with
  | done offset =>
    obtain ⟨rfl, rfl⟩ := Prod.mk.inj (Except.ok.inj h)
    exact ⟨[], rfl, .nil⟩
  | stuck flaw => exact absurd h (by simp [names])
  | next t rest ih =>
    unfold names at h
    split at h
    · next ht =>
      obtain ⟨name, hname, h⟩ := bind_eq_ok_iff.mp h
      obtain ⟨⟨more, r'⟩, hmore, h⟩ := bind_eq_ok_iff.mp h
      obtain ⟨rfl, rfl⟩ := Prod.mk.inj (Except.ok.inj h)
      obtain ⟨ts, rfl, hts⟩ := ih hmore
      exact ⟨t :: ts, rfl, .cons ((nameOf_eq_ok_iff ht).mp hname) hts⟩
    · obtain ⟨rfl, rfl⟩ := Prod.mk.inj (Except.ok.inj h)
      exact ⟨[], rfl, .nil⟩

/-- Tokens with the forms of names are read as these. -/
theorem names_complete {r : TokenStream} {ts : List Token} {ns : List Name}
    (hts : List.Forall₂ NameForm ts ns) (hpeek : r.Peeks (·.isName = false)) :
    names (r.prepend ts) = .ok (ns, r) := by
  induction hts with
  | nil =>
    -- what comes next is no name, so that reading stops here
    cases r with
    | done offset => rfl
    | stuck flaw => exact absurd hpeek id
    | next t rest =>
      have ht : t.isName = false := hpeek
      rw [TokenStream.prepend_nil, names, ht]
      rfl
  | cons hname _ ih =>
    have ht := hname.isName
    rw [TokenStream.prepend_cons, names, if_pos ht, (nameOf_eq_ok_iff ht).mpr hname, ih]
    rfl

/-- Operands that are read have the forms of names, and there are some. -/
theorem operands_sound {d : Token} {s r : TokenStream} {ns : List Name}
    (h : operands d s = .ok (ns, r)) : ∃ ts, s = r.prepend ts ∧ NamesForm ts ns := by
  obtain ⟨⟨ns', r'⟩, hnames, h⟩ := bind_eq_ok_iff.mp h
  dsimp only at h
  split at h
  · exact absurd h (by simp)
  · next hne =>
    obtain ⟨rfl, rfl⟩ := Prod.mk.inj (Except.ok.inj h)
    obtain ⟨ts, rfl, hts⟩ := names_sound hnames
    refine ⟨ts, rfl, ?_, hts⟩
    rintro rfl
    exact hne (List.forall₂_nil_left_iff.mp hts)

/-- Tokens with the forms of names are read as operands. -/
theorem operands_complete {d : Token} {r : TokenStream} {ts : List Token} {ns : List Name}
    (hts : NamesForm ts ns) (hpeek : r.Peeks (·.isName = false)) :
    operands d (r.prepend ts) = .ok (ns, r) := by
  have hne : ns ≠ [] := by
    rintro rfl
    exact hts.1 (List.forall₂_nil_right_iff.mp hts.2)
  refine bind_eq_ok_iff.mpr ⟨(ns, r), names_complete hts.2 hpeek, ?_⟩
  exact if_neg hne

/-! ## Declarations -/

/-- A token of a kind is taken if it comes next. -/
theorem expect_eq_ok_iff {kind : TokenKind} (hkind : kind ≠ .endOfInput) {s r : TokenStream}
    {t : Token} : expect kind s = .ok (t, r) ↔ s = .next t r ∧ t.kind = kind := by
  unfold expect
  rw [bind_eq_ok_iff]
  constructor
  · rintro ⟨⟨u, r'⟩, hnext, h⟩
    dsimp only at h
    split at h
    · next hu =>
      obtain ⟨rfl, rfl⟩ := Prod.mk.inj (Except.ok.inj h)
      cases s with
      | done offset =>
        obtain ⟨rfl, -⟩ := Prod.mk.inj (Except.ok.inj hnext)
        exact absurd hu.symm hkind
      | stuck flaw => exact absurd hnext (by simp [next])
      | next v rest =>
        obtain ⟨rfl, rfl⟩ := Prod.mk.inj (Except.ok.inj hnext)
        exact ⟨rfl, hu⟩
    · exact absurd h (by simp)
  · rintro ⟨rfl, ht⟩
    exact ⟨(t, r), rfl, if_pos ht⟩

/-- A directive with operands has what its operands make. -/
theorem operands_bind_sound {d : Token} {s r : TokenStream} {decl : Declaration}
    {make : List Name → Declaration}
    (h : (do let (ns, rest) ← operands d s; .ok (make ns, rest)) = Except.ok (decl, r)) :
    ∃ ts ns, s = r.prepend ts ∧ NamesForm ts ns ∧ decl = make ns := by
  obtain ⟨⟨ns, r'⟩, hns, h⟩ := bind_eq_ok_iff.mp h
  obtain ⟨rfl, rfl⟩ := Prod.mk.inj (Except.ok.inj h)
  obtain ⟨ts, rfl, hts⟩ := operands_sound hns
  exact ⟨ts, ns, rfl, hts, rfl⟩

/-- A directive that is known by its word is written so. -/
theorem isDirective_of_ofLexeme? {d : Token} {k : Directive} {w : String}
    (hd : d.kind = .directive) (hk : Directive.ofLexeme? d.lexeme = some k)
    (hw : k.word? = some w) : d.IsDirective w := by
  obtain ⟨w', hw', hlexeme⟩ := Directive.word?_of_ofLexeme? hk
  obtain rfl := Option.some.inj (hw.symm.trans hw')
  exact ⟨hd, hlexeme⟩

/-- A declaration that is read has the form of one. -/
theorem declaration_sound {d : Token} {s r : TokenStream} {decl : Declaration}
    (hd : d.kind = .directive) (h : declaration d s = .ok (decl, r)) :
    ∃ ts, s = r.prepend ts ∧ DeclarationForm (d :: ts) decl := by
  unfold declaration at h
  split at h
  · exact absurd h (by simp)
  · next hk =>
    obtain ⟨⟨t, r'⟩, ht, h⟩ := bind_eq_ok_iff.mp h
    obtain ⟨rfl, rfl⟩ := Prod.mk.inj (Except.ok.inj h)
    obtain ⟨rfl, hident⟩ := (expect_eq_ok_iff (by decide)).mp ht
    exact ⟨[t], rfl, .start (isDirective_of_ofLexeme? hd hk rfl) hident⟩
  · next hk =>
    obtain ⟨ts, ns, rfl, hts, rfl⟩ := operands_bind_sound h
    exact ⟨ts, rfl, .tokens (isDirective_of_ofLexeme? hd hk rfl) hts⟩
  · next assoc hk =>
    obtain ⟨ts, ns, rfl, hts, rfl⟩ := operands_bind_sound h
    refine ⟨ts, rfl, ?_⟩
    cases assoc with
    | left => exact .left (isDirective_of_ofLexeme? hd hk rfl) hts
    | right => exact .right (isDirective_of_ofLexeme? hd hk rfl) hts
    | nonassoc => exact .nonassoc (isDirective_of_ofLexeme? hd hk rfl) hts
    | other code =>
      -- no word announces this one
      obtain ⟨w, hw, -⟩ := Directive.word?_of_ofLexeme? hk
      exact absurd hw (by simp [Directive.word?])
  · next hk =>
    obtain ⟨ts, ns, rfl, hts, rfl⟩ := operands_bind_sound h
    exact ⟨ts, rfl, .implicit (isDirective_of_ofLexeme? hd hk rfl) hts⟩

/-- Tokens with the form of a declaration are read as it. -/
theorem declaration_complete {d : Token} {r : TokenStream} {ts : List Token} {decl : Declaration}
    (h : DeclarationForm (d :: ts) decl) (hpeek : r.Peeks (·.isName = false)) :
    declaration d (r.prepend ts) = .ok (decl, r) := by
  unfold declaration
  cases h with
  | start hd ht =>
    rw [hd.2, Directive.ofLexeme?_of_word? (k := .start) rfl]
    exact bind_eq_ok_iff.mpr ⟨_, (expect_eq_ok_iff (by decide)).mpr ⟨rfl, ht⟩, rfl⟩
  | tokens hd hts =>
    rw [hd.2, Directive.ofLexeme?_of_word? (k := .tokens) rfl]
    exact bind_eq_ok_iff.mpr ⟨_, operands_complete hts hpeek, rfl⟩
  | left hd hts =>
    rw [hd.2, Directive.ofLexeme?_of_word? (k := .precedence .left) rfl]
    exact bind_eq_ok_iff.mpr ⟨_, operands_complete hts hpeek, rfl⟩
  | right hd hts =>
    rw [hd.2, Directive.ofLexeme?_of_word? (k := .precedence .right) rfl]
    exact bind_eq_ok_iff.mpr ⟨_, operands_complete hts hpeek, rfl⟩
  | nonassoc hd hts =>
    rw [hd.2, Directive.ofLexeme?_of_word? (k := .precedence .nonassoc) rfl]
    exact bind_eq_ok_iff.mpr ⟨_, operands_complete hts hpeek, rfl⟩
  | implicit hd hts =>
    rw [hd.2, Directive.ofLexeme?_of_word? (k := .implicit) rfl]
    exact bind_eq_ok_iff.mpr ⟨_, operands_complete hts hpeek, rfl⟩

/-! ## Alternatives -/

/-- A name that is taken comes next. -/
theorem next_eq_ok_of_isName {s r : TokenStream} {t : Token} (h : next s = .ok (t, r))
    (ht : t.isName = true) : s = .next t r := by
  cases s with
  | done offset =>
    obtain ⟨rfl, -⟩ := Prod.mk.inj (Except.ok.inj h)
    exact absurd ht (by simp [Token.isName, Token.endAt])
  | stuck flaw => exact absurd h (by simp [next])
  | next u rest =>
    obtain ⟨rfl, rfl⟩ := Prod.mk.inj (Except.ok.inj h)
    rfl

/-- An alternative that is read has the form of one. -/
theorem alternative_sound {s r : TokenStream} {alt : Alternative}
    (h : alternative s = .ok (alt, r)) : ∃ ts, s = r.prepend ts ∧ AlternativeForm ts alt := by
  induction s generalizing alt with
  | done offset =>
    obtain ⟨rfl, rfl⟩ := Prod.mk.inj (Except.ok.inj h)
    exact ⟨[], rfl, .plain .nil⟩
  | stuck flaw => exact absurd h (by simp [alternative])
  | next t rest ih =>
    unfold alternative at h
    split at h
    · next hk =>
      obtain ⟨⟨alt', r'⟩, halt, h⟩ := bind_eq_ok_iff.mp h
      obtain ⟨rfl, rfl⟩ := Prod.mk.inj (Except.ok.inj h)
      obtain ⟨ts, rfl, hts⟩ := ih halt
      exact ⟨t :: ts, rfl, hts.cons (.bare hk)⟩
    · next hk =>
      obtain ⟨name, hname, h⟩ := bind_eq_ok_iff.mp h
      obtain ⟨⟨alt', r'⟩, halt, h⟩ := bind_eq_ok_iff.mp h
      obtain ⟨rfl, rfl⟩ := Prod.mk.inj (Except.ok.inj h)
      obtain ⟨ts, rfl, hts⟩ := ih halt
      have hname' : NameForm t name :=
        (nameOf_eq_ok_iff (by simp [Token.isName, hk])).mp hname
      exact ⟨t :: ts, rfl, hts.cons (.quoted hk hname')⟩
    · next hk =>
      split at h
      · next hprec =>
        obtain ⟨⟨operand, r'⟩, hnext, h⟩ := bind_eq_ok_iff.mp h
        dsimp only at h
        split at h
        · next hoperand =>
          obtain ⟨name, hname, h⟩ := bind_eq_ok_iff.mp h
          obtain ⟨rfl, rfl⟩ := Prod.mk.inj (Except.ok.inj h)
          obtain rfl := next_eq_ok_of_isName hnext hoperand
          have hform := (nameOf_eq_ok_iff hoperand).mp hname
          exact ⟨[t, operand], rfl, .prec .nil ⟨hk, hprec⟩ hform⟩
        · exact absurd h (by simp)
      · exact absurd h (by simp)
    · obtain ⟨rfl, rfl⟩ := Prod.mk.inj (Except.ok.inj h)
      exact ⟨[], rfl, .plain .nil⟩

/-- Symbols are read in front of whatever alternative follows. -/
theorem alternative_prepend {s r : TokenStream} {alt : Alternative} {ts : List Token}
    {symbols : List Written} (hts : List.Forall₂ WrittenForm ts symbols)
    (h : alternative s = .ok (alt, r)) :
    alternative (s.prepend ts) = .ok ({ alt with symbols := symbols ++ alt.symbols }, r) := by
  induction hts with
  | nil => exact h
  | cons hw _ ih =>
    rw [TokenStream.prepend_cons, alternative]
    cases hw with
    | bare hk =>
      rw [hk]
      exact bind_eq_ok_iff.mpr ⟨_, ih, rfl⟩
    | quoted hk hname =>
      rw [hk]
      have hok := (nameOf_eq_ok_iff (hname.isName)).mpr hname
      exact bind_eq_ok_iff.mpr ⟨_, hok, bind_eq_ok_iff.mpr ⟨_, ih, rfl⟩⟩

/-- Tokens with the form of an alternative are read as it. -/
theorem alternative_complete {r : TokenStream} {ts : List Token} {alt : Alternative}
    (h : AlternativeForm ts alt)
    (hpeek : r.Peeks fun t => t.kind = .bar ∨ t.kind = .semicolon) :
    alternative (r.prepend ts) = .ok (alt, r) := by
  cases h with
  | @plain _ symbols hts =>
    have hstop : alternative r = .ok (⟨[], none⟩, r) := by
      cases r with
      | done offset => rfl
      | stuck flaw => exact absurd hpeek id
      | next t rest =>
        rw [alternative]
        rcases hpeek with hk | hk
        · rw [hk]
        · rw [hk]
    have hread := alternative_prepend hts hstop
    rwa [List.append_nil] at hread
  | @prec ts symbols d t name hts hd ht =>
    have hprec : alternative (r.prepend [d, t]) = .ok (⟨[], some name⟩, r) := by
      have hname := ht.isName
      rw [TokenStream.prepend_cons, alternative, hd.1]
      dsimp only
      rw [if_pos hd.2]
      refine bind_eq_ok_iff.mpr ⟨(t, r), rfl, ?_⟩
      dsimp only
      rw [if_pos hname]
      exact bind_eq_ok_iff.mpr ⟨_, (nameOf_eq_ok_iff hname).mpr ht, rfl⟩
    have hread := alternative_prepend hts hprec
    rwa [List.append_nil, ← TokenStream.prepend_append] at hread

/-- Alternatives are read one after the other up to a semicolon. -/
theorem alternatives_eq (s : TokenStream) :
    alternatives s = (do
      let (alt, rest) ← alternative s
      let (t, rest) ← next rest
      match t.kind with
      | .semicolon => .ok ([alt], rest)
      | .bar => do
        let (more, rest) ← alternatives rest
        .ok (alt :: more, rest)
      | _ => .error (t.flaw (.expectedBarOrSemicolon t))) := by
  rw [alternatives]
  split
  · next h => rw [h]; rfl
  · next h => rw [h]; rfl
  · next h => rw [h]; rfl
  · next h => rw [h]; rfl

/-- Alternatives that are read have the forms of such. -/
theorem alternatives_sound {s r : TokenStream} {alts : List Alternative}
    (h : alternatives s = .ok (alts, r)) :
    ∃ ts, s = r.prepend ts ∧ AlternativesForm ts alts := by
  fun_induction alternatives s generalizing alts with
  | case1 => exact absurd h (by simp)
  | case2 => exact absurd h (by simp)
  | case3 => exact absurd h (by simp)
  | case4 s alt t rest halt hk =>
    -- a semicolon: this was the last alternative
    obtain ⟨rfl, rfl⟩ := Prod.mk.inj (Except.ok.inj h)
    obtain ⟨ts, rfl, hts⟩ := alternative_sound halt
    exact ⟨ts ++ [t], by simp, .last hts hk⟩
  | case5 s alt t rest halt hk ih =>
    -- a bar: more alternatives follow
    obtain ⟨⟨more, r'⟩, hmore, h⟩ := bind_eq_ok_iff.mp h
    obtain ⟨rfl, rfl⟩ := Prod.mk.inj (Except.ok.inj h)
    obtain ⟨ts, rfl, hts⟩ := alternative_sound halt
    obtain ⟨us, rfl, hus⟩ := ih hmore
    exact ⟨ts ++ t :: us, by simp, .more hts hk hus⟩
  | case6 => exact absurd h (by simp)

/-- Tokens with the forms of alternatives are read as these. -/
theorem alternatives_complete {r : TokenStream} {ts : List Token} {alts : List Alternative}
    (h : AlternativesForm ts alts) : alternatives (r.prepend ts) = .ok (alts, r) := by
  induction h with
  | @last ts alt t hts ht =>
    have halt := alternative_complete (r := .next t r) hts (.inr ht)
    rw [TokenStream.prepend_append, alternatives_eq]
    refine bind_eq_ok_iff.mpr ⟨_, halt, bind_eq_ok_iff.mpr ⟨(t, r), rfl, ?_⟩⟩
    dsimp only
    rw [ht]
  | @more ts us alt alts t hts ht _ ih =>
    have halt := alternative_complete (r := .next t (r.prepend us)) hts (.inl ht)
    rw [TokenStream.prepend_append, alternatives_eq]
    refine bind_eq_ok_iff.mpr ⟨_, halt, bind_eq_ok_iff.mpr ⟨(t, r.prepend us), rfl, ?_⟩⟩
    dsimp only
    rw [ht]
    exact bind_eq_ok_iff.mpr ⟨_, ih, rfl⟩

/-! ## Sections -/

/-- What follows a declaration is no name. -/
theorem peeks_declarations {r : TokenStream} {declared : List (List Token)}
    {decls : List Declaration} {mark : Token}
    (hdeclared : List.Forall₂ DeclarationForm declared decls) (hmark : mark.kind = .sections) :
    (r.prepend (declared.flatten ++ [mark])).Peeks (·.isName = false) := by
  cases hdeclared with
  | nil => simp [TokenStream.Peeks, Token.isName, hmark]
  | cons hts _ =>
    obtain ⟨d, us, rfl, hk⟩ := hts.head
    simp [TokenStream.Peeks, Token.isName, hk]

/-- A first `%start` moves from the declarations to come into what was seen. -/
theorem starts_cons {started : Bool} {decl : Declaration} {decls : List Declaration}
    (h : (decl.isStart && started) = false) :
    started.toNat + (decl :: decls).countP Declaration.isStart =
      (started || decl.isStart).toNat + decls.countP Declaration.isStart := by
  rw [List.countP_cons]
  cases hs : decl.isStart with
  | false => simp
  | true =>
    rw [hs, Bool.true_and] at h
    simp [h, Nat.add_comm]

/-- Declarations end with a mark. -/
theorem declarations_mark {started : Bool} {mark : Token} {r : TokenStream}
    (hk : mark.kind = .sections) : declarations started (.next mark r) = .ok ([], r) := by
  rw [declarations, hk]

/-- A directive is read as a declaration, and more follow. -/
theorem declarations_directive {started : Bool} {d : Token} {s r : TokenStream}
    {decl : Declaration} (hk : d.kind = .directive) (hd : declaration d s = .ok (decl, r))
    (hstart : (decl.isStart && started) = false) :
    declarations started (.next d s) = (do
      let (more, rest) ← declarations (started || decl.isStart) r
      .ok (decl :: more, rest)) := by
  rw [declarations, hk]
  dsimp only
  split
  · next h => exact absurd (hd.symm.trans h) (by simp)
  · next h =>
    obtain ⟨rfl, rfl⟩ := Prod.mk.inj (Except.ok.inj (hd.symm.trans h))
    rw [hstart]
    rfl

/-- Declarations that are read have the forms of such, and one at most is of the start rule. -/
theorem declarations_sound {started : Bool} {s r : TokenStream} {decls : List Declaration}
    (h : declarations started s = .ok (decls, r)) :
    ∃ declared mark, s = r.prepend (declared.flatten ++ [mark]) ∧
      List.Forall₂ DeclarationForm declared decls ∧ mark.kind = .sections ∧
      started.toNat + decls.countP Declaration.isStart ≤ 1 := by
  fun_induction declarations started s generalizing decls with
  | case1 => exact absurd h (by simp)
  | case2 => exact absurd h (by simp)
  | case3 started t rest hk =>
    obtain ⟨rfl, rfl⟩ := Prod.mk.inj (Except.ok.inj h)
    exact ⟨[], t, rfl, .nil, hk, started.toNat_le⟩
  | case4 => exact absurd h (by simp)
  | case5 => exact absurd h (by simp)
  | case6 started t rest hk decl rest' hdecl hstart ih =>
    obtain ⟨⟨more, r'⟩, hmore, h⟩ := bind_eq_ok_iff.mp h
    obtain ⟨rfl, rfl⟩ := Prod.mk.inj (Except.ok.inj h)
    obtain ⟨ts, rfl, hts⟩ := declaration_sound hk hdecl
    obtain ⟨declared, mark, rfl, hdeclared, hmark, hcount⟩ := ih hmore
    refine ⟨(t :: ts) :: declared, mark, by simp, .cons hts hdeclared, hmark, ?_⟩
    rwa [starts_cons (Bool.eq_false_iff.mpr hstart)]
  | case7 => exact absurd h (by simp)

/-- Tokens with the forms of declarations are read as these. -/
theorem declarations_complete {started : Bool} {r : TokenStream} {declared : List (List Token)}
    {decls : List Declaration} {mark : Token}
    (hdeclared : List.Forall₂ DeclarationForm declared decls) (hmark : mark.kind = .sections)
    (hcount : started.toNat + decls.countP Declaration.isStart ≤ 1) :
    declarations started (r.prepend (declared.flatten ++ [mark])) = .ok (decls, r) := by
  induction hdeclared generalizing started with
  | nil => exact declarations_mark hmark
  | @cons ts decl declared decls hts hdeclared ih =>
    -- what follows the declaration is another one or the mark, and no name in either case
    obtain ⟨d, us, rfl, hk⟩ := hts.head
    have hpeek := peeks_declarations (r := r) hdeclared hmark
    have hdecl := declaration_complete hts hpeek
    have hstart : (decl.isStart && started) = false := by
      cases hs : decl.isStart with
      | false => rfl
      | true =>
        rw [List.countP_cons, hs] at hcount
        cases started with
        | false => rfl
        | true => exact absurd hcount (by simp)
    rw [List.flatten_cons, List.append_assoc, List.cons_append, TokenStream.prepend_cons,
      TokenStream.prepend_append, declarations_directive hk hdecl hstart]
    rw [starts_cons hstart] at hcount
    exact bind_eq_ok_iff.mpr ⟨_, ih hcount, rfl⟩

/-- A name and a colon begin a definition, and more follow. -/
theorem definitions_identifier {t c : Token} {s r : TokenStream} {alts : List Alternative}
    (ht : t.kind = .identifier) (hc : c.kind = .colon) (halts : alternatives s = .ok (alts, r)) :
    definitions (.next t (.next c s)) = (do
      let more ← definitions r
      .ok (⟨t.lexeme, alts⟩ :: more)) := by
  have hcolon : expect .colon (.next c s) = .ok (c, s) :=
    (expect_eq_ok_iff (by decide)).mpr ⟨rfl, hc⟩
  rw [definitions, ht]
  dsimp only
  split
  · next h => exact absurd (hcolon.symm.trans h) (by simp)
  · next h =>
    obtain ⟨rfl, rfl⟩ := Prod.mk.inj (Except.ok.inj (hcolon.symm.trans h))
    split
    · next h => exact absurd (halts.symm.trans h) (by simp)
    · next h =>
      obtain ⟨rfl, rfl⟩ := Prod.mk.inj (Except.ok.inj (halts.symm.trans h))
      rfl

/-- Definitions that are read have the forms of such. -/
theorem definitions_sound {s : TokenStream} {defs : List Definition}
    (h : definitions s = .ok defs) :
    ∃ defined last rest, s.tokens = defined.flatten ++ last :: rest ∧
      List.Forall₂ DefinitionForm defined defs ∧
      (last.kind = .endOfInput ∨ last.kind = .sections) := by
  fun_induction definitions s generalizing defs with
  | case1 => exact absurd h (by simp)
  | case2 offset =>
    obtain rfl := Except.ok.inj h
    exact ⟨[], .endAt offset, [], rfl, .nil, .inl rfl⟩
  | case3 t rest hk =>
    obtain rfl := Except.ok.inj h
    exact ⟨[], t, rest.tokens, rfl, .nil, .inr hk⟩
  | case4 => exact absurd h (by simp)
  | case5 => exact absurd h (by simp)
  | case6 t rest hk c rest' hcolon alts rest'' halts ih =>
    obtain ⟨more, hmore, h⟩ := bind_eq_ok_iff.mp h
    obtain rfl := Except.ok.inj h
    obtain ⟨rfl, hc⟩ := (expect_eq_ok_iff (by decide)).mp hcolon
    obtain ⟨us, rfl, hus⟩ := alternatives_sound halts
    obtain ⟨defined, last, rest, htokens, hdefined, hlast⟩ := ih hmore
    refine ⟨(t :: c :: us) :: defined, last, rest, ?_, .cons (.mk hk hc hus) hdefined, hlast⟩
    simp [TokenStream.tokens, htokens]
  | case7 => exact absurd h (by simp)

/-- Tokens with the forms of definitions are read as these. -/
theorem definitions_complete {r : TokenStream} {defined : List (List Token)}
    {defs : List Definition} (hdefined : List.Forall₂ DefinitionForm defined defs)
    (hlast : definitions r = .ok []) : definitions (r.prepend defined.flatten) = .ok defs := by
  induction hdefined with
  | nil => exact hlast
  | @cons ts d defined defs hd _ ih =>
    cases hd with
    | @mk t c us alts ht hc hus =>
      have halts := alternatives_complete (r := r.prepend defined.flatten) hus
      rw [List.flatten_cons, TokenStream.prepend_append, TokenStream.prepend_cons,
        TokenStream.prepend_cons, definitions_identifier ht hc halts]
      exact bind_eq_ok_iff.mpr ⟨_, ih, rfl⟩

/-- Definitions end with the input or with a mark. -/
theorem definitions_last {s : TokenStream} {last : Token} {rest : List Token}
    (hscanned : ∀ t ∈ s.scanned, t.kind ≠ .endOfInput) (htokens : s.tokens = last :: rest)
    (hlast : last.kind = .endOfInput ∨ last.kind = .sections) : definitions s = .ok [] := by
  cases s with
  | done offset => rw [definitions]
  | stuck flaw => exact absurd htokens (by simp [TokenStream.tokens])
  | next t s =>
    obtain ⟨rfl, -⟩ := List.cons.inj htokens
    rcases hlast with hk | hk
    -- no scanned token stands for the end of the input
    · exact absurd hk (hscanned t List.mem_cons_self)
    · rw [definitions, hk]

end Document.Reader

/-- **Documents are read exactly from their form.** What stands after the form is not looked at; the
tokens of a scanned text satisfy the hypothesis. -/
theorem Document.ofTokens_eq_ok_iff {s : TokenStream} {doc : Document}
    (hscanned : ∀ t ∈ s.scanned, t.kind ≠ .endOfInput) :
    Document.ofTokens s = .ok doc ↔ ∃ ts rest, s.tokens = ts ++ rest ∧ DocumentForm ts doc := by
  constructor
  · intro h
    obtain ⟨⟨decls, r⟩, hdecls, h⟩ := bind_eq_ok_iff.mp h
    obtain ⟨defs, hdefs, h⟩ := bind_eq_ok_iff.mp h
    obtain rfl := Except.ok.inj h
    obtain ⟨declared, mark, rfl, hdeclared, hmark, hcount⟩ := Reader.declarations_sound hdecls
    obtain ⟨defined, last, rest, htokens, hdefined, hlast⟩ := Reader.definitions_sound hdefs
    refine ⟨_, rest, ?_, .mk hdeclared hmark hdefined hlast (by simpa using hcount)⟩
    rw [TokenStream.tokens_prepend, htokens]
    simp
  · rintro ⟨ts, rest, htokens, hform⟩
    cases hform with
    | @mk declared defined mark last decls defs hdeclared hmark hdefined hlast hcount =>
      -- all tokens of the form but its last one were scanned, whatever the last one is
      rw [show declared.flatten ++ mark :: (defined.flatten ++ [last]) ++ rest =
          (declared.flatten ++ [mark] ++ defined.flatten) ++ last :: rest by simp] at htokens
      obtain ⟨r, rfl, hr⟩ := TokenStream.eq_prepend_of_tokens htokens
      rw [TokenStream.scanned_prepend] at hscanned
      have hrest : Reader.definitions r = .ok [] :=
        Reader.definitions_last (fun t ht => hscanned t (List.mem_append_right _ ht)) hr hlast
      rw [TokenStream.prepend_append, Document.ofTokens]
      refine bind_eq_ok_iff.mpr ⟨_, Reader.declarations_complete hdeclared hmark ?_, ?_⟩
      · simpa using hcount
      · exact bind_eq_ok_iff.mpr ⟨_, Reader.definitions_complete hdefined hrest, rfl⟩

end YaccTables
