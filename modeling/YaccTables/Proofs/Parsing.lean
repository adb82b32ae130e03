import YaccTables.Proofs.Meaning
import YaccTables.Proofs.Reading

/-!
# Text and the description that it gives

Grammar text has a description exactly if its tokens start with the form of a document, and then
the start rule and the rules of the description are those of the document.
-/

namespace YaccTables

/-- The tokens of the text start with the form of the document. No token of the form may come after
a place where scanning is stuck; what stands behind the form does not matter. -/
def Document.WrittenIn (doc : Document) (text : Bytes) : Prop :=
  ∃ ts rest, (TokenStream.ofText text).tokens = ts ++ rest ∧ DocumentForm ts doc

/-- A text reads as a document exactly if the document is written in it. -/
theorem Document.ofText_eq_ok_iff {text : Bytes} {doc : Document} :
    Document.ofText text = .ok doc ↔ doc.WrittenIn text :=
  ofTokens_eq_ok_iff fun t ht => (TokenStream.ofText_wellScanned text t ht).kind_ne

/-- A document that is written in a text declares one start rule at most. -/
theorem Document.WrittenIn.countP_isStart_le {doc : Document} {text : Bytes}
    (h : doc.WrittenIn text) : doc.declarations.countP Declaration.isStart ≤ 1 := by
  obtain ⟨ts, rest, -, hform⟩ := h
  cases hform with
  | mk _ _ _ _ hstart => exact hstart

/-- The tokens of a definition were scanned. -/
theorem Document.WrittenIn.exists_definition {doc : Document} {text : Bytes}
    (h : doc.WrittenIn text) {d : Definition} (hd : d ∈ doc.definitions) :
    ∃ us : List Token, (∀ t ∈ us, t.kind ≠ .endOfInput → t ∈ (TokenStream.ofText text).scanned) ∧
      DefinitionForm us d := by
  obtain ⟨ts, rest, htokens, hform⟩ := h
  cases hform with
  | @mk declared defined mark last _ definitions _ _ hdefined _ _ =>
    obtain ⟨us, hus, hdef⟩ := exists_mem_of_forall₂ (List.Forall₂.flip hdefined) hd
    refine ⟨us, fun t ht hk => ?_, hdef⟩
    have hmem : t ∈ (TokenStream.ofText text).tokens := by
      have hflat : t ∈ defined.flatten := List.mem_flatten.mpr ⟨us, hus, ht⟩
      rw [htokens]
      simp [hflat]
    exact TokenStream.mem_scanned_of_mem_tokens hmem hk

/-- Rules are defined under bare names. -/
theorem Document.WrittenIn.isWordPart_rule {doc : Document} {text : Bytes} (h : doc.WrittenIn text)
    {d : Definition} (hd : d ∈ doc.definitions) : ∀ b ∈ d.rule, Scan.isWordPart b = true := by
  obtain ⟨us, hscanned, hdef⟩ := h.exists_definition hd
  cases hdef with
  | mk ht _ _ =>
    have hmem := hscanned _ List.mem_cons_self (by rw [ht]; decide)
    exact TokenStream.ofText_identifier hmem ht

namespace Description

/-- A source is read into a document, which has its description. -/
theorem parse_eq (source : Source) :
    parse source = match Document.ofText source.text with
      | .ok doc => .ok doc.description
      | .error flaw => .error (.ofFlaw source flaw) := rfl

/-- Reading grammar text succeeds exactly if a document is written in it. -/
theorem parse_eq_ok_iff {source : Source} {a : Description} :
    parse source = .ok a ↔ ∃ doc : Document, doc.WrittenIn source.text ∧ doc.description = a := by
  rw [parse_eq]
  cases h : Document.ofText source.text with
  | error flaw =>
    constructor
    · intro h
      exact absurd h (by simp)
    · rintro ⟨doc, hdoc, -⟩
      rw [Document.ofText_eq_ok_iff.mpr hdoc] at h
      exact absurd h (by simp)
  | ok doc =>
    constructor
    · intro ha
      exact ⟨doc, Document.ofText_eq_ok_iff.mp h, Except.ok.inj ha⟩
    · rintro ⟨doc', hdoc, rfl⟩
      rw [Document.ofText_eq_ok_iff.mpr hdoc] at h
      rw [Except.ok.inj h]

/-- Whatever is read refers to rules and tokens only. -/
theorem hasKnownKinds_of_parse {source : Source} {a : Description} (h : parse source = .ok a) :
    a.HasKnownKinds := by
  obtain ⟨doc, -, rfl⟩ := parse_eq_ok_iff.mp h
  exact doc.description_hasKnownKinds

/-- Rules that are read have names of word characters. -/
theorem isWordPart_ruleNames {source : Source} {a : Description} (h : parse source = .ok a)
    {name : Name} (hname : name ∈ a.ruleNames) : ∀ b ∈ name, Scan.isWordPart b = true := by
  obtain ⟨doc, hdoc, rfl⟩ := parse_eq_ok_iff.mp h
  obtain ⟨r, hr, rfl⟩ := List.mem_map.mp hname
  rw [doc.description_rules] at hr
  obtain ⟨name, hmem, rfl⟩ := List.mem_map.mp hr
  obtain ⟨d, hd, rfl⟩ := List.mem_map.mp (List.mem_eraseDups.mp hmem)
  exact hdoc.isWordPart_rule hd

/-- **Text is read exactly if it has the form of a document, and it means what the document says.**
-/
theorem parse_iff_form (source : Source) :
    ((∃ a, parse source = .ok a) ↔ ∃ doc : Document, doc.WrittenIn source.text) ∧
      ∀ doc : Document, doc.WrittenIn source.text →
        ∃ a, parse source = .ok a ∧ a.start = doc.start ∧ a.rules = doc.rules := by
  have hread : ∀ doc : Document, doc.WrittenIn source.text →
      ∃ a, parse source = .ok a ∧ a.start = doc.start ∧ a.rules = doc.rules := by
    intro doc hdoc
    refine ⟨doc.description, parse_eq_ok_iff.mpr ⟨doc, hdoc, rfl⟩, ?_, doc.description_rules⟩
    exact Document.description_start hdoc.countP_isStart_le
  refine ⟨⟨?_, ?_⟩, hread⟩
  · rintro ⟨a, ha⟩
    obtain ⟨doc, hdoc, -⟩ := parse_eq_ok_iff.mp ha
    exact ⟨doc, hdoc⟩
  · rintro ⟨doc, hdoc⟩
    obtain ⟨a, ha, -⟩ := hread doc hdoc
    exact ⟨a, ha⟩

/-- Two definitions of one rule, a bare name that only has precedence, an empty alternative, and
behind the second mark a quote that is never closed. -/
def twiceDefined : Source :=
  { text := utf8 "%left b %start a %% a: b 'c' | ; d: a; a: d %prec b; %% '" }

theorem parse_twiceDefined : ∃ a, parse twiceDefined = .ok a ∧ a.start = utf8 "a" ∧
    a.rules =
      [⟨utf8 "a", [⟨[.token (utf8 "b"), .token (utf8 "c")], []⟩, ⟨[], []⟩,
        ⟨[.rule (utf8 "d")], utf8 "b"⟩]⟩,
       ⟨utf8 "d", [⟨[.rule (utf8 "a")], []⟩]⟩] := by
  let doc : Document :=
    { declarations := [.precedence .left [utf8 "b"], .start (utf8 "a")]
      definitions :=
        [⟨utf8 "a", [⟨[.bare (utf8 "b"), .quoted (utf8 "c")], none⟩, ⟨[], none⟩]⟩,
         ⟨utf8 "d", [⟨[.bare (utf8 "a")], none⟩]⟩,
         ⟨utf8 "a", [⟨[.bare (utf8 "d")], some (utf8 "b")⟩]⟩] }
  have hdoc : doc.WrittenIn twiceDefined.text := Document.ofText_eq_ok_iff.mp (by decide +kernel)
  obtain ⟨a, ha, hstart, hrules⟩ := (parse_iff_form twiceDefined).2 doc hdoc
  refine ⟨a, ha, ?_, ?_⟩
  · rw [hstart]
    decide +kernel
  · rw [hrules]
    decide +kernel

end Description

end YaccTables
