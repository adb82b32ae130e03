import YaccTables.Proofs.Decimal
import YaccTables.Tables

/-!
# Tables lose nothing

The tables of a grammar turn its kind and its precedences into text, what is not there into an empty
text or into -1, and the indices of all sorts into plain numbers. None of that brings two grammars
together: `tables_injective`. So grammars have the same tables exactly if every accessor gives the
same answers about them (`tables_eq_iff_answersAlike`), whatever their kinds, levels and
associativities are.

The texts can be read from the left. The words for kinds begin with different letters, and so do
those for associativities, and a number ends at the parenthesis behind it.
-/

namespace YaccTables

/-! ## Texts -/

/-- A number in brackets can be read off the front of a text. -/
theorem numbered_append_inj {m n : Int} {r s : Bytes}
    (h : decimalInt m ++ utf8 ")" ++ r = decimalInt n ++ utf8 ")" ++ s) : m = n ∧ r = s := by
  have hparen : ∀ t : Bytes, ∀ b ∈ (utf8 ")" ++ t).head?, isDecimal b = false := by
    intro t b hb
    obtain rfl := Option.some.inj hb
    decide
  rw [List.append_assoc, List.append_assoc] at h
  obtain ⟨hmn, hrest⟩ := decimalInt_append_inj (hparen r) (hparen s) h
  exact ⟨hmn, List.append_cancel_left hrest⟩

theorem Kind.text_injective : Function.Injective Kind.text := by
  intro k k' h
  cases k with
  | original =>
    cases k' with
    | original => rfl
    | eco => exact absurd h (by decide)
    | other code => exact absurd (List.cons.inj h).1 (by decide)
  | eco =>
    cases k' with
    | original => exact absurd h (by decide)
    | eco => rfl
    | other code => exact absurd (List.cons.inj h).1 (by decide)
  | other code =>
    cases k' with
    | original => exact absurd (List.cons.inj h).1 (by decide)
    | eco => exact absurd (List.cons.inj h).1 (by decide)
    | other code' =>
      have hnumber : decimalInt code ++ utf8 ")" ++ [] = decimalInt code' ++ utf8 ")" ++ [] := by
        rw [Kind.text, Kind.text, List.append_assoc, List.append_assoc] at h
        rw [List.append_nil, List.append_nil]
        exact List.append_cancel_left h
      rw [(numbered_append_inj hnumber).1]

/-- No word for an associativity is the beginning of another one. -/
theorem Assoc.text_append_inj {assoc assoc' : Assoc} {r s : Bytes}
    (h : assoc.text ++ r = assoc'.text ++ s) : assoc = assoc' ∧ r = s := by
  cases assoc with
  | left =>
    cases assoc' with
    | left => exact ⟨rfl, List.append_cancel_left h⟩
    | right | nonassoc | other => exact absurd (List.cons.inj h).1 (by decide)
  | right =>
    cases assoc' with
    | right => exact ⟨rfl, List.append_cancel_left h⟩
    | left | nonassoc | other => exact absurd (List.cons.inj h).1 (by decide)
  | nonassoc =>
    cases assoc' with
    | nonassoc => exact ⟨rfl, List.append_cancel_left h⟩
    | left | right | other => exact absurd (List.cons.inj h).1 (by decide)
  | other code =>
    cases assoc' with
    | left | right | nonassoc => exact absurd (List.cons.inj h).1 (by decide)
    | other code' =>
      have hnumber : decimalInt code ++ utf8 ")" ++ r = decimalInt code' ++ utf8 ")" ++ s := by
        simp only [Assoc.text, List.append_assoc] at h ⊢
        exact List.append_cancel_left h
      obtain ⟨rfl, hrest⟩ := numbered_append_inj hnumber
      exact ⟨rfl, hrest⟩

namespace Precedence

/-- Different precedences are written differently. -/
theorem text_injective : Function.Injective Precedence.text := by
  rintro ⟨level, assoc⟩ ⟨level', assoc'⟩ h
  simp only [Precedence.text, List.append_assoc] at h
  obtain ⟨rfl, hlevel⟩ := Assoc.text_append_inj h
  have hnumber : decimalInt level ++ utf8 ")" ++ [] = decimalInt level' ++ utf8 ")" ++ [] := by
    rw [List.append_nil, List.append_nil]
    exact List.append_cancel_left hlevel
  rw [Int.ofNat.inj (numbered_append_inj hnumber).1]

/-- A precedence is written as something. -/
theorem text_ne_nil (p : Precedence) : p.text ≠ [] := by
  have hparen : utf8 ")" ≠ [] := by decide
  intro h
  exact hparen (List.append_eq_nil_iff.mp h).2

/-- No precedence is written like none. -/
theorem textOf_injective : Function.Injective Precedence.textOf := by
  intro p p' h
  cases p with
  | none =>
    cases p' with
    | none => rfl
    | some q => exact absurd h.symm (text_ne_nil q)
  | some p =>
    cases p' with
    | none => exact absurd h (text_ne_nil p)
    | some q => exact congrArg some (text_injective h)

end Precedence

/-! ## Tables -/

namespace Grammar

/-- Different symbols have different entries. -/
theorem symbolEntry_injective : Function.Injective symbolEntry := by
  intro s s' h
  obtain ⟨hsort, hindex⟩ := SymbolEntry.mk.inj h
  cases s with
  | terminal i =>
    cases s' with
    | terminal j => exact congrArg (Symbol.terminal ⟨·⟩) hindex
    | nonterminal j => exact absurd hsort Bool.noConfusion
  | nonterminal i =>
    cases s' with
    | terminal j => exact absurd hsort Bool.noConfusion
    | nonterminal j => exact congrArg (Symbol.nonterminal ⟨·⟩) hindex

/-- Different grammars have different tables. -/
theorem tables_injective : Function.Injective tables := by
  intro g g' h
  obtain ⟨hkind, hnonterminals, hterminals, hproductions, hstart, hend, himplicit⟩ :=
    Tables.mk.inj h
  have hprods : Function.Injective (List.map ProdIdx.val) :=
    List.map_injective_iff.mpr fun p q hpq => congrArg ProdIdx.mk hpq
  have hnonterm : g.nonterminals = g'.nonterminals := by
    refine List.map_injective_iff.mpr ?_ hnonterminals
    rintro ⟨name, prods⟩ ⟨name', prods'⟩ hentry
    obtain ⟨rfl, hlisted⟩ := NontermEntry.mk.inj hentry
    obtain rfl : prods = prods' := hprods hlisted
    rfl
  have hterm : g.terminals = g'.terminals := by
    refine List.map_injective_iff.mpr ?_ hterminals
    rintro ⟨name, prec⟩ ⟨name', prec'⟩ hentry
    obtain ⟨rfl, hprec⟩ := TermEntry.mk.inj hentry
    obtain rfl : prec = prec' := Precedence.textOf_injective hprec
    rfl
  have hprod : g.productions = g'.productions := by
    refine List.map_injective_iff.mpr ?_ hproductions
    rintro ⟨rule, symbols, prec⟩ ⟨rule', symbols', prec'⟩ hentry
    obtain ⟨hrule, hsymbols, hprec⟩ := ProdEntry.mk.inj hentry
    obtain rfl : rule = rule' := congrArg NontermIdx.mk hrule
    obtain rfl : symbols = symbols' := List.map_injective_iff.mpr symbolEntry_injective hsymbols
    obtain rfl : prec = prec' := Precedence.textOf_injective hprec
    rfl
  have himplicit : g.implicitNonterm = g'.implicitNonterm := by
    -- an index is never -1
    cases hi : g.implicitNonterm with
    | none =>
      cases hi' : g'.implicitNonterm with
      | none => rfl
      | some j =>
        simp only [hi, hi'] at himplicit
        omega
    | some i =>
      cases hi' : g'.implicitNonterm with
      | none =>
        simp only [hi, hi'] at himplicit
        omega
      | some j =>
        simp only [hi, hi'] at himplicit
        exact congrArg (fun n => some (NontermIdx.mk n)) (Int.ofNat.inj himplicit)
  have hkind := Kind.text_injective hkind
  have hstart : g.startProd = g'.startProd := congrArg ProdIdx.mk hstart
  have hend : g.endTerm = g'.endTerm := congrArg TermIdx.mk hend
  cases g
  cases g'
  subst hkind hnonterm hterm hprod hstart hend himplicit
  rfl

/-- Every accessor gives the same answers about both grammars. -/
structure AnswersAlike (g g' : Grammar) : Prop where
  kind : g.kind = g'.kind
  termIdxs : g.termIdxs = g'.termIdxs
  nontermIdxs : g.nontermIdxs = g'.nontermIdxs
  prodIdxs : g.prodIdxs = g'.prodIdxs
  termName? : ∀ i, g.termName? i = g'.termName? i
  termPrec? : ∀ i, g.termPrec? i = g'.termPrec? i
  nontermName? : ∀ i, g.nontermName? i = g'.nontermName? i
  nontermProds? : ∀ i, g.nontermProds? i = g'.nontermProds? i
  prodSymbols? : ∀ i, g.prodSymbols? i = g'.prodSymbols? i
  prodRule? : ∀ i, g.prodRule? i = g'.prodRule? i
  prodRuleName? : ∀ i, g.prodRuleName? i = g'.prodRuleName? i
  prodPrec? : ∀ i, g.prodPrec? i = g'.prodPrec? i
  prodText? : ∀ i, g.prodText? i = g'.prodText? i
  symbolName? : ∀ s, g.symbolName? s = g'.symbolName? s
  termIdx? : ∀ name, g.termIdx? name = g'.termIdx? name
  nontermIdx? : ∀ name, g.nontermIdx? name = g'.nontermIdx? name
  startProd : g.startProd = g'.startProd
  startRule : g.startRule = g'.startRule
  endTerm : g.endTerm = g'.endTerm
  implicitNonterm : g.implicitNonterm = g'.implicitNonterm

/-- A grammar answers like itself. -/
theorem AnswersAlike.refl (g : Grammar) : g.AnswersAlike g where
  kind := rfl
  termIdxs := rfl
  nontermIdxs := rfl
  prodIdxs := rfl
  termName? _ := rfl
  termPrec? _ := rfl
  nontermName? _ := rfl
  nontermProds? _ := rfl
  prodSymbols? _ := rfl
  prodRule? _ := rfl
  prodRuleName? _ := rfl
  prodPrec? _ := rfl
  prodText? _ := rfl
  symbolName? _ := rfl
  termIdx? _ := rfl
  nontermIdx? _ := rfl
  startProd := rfl
  startRule := rfl
  endTerm := rfl
  implicitNonterm := rfl

/-- What may be there is known if two of its parts are and it has no others. -/
theorem option_eq_of_parts {α β γ : Type} {x y : Option α} {f : α → β} {k : α → γ}
    (hparts : ∀ a b, f a = f b → k a = k b → a = b) (hf : x.map f = y.map f)
    (hk : x.map k = y.map k) : x = y := by
  cases x with
  | none => exact (Option.map_eq_none_iff.mp hf.symm).symm
  | some a =>
    cases y with
    | none => exact absurd hf (by simp)
    | some b => exact congrArg some (hparts a b (Option.some.inj hf) (Option.some.inj hk))

/-- All that a grammar holds is given out by some accessor. -/
theorem AnswersAlike.eq {g g' : Grammar} (h : g.AnswersAlike g') : g = g' := by
  have hterm : g.terminals = g'.terminals := by
    refine List.ext_getElem? fun i => ?_
    refine option_eq_of_parts ?_ (h.termName? ⟨i⟩) (h.termPrec? ⟨i⟩)
    rintro ⟨name, prec⟩ ⟨name', prec'⟩ rfl rfl
    rfl
  have hnonterm : g.nonterminals = g'.nonterminals := by
    refine List.ext_getElem? fun i => ?_
    refine option_eq_of_parts ?_ (h.nontermName? ⟨i⟩) (h.nontermProds? ⟨i⟩)
    rintro ⟨name, prods⟩ ⟨name', prods'⟩ rfl rfl
    rfl
  have hprod : g.productions = g'.productions := by
    refine List.ext_getElem? fun i => ?_
    -- a production has three parts, of which the first two are taken as one
    have hbody : g.productions[i]?.map (fun p => (p.rule, p.symbols)) =
        g'.productions[i]?.map (fun p => (p.rule, p.symbols)) := by
      have hrule := h.prodRule? ⟨i⟩
      have hsymbols := h.prodSymbols? ⟨i⟩
      simp only [Grammar.prodRule?, Grammar.prodSymbols?, production?] at hrule hsymbols
      grind
    refine option_eq_of_parts ?_ hbody (h.prodPrec? ⟨i⟩)
    rintro ⟨rule, symbols, prec⟩ ⟨rule', symbols', prec'⟩ heq rfl
    obtain ⟨rfl, rfl⟩ := Prod.mk.inj heq
    rfl
  have hkind := h.kind
  have hstart := h.startProd
  have hend := h.endTerm
  have himplicit := h.implicitNonterm
  cases g
  cases g'
  subst hkind hnonterm hterm hprod hstart hend himplicit
  rfl

/-- **Grammars have the same tables exactly if they answer every question alike.** -/
theorem tables_eq_iff_answersAlike (g g' : Grammar) :
    g.tables = g'.tables ↔ g.AnswersAlike g' := by
  constructor
  · intro h
    obtain rfl := tables_injective h
    exact .refl g
  · intro h
    rw [h.eq]

end Grammar

end YaccTables
