import Mathlib.Data.List.Infix
import YaccTables.Proofs.Decimal
import YaccTables.Tables.Fingerprint

/-!
# Reading the canonical form back

The text whose digest is the fingerprint has no escapes, so it can be read back only if its texts
keep out of the way of its punctuation (`Tables.Legible`). Then it determines the tables
(`Tables.canonicalForm_inj`).

All parts are shown to be readable in one sense (`Readable`): if the written forms of two values,
each followed by a delimiter and anything else, give the same bytes, then the values are equal and
so is what follows them. Numbers end at the delimiter, quoted texts at their quote, lists and
records by the brackets around them. Names of terminals are the exception, since they can hold any
quote but their own: a name of a terminal ends where the text between a name and a precedence
begins, which the name must not contain (`append_gap_inj`).
-/

namespace YaccTables.Tables

/-- The quote around texts. -/
def quote : UInt8 := ascii '"'

/-- What follows a value within the canonical form: nothing, or something that starts with a comma
or a closing bracket of either sort. -/
def Delimited (rest : Bytes) : Prop :=
  ∀ b ∈ rest.head?, b = ascii ',' ∨ b = ascii ']' ∨ b = ascii '\x7d'

/-- Values that satisfy `P` can be told from each other and from what follows them. -/
def Readable {α : Type} (P : α → Prop) (form : α → Bytes) : Prop :=
  ∀ ⦃x y : α⦄ ⦃r s : Bytes⦄, P x → P y → Delimited r → Delimited s →
    form x ++ r = form y ++ s → x = y ∧ r = s

section Punctuation

/-- A comma ends a number. -/
theorem delimited_comma (rest : Bytes) : Delimited (utf8 "," ++ rest) := by
  intro b hb
  exact .inl (Option.some.inj hb).symm

/-- A closing bracket ends a number. -/
theorem delimited_bracket (rest : Bytes) : Delimited (utf8 "]" ++ rest) := by
  intro b hb
  exact .inr (.inl (Option.some.inj hb).symm)

/-- A closing brace ends a number. -/
theorem delimited_brace (rest : Bytes) : Delimited (utf8 "\x7d" ++ rest) := by
  intro b hb
  exact .inr (.inr (Option.some.inj hb).symm)

/-- A text that ends a number begins with no digit. -/
theorem Delimited.isDecimal {rest : Bytes} (h : Delimited rest) :
    ∀ b ∈ rest.head?, isDecimal b = false := by
  intro b hb
  rcases h b hb with rfl | rfl | rfl <;> decide

end Punctuation

/-! ## Numbers, texts and flags -/

/-- A number can be read off the front of a text. -/
theorem readable_decimal : Readable (fun _ => True) decimal :=
  fun _ _ _ _ _ _ hr hs h => decimal_append_inj hr.isDecimal hs.isDecimal h

/-- A number with its sign can be read off the front of a text. -/
theorem readable_decimalInt : Readable (fun _ => True) decimalInt :=
  fun _ _ _ _ _ _ hr hs h => decimalInt_append_inj hr.isDecimal hs.isDecimal h

/-- A flag can be read off the front of a text. -/
theorem readable_flag : Readable (fun _ => True) fun b : Bool => utf8 (if b then "t" else "f") := by
  intro x y r s _ _ _ _ h
  cases x <;> cases y
  · exact ⟨rfl, (List.cons.inj h).2⟩
  · exact absurd (List.cons.inj h).1 (by decide)
  · exact absurd (List.cons.inj h).1 (by decide)
  · exact ⟨rfl, (List.cons.inj h).2⟩

/-- Texts without quotes end with the first quote. -/
theorem append_quote_inj {x y r s : Bytes} (hx : quote ∉ x) (hy : quote ∉ y)
    (h : x ++ quote :: r = y ++ quote :: s) : x = y ∧ r = s := by
  -- both texts are what stands before the first quote
  have hclass : ∀ {z : Bytes}, quote ∉ z → ∀ b ∈ z, (b != quote) = true := by
    intro z hz b hb
    rw [bne_iff_ne]
    rintro rfl
    exact hz hb
  have hquote : ∀ t : Bytes, ∀ b ∈ (quote :: t).head?, (b != quote) = false := by simp
  obtain ⟨hxy, hrest⟩ := run_append_inj (hclass hx) (hclass hy) (hquote r) (hquote s) h
  exact ⟨hxy, (List.cons.inj hrest).2⟩

theorem bareText_append (x r : Bytes) : bareText x ++ r = quote :: (x ++ quote :: r) := by
  rw [bareText, List.append_assoc, List.append_assoc]
  rfl

/-- A text between quotes can be read off if it holds none. -/
theorem readable_bareText : Readable (quote ∉ ·) bareText := by
  intro x y r s hx hy _ _ h
  rw [bareText_append, bareText_append] at h
  exact append_quote_inj hx hy (List.cons.inj h).2

/-! ## Lists -/

section Lists

variable {α : Type} {P : α → Prop} {form : α → Bytes}

/-- The entries of a list after the first one, through the closing bracket. -/
def furtherItems (items : List Bytes) : Bytes := items.flatMap (utf8 "," ++ ·) ++ utf8 "]"

theorem bracketed_nil : bracketed [] = utf8 "[" ++ utf8 "]" := rfl

theorem bracketed_cons (item : Bytes) (items : List Bytes) :
    bracketed (item :: items) = utf8 "[" ++ (item ++ furtherItems items) := by
  rw [bracketed, furtherItems, intercalate_cons, List.append_assoc, List.append_assoc]

/-- What comes behind an item ends a number. -/
theorem delimited_furtherItems (items : List Bytes) (rest : Bytes) :
    Delimited (furtherItems items ++ rest) := by
  cases items with
  | nil => exact delimited_bracket rest
  | cons item items =>
    rw [furtherItems, List.flatMap_cons, List.append_assoc, List.append_assoc, List.append_assoc]
    exact delimited_comma _

/-- Items can be read off one by one if each of them can. -/
theorem readable_furtherItems (hform : Readable P form) :
    Readable (fun xs => ∀ x ∈ xs, P x) fun xs : List α => furtherItems (xs.map form) := by
  intro xs
  induction xs with
  | nil =>
    intro ys r s _ _ _ _ h
    cases ys with
    | nil => exact ⟨rfl, List.append_cancel_left h⟩
    | cons y ys => exact absurd (List.cons.inj h).1 (by decide)
  | cons x xs ih =>
    intro ys r s hxs hys hr hs h
    cases ys with
    | nil => exact absurd (List.cons.inj h).1 (by decide)
    | cons y ys =>
      have hopen : ∀ (z : α) (zs : List α) (t : Bytes), furtherItems ((z :: zs).map form) ++ t =
          utf8 "," ++ (form z ++ (furtherItems (zs.map form) ++ t)) := by
        intro z zs t
        simp only [furtherItems, List.map_cons, List.flatMap_cons, List.append_assoc]
      simp only [hopen] at h
      obtain ⟨rfl, hmore⟩ := hform (hxs x List.mem_cons_self) (hys y List.mem_cons_self)
        (delimited_furtherItems _ r) (delimited_furtherItems _ s) (List.append_cancel_left h)
      obtain ⟨rfl, hrest⟩ := ih (fun z hz => hxs z (List.mem_cons_of_mem _ hz))
        (fun z hz => hys z (List.mem_cons_of_mem _ hz)) hr hs hmore
      exact ⟨rfl, hrest⟩

/-- A list is readable if its entries are and none of them can be taken for the closing bracket. -/
theorem readable_bracketed (hform : Readable P form)
    (hopen : ∀ x r, (form x ++ r).head? ≠ some (ascii ']')) :
    Readable (fun xs => ∀ x ∈ xs, P x) fun xs : List α => bracketed (xs.map form) := by
  intro xs ys r s hxs hys hr hs h
  cases xs with
  | nil =>
    cases ys with
    | nil => exact ⟨rfl, List.append_cancel_left h⟩
    | cons y ys =>
      simp only [List.map_nil, List.map_cons, bracketed_nil, bracketed_cons, List.append_assoc] at h
      have hhead := congrArg List.head? (List.append_cancel_left h)
      exact absurd hhead.symm (hopen y _)
  | cons x xs =>
    cases ys with
    | nil =>
      simp only [List.map_nil, List.map_cons, bracketed_nil, bracketed_cons, List.append_assoc] at h
      have hhead := congrArg List.head? (List.append_cancel_left h)
      exact absurd hhead (hopen x _)
    | cons y ys =>
      simp only [List.map_cons, bracketed_cons, List.append_assoc] at h
      obtain ⟨rfl, hmore⟩ := hform (hxs x List.mem_cons_self) (hys y List.mem_cons_self)
        (delimited_furtherItems _ r) (delimited_furtherItems _ s) (List.append_cancel_left h)
      obtain ⟨rfl, hrest⟩ := readable_furtherItems hform
        (fun z hz => hxs z (List.mem_cons_of_mem _ hz))
        (fun z hz => hys z (List.mem_cons_of_mem _ hz)) hr hs hmore
      exact ⟨rfl, hrest⟩

end Lists

/-! ## Records -/

section Records

variable {α : Type} {P : α → Prop} {form : α → Bytes} {x y : α} {r s : Bytes} {name : String}
  {fields fields' : List (String × Bytes)}

/-- The fields of a record after the first one, through the closing brace. -/
def furtherFields (fields : List (String × Bytes)) : Bytes :=
  fields.flatMap (fun (name, value) => utf8 "," ++ (utf8 name ++ utf8 ":" ++ value)) ++ utf8 "\x7d"

theorem braced_cons (value : Bytes) :
    braced ((name, value) :: fields) =
      utf8 "\x7b" ++ (utf8 name ++ utf8 ":" ++ (value ++ furtherFields fields)) := by
  rw [braced, List.map_cons, intercalate_cons, furtherFields, List.flatMap_map]
  simp only [List.append_assoc]

theorem furtherFields_cons (value : Bytes) :
    furtherFields ((name, value) :: fields) =
      utf8 "," ++ (utf8 name ++ utf8 ":" ++ (value ++ furtherFields fields)) := by
  rw [furtherFields, furtherFields, List.flatMap_cons]
  simp only [List.append_assoc]

/-- What comes behind a field ends a number. -/
theorem delimited_furtherFields (fields : List (String × Bytes)) (rest : Bytes) :
    Delimited (furtherFields fields ++ rest) := by
  cases fields with
  | nil => exact delimited_brace rest
  | cons field fields =>
    rw [furtherFields_cons, List.append_assoc]
    exact delimited_comma _

/-- The first field of a record is read, and what is left are the further ones. -/
theorem braced_inj (hform : Readable P form) (hx : P x) (hy : P y)
    (h : braced ((name, form x) :: fields) ++ r = braced ((name, form y) :: fields') ++ s) :
    x = y ∧ furtherFields fields ++ r = furtherFields fields' ++ s := by
  simp only [braced_cons, List.append_assoc] at h
  have hvalue := List.append_cancel_left (List.append_cancel_left (List.append_cancel_left h))
  exact hform hx hy (delimited_furtherFields _ _) (delimited_furtherFields _ _) hvalue

/-- Fields of the same name can be read off one by one. -/
theorem furtherFields_inj (hform : Readable P form) (hx : P x) (hy : P y)
    (h : furtherFields ((name, form x) :: fields) ++ r =
      furtherFields ((name, form y) :: fields') ++ s) :
    x = y ∧ furtherFields fields ++ r = furtherFields fields' ++ s := by
  simp only [furtherFields_cons, List.append_assoc] at h
  have hvalue := List.append_cancel_left (List.append_cancel_left (List.append_cancel_left h))
  exact hform hx hy (delimited_furtherFields _ _) (delimited_furtherFields _ _) hvalue

/-- Nothing is read off where there are no more fields. -/
theorem furtherFields_nil_inj (h : furtherFields [] ++ r = furtherFields [] ++ s) : r = s :=
  List.append_cancel_left h

/-- A record does not begin like the end of a list. -/
theorem head?_braced (fields : List (String × Bytes)) (rest : Bytes) :
    (braced fields ++ rest).head? ≠ some (ascii ']') := by
  rw [braced, List.append_assoc, List.append_assoc]
  exact fun h => absurd (Option.some.inj h) (by decide)

end Records

/-! ## Symbols, nonterminals and productions -/

/-- A symbol can be read off the front of a text. -/
theorem readable_symbolForm : Readable (fun _ => True) symbolForm := by
  rintro ⟨xt, xi⟩ ⟨yt, yi⟩ r s - - - - h
  obtain ⟨rfl, hterm⟩ := braced_inj (x := xi) (y := yi) readable_decimal trivial trivial h
  obtain ⟨rfl, hrest⟩ := furtherFields_inj (x := xt) (y := yt) readable_flag trivial trivial hterm
  exact ⟨rfl, furtherFields_nil_inj hrest⟩

/-- A number does not begin like the end of a list. -/
theorem head?_decimal_append (n : Nat) (rest : Bytes) :
    (decimal n ++ rest).head? ≠ some (ascii ']') := by
  obtain ⟨b, digits, hd, hb⟩ := exists_decimal_eq_cons n
  rw [hd]
  intro h
  rw [Option.some.inj h] at hb
  exact absurd hb (by decide)

/-- A list of numbers can be read off the front of a text. -/
theorem readable_indices :
    Readable (fun _ => True) fun indices : List Nat => bracketed (indices.map decimal) :=
  fun _ _ _ _ _ _ => readable_bracketed readable_decimal head?_decimal_append (fun _ _ => trivial)
    fun _ _ => trivial

/-- The symbols of a production can be read off the front of a text. -/
theorem readable_symbols :
    Readable (fun _ => True) fun symbols : List SymbolEntry => bracketed (symbols.map symbolForm) :=
  fun _ _ _ _ _ _ => readable_bracketed readable_symbolForm (fun _ => head?_braced _)
    (fun _ _ => trivial) fun _ _ => trivial

/-- A nonterminal can be read off if its name holds no quote. -/
theorem readable_nontermForm : Readable (fun n => quote ∉ n.name) nontermForm := by
  rintro ⟨xn, xp⟩ ⟨yn, yp⟩ r s hx hy - - h
  obtain ⟨rfl, hprods⟩ := braced_inj (x := xn) (y := yn) readable_bareText hx hy h
  obtain ⟨rfl, hrest⟩ := furtherFields_inj (x := xp) (y := yp) readable_indices trivial trivial
    hprods
  exact ⟨rfl, furtherFields_nil_inj hrest⟩

/-- A production can be read off if its precedence holds no quote. -/
theorem readable_prodForm : Readable (fun p => quote ∉ p.prec) prodForm := by
  rintro ⟨xr, xs, xp⟩ ⟨yr, ys, yp⟩ r s hx hy - - h
  obtain ⟨rfl, hrule⟩ := braced_inj (x := xp) (y := yp) readable_bareText hx hy h
  obtain ⟨rfl, hsymbols⟩ := furtherFields_inj (x := xr) (y := yr) readable_decimal trivial trivial
    hrule
  obtain ⟨rfl, hrest⟩ := furtherFields_inj (x := xs) (y := ys) readable_symbols trivial trivial
    hsymbols
  exact ⟨rfl, furtherFields_nil_inj hrest⟩

/-! ## Terminals -/

/-- What stands between the name of a terminal and its precedence, with a quote at either end. -/
def nameGap : Bytes := utf8 "\",Prec:\""

theorem termForm_append (t : TermEntry) (r : Bytes) :
    termForm t ++ r =
      utf8 "\x7bName:\"" ++ (t.name ++ (nameGap ++ (t.prec ++ quote :: (utf8 "\x7d" ++ r)))) := by
  rw [termForm, braced_cons, furtherFields_cons, bareText, bareText]
  simp only [List.append_assoc]
  rfl

/-- Two gaps that stand in one text at different places either do not overlap or share a quote. In
the first case the gap is part of the longer name, in the second a comma follows the first gap. -/
theorem nameGap_overlap {name d x y : Bytes} (hname : ¬ nameGap <:+: name ++ d)
    (hx : x.head? ≠ some (ascii ',')) (h : nameGap ++ x = d ++ (nameGap ++ y)) : d = [] := by
  have hlen : nameGap.length = 8 := by decide
  by_cases hlong : nameGap.length ≤ d.length
  · have hgap : nameGap <+: nameGap ++ x := List.prefix_append nameGap x
    have hd : d <+: nameGap ++ x := h ▸ List.prefix_append d _
    have hinside : nameGap <+: d := List.prefix_of_prefix_length_le hgap hd hlong
    exact absurd (hinside.isInfix.trans (List.suffix_append name d).isInfix) hname
  · -- where the second gap begins, the first one has a quote: at its beginning or at its end
    have hquote : nameGap[d.length]? = some quote := by
      have hbyte := congrArg (fun text => text[d.length]?) h
      simp only [List.getElem?_append_left (show d.length < nameGap.length by omega),
        List.getElem?_append_right (Nat.le_refl d.length), Nat.sub_self] at hbyte
      exact hbyte
    have hplace : ∀ k < 8, nameGap[k]? = some quote → k = 0 ∨ k = 7 := by decide
    rcases hplace d.length (by omega) hquote with hzero | hseven
    · exact List.length_eq_zero_iff.mp hzero
    · have hbyte := congrArg (fun text => text[8]?) h
      simp only [List.getElem?_append_right (show nameGap.length ≤ 8 by omega),
        List.getElem?_append_right (show d.length ≤ 8 by omega), hlen, hseven] at hbyte
      rw [← List.head?_eq_getElem?] at hbyte
      exact absurd hbyte hx

/-- Names without the gap end with the first gap, if what comes behind it cannot be taken for part
of one. -/
theorem append_gap_inj {m n x y : Bytes} (hm : ¬ nameGap <:+: m) (hn : ¬ nameGap <:+: n)
    (hx : x.head? ≠ some (ascii ',')) (hy : y.head? ≠ some (ascii ','))
    (h : m ++ (nameGap ++ x) = n ++ (nameGap ++ y)) : m = n ∧ x = y := by
  have hmn : m = n := by
    rcases List.append_eq_append_iff.mp h with ⟨d, rfl, hrest⟩ | ⟨d, rfl, hrest⟩
    · rw [nameGap_overlap hn hx hrest, List.append_nil]
    · rw [nameGap_overlap hm hy hrest, List.append_nil]
  subst hmn
  exact ⟨rfl, List.append_cancel_left (List.append_cancel_left h)⟩

/-- The texts of a terminal keep out of the way of the punctuation. -/
structure LegibleTerm (t : TermEntry) : Prop where
  name : ¬ nameGap <:+: t.name
  prec : quote ∉ t.prec
  head : t.prec.head? ≠ some (ascii ',')

/-- A precedence does not begin like a further field. -/
theorem LegibleTerm.head_append {t : TermEntry} (ht : LegibleTerm t) (r : Bytes) :
    (t.prec ++ quote :: r).head? ≠ some (ascii ',') := by
  cases hp : t.prec with
  | nil => exact fun h => absurd (Option.some.inj h) (by decide)
  | cons b rest =>
    have hhead := ht.head
    rw [hp] at hhead
    exact hhead

/-- A legible terminal can be read off the front of a text. -/
theorem readable_termForm : Readable LegibleTerm termForm := by
  rintro ⟨xn, xp⟩ ⟨yn, yp⟩ r s hx hy - - h
  rw [termForm_append, termForm_append] at h
  obtain ⟨rfl, hprec⟩ := append_gap_inj (m := xn) (n := yn) hx.name hy.name (hx.head_append _)
    (hy.head_append _) (List.append_cancel_left h)
  obtain ⟨rfl, hrest⟩ := append_quote_inj (x := xp) (y := yp) hx.prec hy.prec hprec
  exact ⟨rfl, List.append_cancel_left hrest⟩

/-! ## Tables -/

/-- The texts of the tables keep out of the way of the punctuation. -/
structure Legible (t : Tables) : Prop where
  kind : quote ∉ t.kind
  nonterminals : ∀ n ∈ t.nonterminals, quote ∉ n.name
  productions : ∀ p ∈ t.productions, quote ∉ p.prec
  terminals : ∀ e ∈ t.terminals, LegibleTerm e

/-- **The canonical form determines the tables**, if their texts are legible. -/
theorem canonicalForm_inj {t u : Tables} (ht : t.Legible) (hu : u.Legible)
    (h : t.canonicalForm = u.canonicalForm) : t = u := by
  obtain ⟨tk, tn, tt, tp, ts, te, ti⟩ := t
  obtain ⟨uk, un, ut, up, us, ue, ui⟩ := u
  have hform := congrArg (· ++ []) h
  obtain ⟨rfl, himplicit⟩ := braced_inj (x := te) (y := ue) readable_decimal trivial trivial hform
  obtain ⟨rfl, hkind⟩ := furtherFields_inj (x := ti) (y := ui) readable_decimalInt trivial trivial
    himplicit
  obtain ⟨rfl, hnonterms⟩ := furtherFields_inj (x := tk) (y := uk) readable_bareText ht.kind hu.kind
    hkind
  obtain ⟨rfl, hprods⟩ := furtherFields_inj (x := tn) (y := un)
    (readable_bracketed readable_nontermForm fun _ => head?_braced _) ht.nonterminals
    hu.nonterminals hnonterms
  obtain ⟨rfl, hstart⟩ := furtherFields_inj (x := tp) (y := up)
    (readable_bracketed readable_prodForm fun _ => head?_braced _) ht.productions hu.productions
    hprods
  obtain ⟨rfl, hterms⟩ := furtherFields_inj (x := ts) (y := us) readable_decimal trivial trivial
    hstart
  obtain ⟨rfl, -⟩ := furtherFields_inj (x := tt) (y := ut)
    (readable_bracketed readable_termForm fun _ => head?_braced _) ht.terminals hu.terminals hterms
  rfl

end YaccTables.Tables
