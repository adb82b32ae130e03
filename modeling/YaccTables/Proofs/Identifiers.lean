import Mathlib.Data.List.Nodup
import Mathlib.Data.List.Perm.Basic
import YaccTables.Listing.Template
import YaccTables.Proofs.Decimal
import YaccTables.Proofs.Numbering

/-!
# Identifiers of a generated file

A generated file declares some names in any case and one identifier for each terminal, nonterminal
and production. The main result is `Listing.ofGrammar_declaresApart`: whatever bytes the names of a
grammar are made of, no identifier is declared twice, and each of them is a letter followed by
letters, digits and underscores.

* `IdentTable.ident_notMem`: an identifier that is given out is not among those given out before,
  nor among the names of the file. Underscores are added to it until it is free, and one of the
  candidates is, since they all have different lengths.
* `IdentTable.ident_eq`: it is the stem followed by at least one more byte. So the three stems keep
  the terminals, the nonterminals and the productions apart.
* `WritesWords`: of camel case it only matters that it is written in letters and digits
  (`Listing.ofGrammarWith_declaresApart`).
* `prodIdent_notMem_reserved`: productions are numbered without a look at the names of the file,
  and none of these has a digit where the number begins.
-/

namespace YaccTables

/-! ## Identifiers -/

/-- What an identifier may go on with: a letter, a digit or an underscore. -/
def isIdentPart (b : UInt8) : Bool := isAlpha b || isDecimal b || b == ascii '_'

/-- A letter, then letters, digits and underscores. -/
def IsIdentifier : Bytes → Prop
  | [] => False
  | first :: rest => isAlpha first = true ∧ ∀ b ∈ rest, isIdentPart b = true

instance (text : Bytes) : Decidable (IsIdentifier text) :=
  match text with
  | [] => isFalse id
  | first :: rest =>
    inferInstanceAs (Decidable (isAlpha first = true ∧ ∀ b ∈ rest, isIdentPart b = true))

/-- An identifier may go on with letters, digits and underscores. -/
theorem IsIdentifier.append {stem word : Bytes} (hs : IsIdentifier stem)
    (hw : ∀ b ∈ word, isIdentPart b = true) : IsIdentifier (stem ++ word) := by
  cases stem with
  | nil => exact hs.elim
  | cons first rest =>
    refine ⟨hs.1, ?_⟩
    intro b hb
    rcases List.mem_append.mp hb with hb | hb
    · exact hs.2 b hb
    · exact hw b hb

/-! ## The part of an identifier that comes from a name -/

/-- What is known of camel case: it is written in letters and digits. -/
def WritesWords (camel : Bytes → Bytes) : Prop :=
  ∀ text, ∀ b ∈ camel text, isAlpha b = true ∨ isDecimal b = true

theorem isAlpha_upperByte {b : UInt8} (h : isAlpha b = true) : isAlpha (upperByte b) = true := by
  unfold upperByte
  split
  · rename_i hlower
    have hup : isUpper (b - 32) = true := by
      simp only [isLower, isUpper, Bool.and_eq_true, decide_eq_true_eq, UInt8.le_iff_toNat_le]
        at hlower ⊢
      obtain ⟨hlo, hhi⟩ := hlower
      have ha : (ascii 'a').toNat = 97 := by decide
      have hz : (ascii 'z').toNat = 122 := by decide
      have hA : (ascii 'A').toNat = 65 := by decide
      have hZ : (ascii 'Z').toNat = 90 := by decide
      have hsub : (b - 32).toNat = b.toNat - 32 := by
        refine UInt8.toNat_sub_of_le b 32 ?_
        rw [UInt8.le_iff_toNat_le]
        show 32 ≤ b.toNat
        omega
      omega
    simp [isAlpha, hup]
  · exact h

/-- Of a text in camel case only letters and digits are left. -/
theorem isAlpha_or_isDecimal_of_mem_camelWords {atStart : Bool} {text : Bytes} {b : UInt8}
    (h : b ∈ camelWords atStart text) : isAlpha b = true ∨ isDecimal b = true := by
  fun_induction camelWords atStart text with
  | case1 => simp at h
  | case2 atStart c rest hc ih =>
    rcases List.mem_cons.mp h with rfl | h
    · have halpha : isAlpha (if atStart = true then upperByte c else c) = true := by
        split
        · exact isAlpha_upperByte hc
        · exact hc
      exact .inl halpha
    · exact ih h
  | case3 atStart c rest hc hd ih =>
    rcases List.mem_cons.mp h with rfl | h
    · exact .inr hd
    · exact ih h
  | case4 atStart c rest hc hd ih => exact ih h

/-- Camel case is written in letters and digits. -/
theorem writesWords_camelCase : WritesWords camelCase :=
  fun _ _ => isAlpha_or_isDecimal_of_mem_camelWords

/-- The word of a name may stand in an identifier. -/
theorem WritesWords.isIdentPart {camel : Bytes → Bytes} (h : WritesWords camel) {name : Name}
    {b : UInt8} (hb : b ∈ identWordWith camel name) : isIdentPart b = true := by
  rcases h _ b hb with hb | hb
  · simp [YaccTables.isIdentPart, hb]
  · simp [YaccTables.isIdentPart, hb]

theorem isIdentPart_of_mem_decimal {n : Nat} {b : UInt8} (h : b ∈ decimal n) :
    isIdentPart b = true := by
  simp [isIdentPart, isDecimal_of_mem_decimal h]

/-! ## Identifiers given out one after the other -/

namespace IdentTable

/-- The search stops at the first candidate that is free, or at the last one. -/
theorem untakenWithin_eq (taken : List Bytes) (limit : Nat) (text : Bytes) :
    ∃ n ≤ limit, untakenWithin taken limit text = text ++ List.replicate n (ascii '_') ∧
      (∀ m < n, text ++ List.replicate m (ascii '_') ∈ taken) ∧
      (n < limit → untakenWithin taken limit text ∉ taken) := by
  induction limit generalizing text with
  | zero => exact ⟨0, Nat.le_refl 0, by simp [untakenWithin], by simp, by simp⟩
  | succ limit ih =>
    rw [untakenWithin]
    by_cases htext : text ∈ taken
    · rw [if_pos (by simpa using htext)]
      obtain ⟨n, hn, heq, hbefore, hfree⟩ := ih (text ++ [ascii '_'])
      -- one underscore more in front of those that the rest of the search adds
      have hshift : ∀ m, text ++ [ascii '_'] ++ List.replicate m (ascii '_')
          = text ++ List.replicate (m + 1) (ascii '_') := by
        intro m
        rw [List.append_assoc, List.replicate_succ, List.singleton_append]
      refine ⟨n + 1, Nat.succ_le_succ hn, by rw [heq, hshift], ?_, fun h => hfree (by omega)⟩
      intro m hm
      cases m with
      | zero => simpa using htext
      | succ m => exact hshift m ▸ hbefore m (by omega)
    · rw [if_neg (by simpa using htext)]
      exact ⟨0, Nat.zero_le _, by simp, by simp, fun _ => htext⟩

theorem underscored_injective (text : Bytes) :
    Function.Injective fun n => text ++ List.replicate n (ascii '_') := by
  intro m n h
  have hlen := congrArg List.length h
  simpa using hlen

/-- Only underscores are added. -/
theorem untaken_eq (taken : List Bytes) (text : Bytes) :
    ∃ n, untaken taken text = text ++ List.replicate n (ascii '_') := by
  obtain ⟨n, -, heq, -⟩ := untakenWithin_eq taken (taken.length + 1) text
  exact ⟨n, heq⟩

/-- The search for a free text ends with one. -/
theorem untaken_notMem (taken : List Bytes) (text : Bytes) : untaken taken text ∉ taken := by
  obtain ⟨n, -, -, hbefore, hfree⟩ := untakenWithin_eq taken (taken.length + 1) text
  obtain ⟨m, hm, hnot⟩ := exists_notMem_of_injective (underscored_injective text) taken
  refine hfree ?_
  by_contra hn
  exact hnot (hbefore m (by omega))

/-- An identifier is not taken. -/
theorem ident_notMem (t : IdentTable) (index : Int) (name : Name) :
    t.ident index name ∉ t.taken := untaken_notMem t.taken _

/-- What comes behind the stem is made of letters, digits and underscores if camel case is made of
letters and digits. -/
theorem ident_eq (t : IdentTable) (index : Nat) (name : Name) :
    ∃ word, word ≠ [] ∧ (WritesWords t.camel → ∀ b ∈ word, isIdentPart b = true) ∧
      t.ident index name = t.stem ++ word := by
  -- a name with a letter or a digit gives the word, any other its number
  have htext : ∃ word, word ≠ [] ∧ (WritesWords t.camel → ∀ b ∈ word, isIdentPart b = true) ∧
      (if t.stem ++ identWordWith t.camel name = t.stem ∨
          t.taken.contains (t.stem ++ identWordWith t.camel name) then
        t.stem ++ decimalInt index else t.stem ++ identWordWith t.camel name)
        = t.stem ++ word := by
    split
    · exact ⟨decimal index, decimal_ne_nil index, fun _ _ => isIdentPart_of_mem_decimal, rfl⟩
    · rename_i hnamed
      refine ⟨identWordWith t.camel name, ?_, fun hcamel _ => hcamel.isIdentPart, rfl⟩
      intro hnil
      exact hnamed (.inl (by rw [hnil, List.append_nil]))
  obtain ⟨word, hne, hparts, hword⟩ := htext
  obtain ⟨n, hn⟩ := untaken_eq t.taken (t.stem ++ word)
  refine ⟨word ++ List.replicate n (ascii '_'), by simp [hne], ?_, ?_⟩
  · intro hcamel b hb
    rcases List.mem_append.mp hb with hb | hb
    · exact hparts hcamel b hb
    · rw [List.eq_of_mem_replicate hb]
      decide
  · rw [ident]
    simp only [hword]
    rw [hn, List.append_assoc]

@[simp]
theorem length_assign (t : IdentTable) (entries : List (Int × Name)) :
    (t.assign entries).length = entries.length := by
  induction entries generalizing t with
  | nil => rfl
  | cons entry rest ih => rw [assign, List.length_cons, ih, List.length_cons]

/-- The identifiers that are given out are not taken and differ from each other. -/
theorem assign_nodup (t : IdentTable) (entries : List (Int × Name)) :
    (t.assign entries).Nodup ∧ ∀ id ∈ t.assign entries, id ∉ t.taken := by
  induction entries generalizing t with
  | nil => simp [assign]
  | cons entry rest ih =>
    -- whoever comes later finds the identifier at hand among those taken
    obtain ⟨hnd, hfree⟩ := ih { t with taken := t.ident entry.1 entry.2 :: t.taken }
    rw [assign]
    refine ⟨List.nodup_cons.mpr ⟨fun hmem => hfree _ hmem List.mem_cons_self, hnd⟩, ?_⟩
    intro id hid
    rcases List.mem_cons.mp hid with rfl | hid
    · exact t.ident_notMem entry.1 entry.2
    · exact fun hmem => hfree id hid (List.mem_cons_of_mem _ hmem)

/-- What is given out is the stem with something behind it. -/
theorem mem_assign_eq {t : IdentTable} {entries : List (Int × Name)}
    (hidx : ∀ entry ∈ entries, 0 ≤ entry.1) {id : Bytes} (h : id ∈ t.assign entries) :
    ∃ word, word ≠ [] ∧ (WritesWords t.camel → ∀ b ∈ word, isIdentPart b = true) ∧
      id = t.stem ++ word := by
  induction entries generalizing t with
  | nil => simp [assign] at h
  | cons entry rest ih =>
    rw [assign] at h
    rcases List.mem_cons.mp h with rfl | h
    · obtain ⟨index, hindex⟩ := Int.eq_ofNat_of_zero_le (hidx entry List.mem_cons_self)
      rw [hindex]
      exact t.ident_eq index entry.2
    · have hrest := ih (fun e he => hidx e (List.mem_cons_of_mem entry he)) h
      exact hrest

end IdentTable

/-! ## The identifiers of a listing -/

namespace Listing

section Families

variable {camel : Bytes → Bytes} {stem : String} {names : List Name} {id : Bytes}

theorem length_idents (camel : Bytes → Bytes) (stem : String) (names : List Name) :
    (idents camel stem names).length = names.length := by
  rw [idents, IdentTable.length_assign, List.length_map, List.length_zipIdx]

/-- The identifiers of a family are different. -/
theorem idents_nodup (camel : Bytes → Bytes) (stem : String) (names : List Name) :
    (idents camel stem names).Nodup :=
  (IdentTable.assign_nodup _ _).1

-- a number that another name is made of, a name of the file, and two names with one word
example : idents camelCase "Term" (["1", "+", "Names", "EXPR", "Expr"].map utf8)
    = ["Term1", "Term1_", "Term2", "TermExpr", "Term4"].map utf8 := by decide +kernel

/-- Identifiers keep clear of the names of the file. -/
theorem notMem_reserved_of_mem_idents (h : id ∈ idents camel stem names) : id ∉ reserved :=
  (IdentTable.assign_nodup _ _).2 id h

/-- An identifier of a family is its stem with something behind it. -/
theorem mem_idents_eq (h : id ∈ idents camel stem names) :
    ∃ word, word ≠ [] ∧ (WritesWords camel → ∀ b ∈ word, isIdentPart b = true) ∧
      id = utf8 stem ++ word := by
  refine IdentTable.mem_assign_eq ?_ h
  intro entry hentry
  obtain ⟨⟨name, i⟩, -, rfl⟩ := List.mem_map.mp hentry
  exact Int.natCast_nonneg i

/-- Identifiers are well-formed if camel case is written in letters and digits. -/
theorem isIdentifier_of_mem_idents (hcamel : WritesWords camel) (hs : IsIdentifier (utf8 stem))
    (h : id ∈ idents camel stem names) : IsIdentifier id := by
  obtain ⟨word, -, hparts, rfl⟩ := mem_idents_eq h
  exact hs.append (hparts hcamel)

/-- An identifier begins like its stem. -/
theorem head?_of_mem_idents {b : UInt8} (hb : (utf8 stem).head? = some b)
    (h : id ∈ idents camel stem names) : id.head? = some b := by
  obtain ⟨word, -, -, rfl⟩ := mem_idents_eq h
  rw [List.head?_append, hb, Option.some_or]

end Families

/-- Different productions have different identifiers. -/
theorem prodIdent_injective : Function.Injective prodIdent := by
  intro i j h
  exact decimal_injective (List.append_cancel_left h)

/-- The identifier of a production is well-formed. -/
theorem isIdentifier_prodIdent (i : Nat) : IsIdentifier (prodIdent i) :=
  IsIdentifier.append (by decide +kernel) fun _ => isIdentPart_of_mem_decimal

theorem head?_prodIdent (i : Nat) : (prodIdent i).head? = some (ascii 'P') := rfl

/-- No name of the file is the identifier of a production. -/
theorem prodIdent_notMem_reserved (i : Nat) : prodIdent i ∉ reserved := by
  have hreserved : ∀ name ∈ reserved, ∀ b ∈ (name.drop 4).head?, isDecimal b = false := by
    decide +kernel
  have hdrop : (prodIdent i).drop 4 = decimal i := rfl
  obtain ⟨b, rest, hd, hb⟩ := exists_decimal_eq_cons i
  intro hmem
  have hnot := hreserved _ hmem b (by rw [hdrop, hd]; rfl)
  exact absurd hb (by rw [hnot]; decide)

/-- The types that a generated file declares. -/
def typeNames : List Bytes := ["Term", "NonTerm", "Prod", "Symbol", "Production"].map utf8

/-- The tables that a generated file declares. -/
def tableNames : List Bytes := ["TermNames", "TermPrecs", "NonTermNames", "Productions"].map utf8

/-- The identifiers that a generated file declares, in the order of its lines. -/
def declared (l : Listing) : List Bytes :=
  typeNames ++ l.identityPairs.map Prod.fst ++ l.termConstants.map Constant.ident
    ++ l.nontermConstants.map Constant.ident ++ l.prodConstants.map Constant.ident
    ++ (l.boundaryPairs ++ l.implicitPairs).map Prod.fst ++ tableNames

/-- What is declared are the names of the file and the listed identifiers. -/
theorem declared_perm (l : Listing) :
    l.declared.Perm (reserved ++ (l.terms.map ListedSymbol.ident
      ++ (l.nonterms.map ListedSymbol.ident ++ l.prods.map ListedProd.ident))) := by
  have hterms : l.termConstants.map Constant.ident = l.terms.map ListedSymbol.ident := by
    rw [termConstants, List.map_map]
    rfl
  have hnonterms : l.nontermConstants.map Constant.ident = l.nonterms.map ListedSymbol.ident := by
    rw [nontermConstants, List.map_map]
    rfl
  have hprods : l.prodConstants.map Constant.ident = l.prods.map ListedProd.ident := by
    rw [prodConstants, List.map_map, show Constant.ident ∘ _ = ListedProd.ident ∘ Prod.fst from rfl,
      ← List.map_map, List.zipIdx_map_fst]
  have himplicit : l.implicitPairs.map Prod.fst = ["ImplicitNonTerm", "HasImplicit"].map utf8 := by
    unfold implicitPairs
    cases l.implicitNonterm <;> rfl
  have hfixed : (typeNames ++ l.identityPairs.map Prod.fst
      ++ ((l.boundaryPairs ++ l.implicitPairs).map Prod.fst ++ tableNames)).Perm reserved := by
    rw [List.map_append, himplicit]
    show List.Perm (["Term", "NonTerm", "Prod", "Symbol", "Production", "Kind", "Fingerprint",
      "StartProd", "EndTerm", "ImplicitNonTerm", "HasImplicit", "TermNames", "TermPrecs",
      "NonTermNames", "Productions"].map utf8) reserved
    exact List.Perm.map utf8 (by decide)
  -- the identifiers of symbols and productions stand between two parts of the fixed ones
  have hshape : l.declared = typeNames ++ l.identityPairs.map Prod.fst
      ++ (l.terms.map ListedSymbol.ident ++ (l.nonterms.map ListedSymbol.ident
        ++ l.prods.map ListedProd.ident)
      ++ ((l.boundaryPairs ++ l.implicitPairs).map Prod.fst ++ tableNames)) := by
    rw [declared, hterms, hnonterms, hprods]
    simp only [List.append_assoc]
  rw [hshape]
  refine (List.perm_append_comm.append_left _).trans ?_
  rw [← List.append_assoc]
  exact hfixed.append_right _

/-- Terminals and nonterminals are listed in one way: each with its identifier, name and number. -/
theorem map_listedSymbols {α : Type} (name : α → Name) (prec : α → Bytes)
    (camel : Bytes → Bytes) (stem : String) (xs : List α) :
    let listed : List ListedSymbol := (xs.zip (idents camel stem (xs.map name))).zipIdx.map
      fun ((x, ident), index) => { ident, name := name x, index, prec := prec x }
    listed.map ListedSymbol.ident = idents camel stem (xs.map name) ∧
      listed.map ListedSymbol.name = xs.map name := by
  intro listed
  have hlen : (idents camel stem (xs.map name)).length = xs.length := by
    rw [length_idents, List.length_map]
  constructor
  · calc
      listed.map ListedSymbol.ident
          = ((xs.zip (idents camel stem (xs.map name))).zipIdx.map Prod.fst).map Prod.snd := by
        rw [List.map_map, List.map_map]
        rfl
      _ = idents camel stem (xs.map name) := by
        rw [List.zipIdx_map_fst, List.map_snd_zip (Nat.le_of_eq hlen)]
  · calc
      listed.map ListedSymbol.name
          = (((xs.zip (idents camel stem (xs.map name))).zipIdx.map Prod.fst).map
              Prod.fst).map name := by
        rw [List.map_map, List.map_map, List.map_map]
        rfl
      _ = xs.map name := by
        rw [List.zipIdx_map_fst, List.map_fst_zip (Nat.le_of_eq hlen.symm)]

section OfGrammar

variable (sp : Spelling) (g : Grammar) (package commandLine : Bytes)

/-- The names of the file and the identifiers of a grammar, sort by sort. -/
def allIdents : List Bytes :=
  reserved ++ (idents sp.camel "Term" (g.terminals.map Terminal.name)
    ++ (idents sp.camel "NonTerm" (g.nonterminals.map Nonterminal.name)
      ++ (List.range g.productions.length).map prodIdent))

/-- Productions are listed with the identifiers of their numbers. -/
theorem prods_ofGrammarWith :
    (ofGrammarWith sp g package commandLine).prods.map ListedProd.ident
      = (List.range g.productions.length).map prodIdent := by
  rw [List.range_eq_range', ← List.zipIdx_map_snd 0 g.productions, List.map_map]
  simp only [ofGrammarWith, List.map_map]
  rfl

/-- What the listing of a grammar declares are its identifiers, sort by sort. -/
theorem declared_perm_allIdents :
    (ofGrammarWith sp g package commandLine).declared.Perm (allIdents sp g) := by
  have hterms := (map_listedSymbols Terminal.name (fun t => Precedence.textOf t.prec) sp.camel
    "Term" g.terminals).1
  have hnonterms := (map_listedSymbols Nonterminal.name (fun _ => []) sp.camel "NonTerm"
    g.nonterminals).1
  rw [allIdents, ← hterms, ← hnonterms, ← prods_ofGrammarWith sp g package commandLine]
  exact declared_perm _

/-- The identifiers of all sorts are different, whatever camel case is. -/
theorem allIdents_nodup : (allIdents sp g).Nodup := by
  have hreserved : reserved.Nodup := by decide
  have hprods : ((List.range g.productions.length).map prodIdent).Nodup :=
    List.nodup_range.map prodIdent_injective
  -- the first byte tells the three sorts apart
  have hnonterms : (idents sp.camel "NonTerm" (g.nonterminals.map Nonterminal.name)).Disjoint
      ((List.range g.productions.length).map prodIdent) := by
    intro id hn hp
    obtain ⟨i, -, rfl⟩ := List.mem_map.mp hp
    have hhead := head?_of_mem_idents (b := ascii 'N') rfl hn
    rw [head?_prodIdent] at hhead
    exact absurd hhead (by decide)
  have hterms : (idents sp.camel "Term" (g.terminals.map Terminal.name)).Disjoint
      (idents sp.camel "NonTerm" (g.nonterminals.map Nonterminal.name)
        ++ (List.range g.productions.length).map prodIdent) := by
    intro id ht hother
    have hhead := head?_of_mem_idents (b := ascii 'T') rfl ht
    rcases List.mem_append.mp hother with hn | hp
    · rw [head?_of_mem_idents (b := ascii 'N') rfl hn] at hhead
      exact absurd hhead (by decide)
    · obtain ⟨i, -, rfl⟩ := List.mem_map.mp hp
      rw [head?_prodIdent] at hhead
      exact absurd hhead (by decide)
  refine hreserved.append ((idents_nodup _ _ _).append
    ((idents_nodup _ _ _).append hprods hnonterms) hterms) ?_
  intro id hr hother
  rcases List.mem_append.mp hother with ht | hother
  · exact notMem_reserved_of_mem_idents ht hr
  rcases List.mem_append.mp hother with hn | hp
  · exact notMem_reserved_of_mem_idents hn hr
  · obtain ⟨i, -, rfl⟩ := List.mem_map.mp hp
    exact prodIdent_notMem_reserved i hr

/-- The identifiers of all sorts are well-formed. -/
theorem isIdentifier_of_mem_allIdents (hcamel : WritesWords sp.camel) {id : Bytes}
    (h : id ∈ allIdents sp g) : IsIdentifier id := by
  have hreserved : ∀ name ∈ reserved, IsIdentifier name := by decide +kernel
  rcases List.mem_append.mp h with hr | h
  · exact hreserved id hr
  rcases List.mem_append.mp h with ht | h
  · exact isIdentifier_of_mem_idents hcamel (by decide +kernel) ht
  rcases List.mem_append.mp h with hn | hp
  · exact isIdentifier_of_mem_idents hcamel (by decide +kernel) hn
  · obtain ⟨i, -, rfl⟩ := List.mem_map.mp hp
    exact isIdentifier_prodIdent i

/-- What a listing declares for a grammar: the names of the file and one identifier for each
terminal, nonterminal and production, all of them different. -/
structure DeclaresApart (l : Listing) : Prop where
  nodup : l.declared.Nodup
  identifier : ∀ id ∈ l.declared, IsIdentifier id
  perm : l.declared.Perm (reserved ++ (l.terms.map ListedSymbol.ident
    ++ (l.nonterms.map ListedSymbol.ident ++ l.prods.map ListedProd.ident)))
  terms : l.terms.map ListedSymbol.name = g.terminals.map Terminal.name
  nonterms : l.nonterms.map ListedSymbol.name = g.nonterminals.map Nonterminal.name
  prods : l.prods.length = g.productions.length

/-- No identifier is declared twice, however camel case is written in letters and digits. -/
theorem ofGrammarWith_declaresApart (hcamel : WritesWords sp.camel) :
    DeclaresApart g (ofGrammarWith sp g package commandLine) where
  nodup := (declared_perm_allIdents sp g package commandLine).nodup_iff.mpr (allIdents_nodup sp g)
  identifier := fun _ hid => isIdentifier_of_mem_allIdents sp g hcamel
    ((declared_perm_allIdents sp g package commandLine).mem_iff.mp hid)
  perm := declared_perm _
  terms := (map_listedSymbols Terminal.name (fun t => Precedence.textOf t.prec) sp.camel "Term"
    g.terminals).2
  nonterms := (map_listedSymbols Nonterminal.name (fun _ => []) sp.camel "NonTerm"
    g.nonterminals).2
  prods := by simp [ofGrammarWith]

/-- **No identifier is declared twice**, whatever the names of the grammar look like. -/
theorem ofGrammar_declaresApart : DeclaresApart g (ofGrammar g package commandLine) :=
  ofGrammarWith_declaresApart .standard g package commandLine writesWords_camelCase

end OfGrammar

end Listing

end YaccTables
