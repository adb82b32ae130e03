import YaccTables.Proofs.CodePoints
import YaccTables.Proofs.Decimal
import YaccTables.Tables.Json

/-!
# Reading JSON

A reader of JSON text, apart from the writer: code points are cut into tokens, and tokens are put
together to a value by what is open around them. It takes blanks and line breaks wherever they may
stand, all escapes, surrogates in pairs, and numbers in any form that is an integer without an
exponent. What a value of tables cannot hold (null, fractions, exponents) it refuses.

The main statement is `JsonValue.ofText?_render`: a value that was written is read back, if its
texts are UTF-8. It is put together from what is true of every part of the text, whatever follows
it: `Spells` says which tokens it is cut into, `Yields` which value they make, and `Reads` both.
Only a number needs to know that the text behind it does not go on with it (`Bounded`).
-/

namespace YaccTables

/-! ## The reader -/

/-- The tokens of JSON text. -/
inductive JsonToken
  | openArray
  | closeArray
  | openObject
  | closeObject
  | colon
  | comma
  | bool (b : Bool)
  | number (n : Int)
  | text (cs : List Char)
  deriving DecidableEq, Repr

namespace JsonReader

def isBlank (c : Char) : Bool := c = ' ' || c = '\t' || c = '\n' || c = '\r'

/-- What a letter stands for behind a backslash. -/
def escape? : Char → Option Char
  | '"' => some '"'
  | '\\' => some '\\'
  | '/' => some '/'
  | 'b' => some '\x08'
  | 'f' => some '\x0c'
  | 'n' => some '\n'
  | 'r' => some '\r'
  | 't' => some '\t'
  | _ => none

def hexValue? (c : Char) : Option Nat :=
  if '0' ≤ c ∧ c ≤ '9' then some (c.toNat - 48)
  else if 'a' ≤ c ∧ c ≤ 'f' then some (c.toNat - 87)
  else if 'A' ≤ c ∧ c ≤ 'F' then some (c.toNat - 55)
  else none

/-- The number that four hexadecimal digits spell. -/
def unit? : List Char → Option Nat
  | a :: b :: c :: d :: _ => do
    let a ← hexValue? a
    let b ← hexValue? b
    let c ← hexValue? c
    let d ← hexValue? d
    some (((a * 16 + b) * 16 + c) * 16 + d)
  | _ => none

def isHighSurrogate (n : Nat) : Bool := 0xd800 ≤ n && n < 0xdc00

def isLowSurrogate (n : Nat) : Bool := 0xdc00 ≤ n && n < 0xe000

/-- The escape of a low surrogate, which follows that of a high one. -/
def lowSurrogate? : List Char → Option Nat
  | '\\' :: 'u' :: digits => do
    let n ← unit? digits
    if isLowSurrogate n then some n else none
  | _ => none

/-- One code point of a text, and how many characters beyond the first spell it. -/
def element? (c : Char) (rest : List Char) : Option (Char × Nat) :=
  if c = '\\' then
    match rest with
    | [] => none
    | e :: digits =>
      if e = 'u' then do
        let n ← unit? digits
        if isHighSurrogate n then
          let m ← lowSurrogate? (digits.drop 4)
          some (Char.ofNat (0x10000 + (n - 0xd800) * 0x400 + (m - 0xdc00)), 11)
        else if isLowSurrogate n then none
        else some (Char.ofNat n, 5)
      else (escape? e).map (·, 1)
  else if c.toNat < 0x20 then none
  else some (c, 0)

/-- The code points of a text behind its opening quote, after `pending` characters that belong to
what came before, and the number of characters through the closing quote. -/
def body? : (pending : Nat) → List Char → Option (List Char × Nat)
  | _, [] => none
  | pending + 1, _ :: rest => (body? pending rest).map fun (cs, n) => (cs, n + 1)
  | 0, c :: rest =>
    if c = '"' then some ([], 1)
    else do
      let (d, more) ← element? c rest
      let (ds, n) ← body? more rest
      some (d :: ds, n + 1)

/-- What goes on with a number, if not as an integer. -/
def isNumberPart (c : Char) : Bool := c.isDigit || c = '.' || c = 'e' || c = 'E'

/-- An unsigned number and how many digits it has. No zero leads, and no fraction or exponent
follows. -/
def natural? (cs : List Char) : Option (Nat × Nat) :=
  let digits := cs.takeWhile Char.isDigit
  if digits = [] ∨ (digits.head? = some '0' ∧ digits ≠ ['0'])
      ∨ (cs.drop digits.length).head?.any isNumberPart then none
  else some (Nat.ofDigitChars 10 digits 0, digits.length)

/-- A number, and how many characters it has beyond the first. -/
def number? (c : Char) (rest : List Char) : Option (Int × Nat) :=
  if c = '-' then (natural? rest).map fun (n, len) => (-(n : Int), len)
  else (natural? (c :: rest)).map fun (n, len) => ((n : Int), len - 1)

/-- The token that starts with a character, and how many characters it has beyond. -/
def token? (c : Char) (rest : List Char) : Option (JsonToken × Nat) :=
  if c = '[' then some (.openArray, 0)
  else if c = ']' then some (.closeArray, 0)
  else if c = '\x7b' then some (.openObject, 0)
  else if c = '\x7d' then some (.closeObject, 0)
  else if c = ':' then some (.colon, 0)
  else if c = ',' then some (.comma, 0)
  else if c = '"' then (body? 0 rest).map fun (cs, n) => (.text cs, n)
  else if "true".toList.isPrefixOf (c :: rest) then some (.bool true, 3)
  else if "false".toList.isPrefixOf (c :: rest) then some (.bool false, 4)
  else (number? c rest).map fun (n, more) => (.number n, more)

/-- The tokens of a text, after `pending` characters that belong to what came before. -/
def tokens? : (pending : Nat) → List Char → Option (List JsonToken)
  | _, [] => some []
  | pending + 1, _ :: rest => tokens? pending rest
  | 0, c :: rest =>
    if isBlank c then tokens? 0 rest
    else do
      let (t, more) ← token? c rest
      let ts ← tokens? more rest
      some (t :: ts)

/-- An array or object that is still open, with what was read of it. An object waits for the value
of a name. -/
inductive Frame
  | items (done : List JsonValue)
  | fields (done : List (String × JsonValue)) (name : String)

mutual

/-- Reads a value, and then what follows it, within what is open around it. -/
def readValue (around : List Frame) : List JsonToken → Option JsonValue
  | .bool b :: ts => readRest around (.bool b) ts
  | .number n :: ts => readRest around (.number n) ts
  | .text cs :: ts => readRest around (.text (Text.encode cs)) ts
  | .openArray :: .closeArray :: ts => readRest around (.array []) ts
  | .openArray :: ts => readValue (.items [] :: around) ts
  | .openObject :: .closeObject :: ts => readRest around (.object []) ts
  | .openObject :: .text name :: .colon :: ts =>
    readValue (.fields [] (String.ofList name) :: around) ts
  | _ => none

/-- What follows a value: the next one, or the end of what is open around it. -/
def readRest : List Frame → JsonValue → List JsonToken → Option JsonValue
  | [], v, [] => some v
  | .items done :: around, v, .comma :: ts => readValue (.items (done ++ [v]) :: around) ts
  | .items done :: around, v, .closeArray :: ts => readRest around (.array (done ++ [v])) ts
  | .fields done name :: around, v, .comma :: .text next :: .colon :: ts =>
    readValue (.fields (done ++ [(name, v)]) (String.ofList next) :: around) ts
  | .fields done name :: around, v, .closeObject :: ts =>
    readRest around (.object (done ++ [(name, v)])) ts
  | _, _, _ => none

end

end JsonReader

/-- The value of JSON text, which is UTF-8. -/
def JsonValue.ofText? (text : Bytes) : Option JsonValue := do
  let cs ← Text.scalars? text
  let ts ← JsonReader.tokens? 0 cs
  JsonReader.readValue [] ts

namespace JsonReader

open JsonValue

/-! ## From text to tokens -/

/-- What may follow a number. -/
def Bounded (rest : List Char) : Prop := ∀ c ∈ rest.head?, isNumberPart c = false

/-- A text is cut into these tokens, whatever follows it that does not go on with a number. -/
def Spells (text : Bytes) (ts : List JsonToken) : Prop :=
  ∃ cs, text = Text.encode cs ∧ ∀ rest, Bounded rest →
    tokens? 0 (cs ++ rest) = (tokens? 0 rest).map (ts ++ ·)

/-- The same of a text that anything may follow, and that puts an end to a number in front of it. -/
def Divides (text : Bytes) (ts : List JsonToken) : Prop :=
  ∃ cs, text = Text.encode cs ∧ ∀ rest, Bounded (cs ++ rest) ∧
    tokens? 0 (cs ++ rest) = (tokens? 0 rest).map (ts ++ ·)

/-- A text that begins with no part of a number bounds numbers. -/
theorem bounded_cons {c : Char} (h : isNumberPart c = false) (rest : List Char) :
    Bounded (c :: rest) := by
  intro d hd
  rwa [← Option.some.inj hd]

section Composition

variable {x y z : Bytes} {ts us vs : List JsonToken}

/-- What divides into tokens spells them. -/
theorem Divides.spells (h : Divides x ts) : Spells x ts := by
  obtain ⟨cs, hx, htokens⟩ := h
  exact ⟨cs, hx, fun rest _ => (htokens rest).2⟩

theorem map_append_append (ts us : List JsonToken) (o : Option (List JsonToken)) :
    (o.map (us ++ ·)).map (ts ++ ·) = o.map (ts ++ us ++ ·) := by
  rw [Option.map_map]
  refine congrArg (Option.map · o) (funext fun vs => ?_)
  exact (List.append_assoc ts us vs).symm

/-- Texts that divide into tokens can be put together. -/
theorem Divides.append (hx : Divides x ts) (hy : Divides y us) : Divides (x ++ y) (ts ++ us) := by
  obtain ⟨cs, rfl, hcs⟩ := hx
  obtain ⟨ds, rfl, hds⟩ := hy
  refine ⟨cs ++ ds, (Text.encode_append cs ds).symm, fun rest => ?_⟩
  rw [List.append_assoc]
  refine ⟨(hcs _).1, ?_⟩
  rw [(hcs _).2, (hds rest).2, map_append_append]

/-- A value between two marks, either of which keeps it apart from the rest. -/
theorem Divides.around (hx : Divides x ts) (hy : Spells y us) (hz : Divides z vs) :
    Divides (x ++ (y ++ z)) (ts ++ (us ++ vs)) := by
  obtain ⟨cs, rfl, hcs⟩ := hx
  obtain ⟨ds, rfl, hds⟩ := hy
  obtain ⟨es, rfl, hes⟩ := hz
  refine ⟨cs ++ (ds ++ es), by rw [Text.encode_append, Text.encode_append], fun rest => ?_⟩
  rw [List.append_assoc, List.append_assoc]
  refine ⟨(hcs _).1, ?_⟩
  rw [(hcs _).2, hds _ (hes rest).1, (hes rest).2, map_append_append, map_append_append,
    List.append_assoc]

/-- What divides into tokens can be put before what spells some. -/
theorem Divides.append_spells (hx : Divides x ts) (hy : Spells y us) :
    Spells (x ++ y) (ts ++ us) := by
  obtain ⟨cs, rfl, hcs⟩ := hx
  obtain ⟨ds, rfl, hds⟩ := hy
  refine ⟨cs ++ ds, (Text.encode_append cs ds).symm, fun rest hrest => ?_⟩
  rw [List.append_assoc, (hcs _).2, hds rest hrest, map_append_append]

end Composition

/-! ### Blanks, marks and words -/

/-- Characters of a token already read are passed over. -/
theorem tokens?_skip (cs rest : List Char) : tokens? cs.length (cs ++ rest) = tokens? 0 rest := by
  induction cs with
  | nil => rfl
  | cons c cs ih => exact ih

/-- A token is followed by the tokens of the rest. -/
theorem tokens?_token {c : Char} {cs rest : List Char} {t : JsonToken} (hc : isBlank c = false)
    (ht : token? c (cs ++ rest) = some (t, cs.length)) :
    tokens? 0 (c :: cs ++ rest) = (tokens? 0 rest).map ([t] ++ ·) := by
  rw [List.cons_append, tokens?, hc, if_neg Bool.false_ne_true, ht]
  show (tokens? cs.length (cs ++ rest)).bind _ = _
  rw [tokens?_skip]
  cases tokens? 0 rest <;> rfl

/-- A text that is one token, whatever comes behind it. -/
theorem divides_token (c : Char) (cs : List Char) {t : JsonToken} (hc : isBlank c = false)
    (hn : isNumberPart c = false) (ht : ∀ rest, token? c (cs ++ rest) = some (t, cs.length)) :
    Divides (Text.encode (c :: cs)) [t] :=
  ⟨c :: cs, rfl, fun rest => ⟨bounded_cons hn _, tokens?_token hc (ht rest)⟩⟩

/-- White space is no token. -/
theorem divides_blank (c : Char) (hc : isBlank c = true) (hn : isNumberPart c = false) :
    Divides (Text.encode [c]) [] := by
  refine ⟨[c], rfl, fun rest => ⟨bounded_cons hn _, ?_⟩⟩
  rw [List.singleton_append, tokens?, if_pos hc]
  cases tokens? 0 rest <;> rfl

theorem divides_openArray : Divides (utf8 "[") [.openArray] :=
  divides_token '[' [] rfl rfl fun _ => rfl

theorem divides_closeArray : Divides (utf8 "]") [.closeArray] :=
  divides_token ']' [] rfl rfl fun _ => rfl

theorem divides_openObject : Divides (utf8 "\x7b") [.openObject] :=
  divides_token '\x7b' [] rfl rfl fun _ => rfl

theorem divides_closeObject : Divides (utf8 "\x7d") [.closeObject] :=
  divides_token '\x7d' [] rfl rfl fun _ => rfl

theorem divides_comma : Divides (utf8 ",") [.comma] :=
  divides_token ',' [] rfl rfl fun _ => rfl

theorem divides_colon : Divides (utf8 ": ") [.colon] :=
  (divides_token ':' [] rfl rfl fun _ => rfl).append
    (divides_blank ' ' rfl rfl)

theorem divides_bool (b : Bool) : Divides (utf8 (if b then "true" else "false")) [.bool b] := by
  cases b with
  | true => exact divides_token 't' ['r', 'u', 'e'] rfl rfl fun _ => rfl
  | false => exact divides_token 'f' ['a', 'l', 's', 'e'] rfl rfl fun _ => rfl

/-- A line end with its indentation is no token. -/
theorem divides_newLine (depth : Nat) : Divides (newLine depth) [] := by
  have hblanks : ∀ n, Divides (lineFeed :: List.replicate n space) [] := by
    intro n
    induction n with
    | zero => exact divides_blank '\n' rfl rfl
    | succ n ih =>
      rw [List.replicate_succ', ← List.cons_append]
      exact ih.append (divides_blank ' ' rfl rfl)
  exact hblanks (2 * depth)

/-! ### Numbers -/

/-- No zero leads the digits of a number other than zero. -/
theorem head?_toDigits {n : Nat} (h : (Nat.toDigits 10 n).head? = some '0') : n = 0 := by
  induction n using Nat.strongRecOn with
  | ind n ih =>
    rcases Nat.lt_or_ge n 10 with hlt | hge
    · rw [Nat.toDigits_of_lt_base hlt] at h
      have hdigit : ∀ d < 10, Nat.digitChar d = '0' → d = 0 := by decide
      exact hdigit n hlt (Option.some.inj h)
    · rw [Nat.toDigits_of_base_le (by omega) hge,
        List.head?_append_of_ne_nil _ Nat.toDigits_ne_nil] at h
      have hzero : n / 10 = 0 := ih (n / 10) (by omega) h
      omega

/-- The digits of a number are read back as it. -/
theorem natural?_toDigits (n : Nat) {rest : List Char} (hrest : Bounded rest) :
    natural? (Nat.toDigits 10 n ++ rest) = some (n, (Nat.toDigits 10 n).length) := by
  have hdigits : (Nat.toDigits 10 n ++ rest).takeWhile Char.isDigit = Nat.toDigits 10 n := by
    refine takeWhile_run (fun c hc => Nat.isDigit_of_mem_toDigits (by omega) (by omega) hc) ?_
    intro c hc
    have hpart := hrest c hc
    simp only [isNumberPart, Bool.or_eq_false_iff] at hpart
    exact hpart.1.1.1
  have hzero : ¬ ((Nat.toDigits 10 n).head? = some '0' ∧ Nat.toDigits 10 n ≠ ['0']) := by
    rintro ⟨hhead, hne⟩
    rw [head?_toDigits hhead] at hne
    exact hne rfl
  have hend : ¬ (rest.head?.any isNumberPart = true) := by
    cases rest with
    | nil => exact Bool.false_ne_true
    | cons c rest =>
      rw [List.head?_cons, Option.any_some, hrest c rfl]
      exact Bool.false_ne_true
  rw [natural?, hdigits, List.drop_left, if_neg (by simp [Nat.toDigits_ne_nil, hend, hzero]),
    Nat.ofDigitChars_ten_toDigits]

/-- What a number starts with is neither a blank nor a mark nor the start of a word. -/
theorem ne_of_startsNumber {c d : Char} (hc : c.isDigit = true ∨ c = '-')
    (hd : (d.isDigit || d == '-') = false) : c ≠ d := by
  rintro rfl
  rcases hc with hc | rfl
  · rw [hc, Bool.true_or] at hd
    exact Bool.noConfusion hd
  · exact absurd hd (by decide)

/-- A digit or a sign starts a number. -/
theorem token?_number {c : Char} (hc : c.isDigit = true ∨ c = '-') (rest : List Char) :
    token? c rest = (number? c rest).map fun (n, more) => (.number n, more) := by
  have hne {d : Char} := ne_of_startsNumber (d := d) hc
  have hword : ∀ w ws, (w.isDigit || w == '-') = false →
      ¬ (List.isPrefixOf (w :: ws) (c :: rest) = true) := by
    intro w ws hw h
    rw [List.isPrefixOf_cons_cons, Bool.and_eq_true, beq_iff_eq] at h
    exact hne hw h.1.symm
  have htrue : ¬ ("true".toList.isPrefixOf (c :: rest) = true) := hword 't' ['r', 'u', 'e'] rfl
  have hfalse : ¬ ("false".toList.isPrefixOf (c :: rest) = true) :=
    hword 'f' ['a', 'l', 's', 'e'] rfl
  rw [token?, if_neg (hne rfl), if_neg (hne rfl), if_neg (hne rfl), if_neg (hne rfl),
    if_neg (hne rfl), if_neg (hne rfl), if_neg (hne rfl), if_neg htrue, if_neg hfalse]

theorem isBlank_of_startsNumber {c : Char} (hc : c.isDigit = true ∨ c = '-') :
    isBlank c = false := by
  have hne {d : Char} := ne_of_startsNumber (d := d) hc
  simp only [isBlank, Bool.or_eq_false_iff, decide_eq_false_iff_not]
  exact ⟨⟨⟨hne rfl, hne rfl⟩, hne rfl⟩, hne rfl⟩

/-- A number spells itself. -/
theorem spells_number (n : Int) : Spells (decimalInt n) [.number n] := by
  cases n with
  | ofNat n =>
    obtain ⟨c, cs, hdigits⟩ := List.exists_cons_of_ne_nil (Nat.toDigits_ne_nil (n := n) (b := 10))
    have hc : c.isDigit = true :=
      Nat.isDigit_of_mem_toDigits (by omega) (by omega) (hdigits ▸ List.mem_cons_self)
    refine ⟨c :: cs, by rw [← hdigits]; rfl, fun rest hrest => ?_⟩
    refine tokens?_token (isBlank_of_startsNumber (.inl hc)) ?_
    have hminus : c ≠ '-' := by
      rintro rfl
      exact absurd hc (by decide)
    have hnatural := natural?_toDigits n hrest
    rw [hdigits, List.cons_append] at hnatural
    rw [token?_number (.inl hc), number?, if_neg hminus, hnatural]
    rfl
  | negSucc n =>
    refine ⟨'-' :: Nat.toDigits 10 (n + 1), rfl, fun rest hrest => ?_⟩
    refine tokens?_token rfl ?_
    rw [token?_number (.inr rfl), number?, if_pos rfl, natural?_toDigits (n + 1) hrest]
    rfl

/-! ### Texts -/

/-- The character of a hexadecimal digit. -/
def hexChar (d : Nat) : Char := Char.ofNat (hexDigit d).toNat

/-- Hexadecimal digits are encoded as their bytes. -/
theorem utf8EncodeChar_hexChar : ∀ d < 16, String.utf8EncodeChar (hexChar d) = [hexDigit d] := by
  decide

theorem hexValue?_hexChar : ∀ d < 16, hexValue? (hexChar d) = some d := by decide

/-- The four digits of an escaped number are read back. -/
theorem exists_hexadecimal_eq {n : Nat} (hn : n < 0x10000) :
    ∃ ds, hexadecimal 4 n = Text.encode ds ∧ ds.length = 4 ∧
      ∀ rest, unit? (ds ++ rest) = some n := by
  have hlt (m : Nat) : m % 16 < 16 := Nat.mod_lt m (by decide)
  refine ⟨[hexChar (n / 16 / 16 / 16 % 16), hexChar (n / 16 / 16 % 16), hexChar (n / 16 % 16),
    hexChar (n % 16)], ?_, rfl, fun rest => ?_⟩
  · simp only [Text.encode, List.flatMap_cons, List.flatMap_nil,
      utf8EncodeChar_hexChar _ (hlt _)]
    rfl
  · rw [List.cons_append, List.cons_append, List.cons_append, List.cons_append, unit?]
    simp only [hexValue?_hexChar _ (hlt _)]
    refine congrArg some ?_
    omega

/-- Four hexadecimal digits behind a mark are one character. -/
theorem element?_unit {n : Nat} {ds : List Char} (hlen : ds.length = 4)
    (hds : ∀ rest, unit? (ds ++ rest) = some n) (hn : n < 0xd800 ∨ 0xdfff < n) (rest : List Char) :
    element? '\\' ('u' :: ds ++ rest) = some (Char.ofNat n, ('u' :: ds).length) := by
  have hhigh : ¬ (isHighSurrogate n = true) := by
    simp only [isHighSurrogate, Bool.and_eq_true, decide_eq_true_eq]
    omega
  have hlow : ¬ (isLowSurrogate n = true) := by
    simp only [isLowSurrogate, Bool.and_eq_true, decide_eq_true_eq]
    omega
  show (unit? (ds ++ rest)).bind _ = _
  rw [hds, Option.bind_some, if_neg hhigh, if_neg hlow, List.length_cons, hlen]

/-- Every code point is written so that it is read as an element of a text, and never as the quote
that ends it. -/
theorem exists_escapePiece_eq (c : Char) :
    ∃ d ds, escapePiece (.scalar c) = Text.encode (d :: ds) ∧ d ≠ '"' ∧
      ∀ rest, element? d (ds ++ rest) = some (c, ds.length) := by
  have hchar : ∀ {n : Nat}, c.toNat = n → c = Char.ofNat n := by
    rintro n rfl
    exact (Char.ofNat_toNat c).symm
  unfold escapePiece
  dsimp only
  split
  case h_1 h => exact ⟨'\\', ['"'], rfl, by decide, fun _ => by rw [hchar h]; rfl⟩
  case h_2 h => exact ⟨'\\', ['\\'], rfl, by decide, fun _ => by rw [hchar h]; rfl⟩
  case h_3 h => exact ⟨'\\', ['b'], rfl, by decide, fun _ => by rw [hchar h]; rfl⟩
  case h_4 h => exact ⟨'\\', ['f'], rfl, by decide, fun _ => by rw [hchar h]; rfl⟩
  case h_5 h => exact ⟨'\\', ['n'], rfl, by decide, fun _ => by rw [hchar h]; rfl⟩
  case h_6 h => exact ⟨'\\', ['r'], rfl, by decide, fun _ => by rw [hchar h]; rfl⟩
  case h_7 h => exact ⟨'\\', ['t'], rfl, by decide, fun _ => by rw [hchar h]; rfl⟩
  case h_8 hquote hbackslash _ _ _ _ _ =>
    split
    · -- a control character, one of `<`, `>`, `&` or a separator of lines
      rename_i hescaped
      simp only [Bool.or_eq_true, decide_eq_true_eq, beq_iff_eq] at hescaped
      obtain ⟨ds, hds, hlen, hunit⟩ := exists_hexadecimal_eq (n := c.toNat) (by omega)
      refine ⟨'\\', 'u' :: ds, ?_, by decide, fun rest => ?_⟩
      · rw [hds, Text.utf8_eq_encode, ← Text.encode_append]
        rfl
      · rw [element?_unit hlen hunit (by omega), ← hchar rfl]
    · rename_i hplain
      simp only [Bool.or_eq_true, decide_eq_true_eq, beq_iff_eq] at hplain
      have hne : c ≠ '"' := fun h => hquote (h ▸ rfl)
      have hslash : c ≠ '\\' := fun h => hbackslash (h ▸ rfl)
      refine ⟨c, [], by rw [Text.encode, List.flatMap_singleton], hne, fun rest => ?_⟩
      rw [element?.eq_def, if_neg hslash, if_neg (by omega)]
      rfl

/-- Characters already read count for the length and for nothing else. -/
theorem body?_skip (cs rest : List Char) :
    body? cs.length (cs ++ rest) = (body? 0 rest).map fun (ds, n) => (ds, n + cs.length) := by
  induction cs with
  | nil =>
    show body? 0 rest = _
    cases body? 0 rest <;> rfl
  | cons c cs ih =>
    show (body? cs.length (cs ++ rest)).map _ = _
    rw [ih]
    cases body? 0 rest <;> rfl

/-- The escapes of a text are read up to its closing quote. -/
theorem exists_escapes_eq (cs : List Char) :
    ∃ ds, (cs.map Text.Piece.scalar).flatMap escapePiece = Text.encode ds ∧
      ∀ rest, body? 0 (ds ++ '"' :: rest) = some (cs, ds.length + 1) := by
  induction cs with
  | nil => exact ⟨[], rfl, fun _ => rfl⟩
  | cons c cs ih =>
    obtain ⟨e, es, hescape, hquote, helement⟩ := exists_escapePiece_eq c
    obtain ⟨ds, hds, hbody⟩ := ih
    refine ⟨e :: es ++ ds, ?_, fun rest => ?_⟩
    · rw [List.map_cons, List.flatMap_cons, hescape, hds, Text.encode_append]
    · rw [List.append_assoc, List.cons_append, body?, if_neg hquote, helement]
      show (body? es.length (es ++ (ds ++ '"' :: rest))).bind _ = _
      rw [body?_skip, hbody]
      have hlength : (e :: es ++ ds).length = ds.length + 1 + es.length := by
        simp only [List.length_append, List.length_cons]
        omega
      rw [hlength]
      rfl

/-- A quoted text is one token, which holds its characters. -/
theorem divides_quoted (cs : List Char) : Divides (quoted (Text.encode cs)) [.text cs] := by
  obtain ⟨ds, hds, hbody⟩ := exists_escapes_eq cs
  have hpieces : Text.pieces (Text.encode cs) = cs.map .scalar := by
    have h := Text.pieces_encode cs []
    rwa [List.append_nil, Text.pieces, List.append_nil] at h
  have hquoted : quoted (Text.encode cs) = Text.encode ('"' :: (ds ++ ['"'])) := by
    rw [quoted, hpieces, hds]
    simp only [Text.utf8_eq_encode, ← Text.encode_append]
    rfl
  rw [hquoted]
  refine divides_token '"' _ rfl rfl fun rest => ?_
  have htoken : ∀ more, token? '"' more = (body? 0 more).map fun (cs, n) => (.text cs, n) :=
    fun _ => rfl
  rw [htoken, List.append_assoc, List.singleton_append, hbody, List.length_append]
  rfl

/-! ### Arrays and objects -/

section Enclosed

variable {texts : List Bytes} {tss : List (List JsonToken)} {opening closing : String}
  {o c : JsonToken}

/-- The tokens of written values, a comma between each two. -/
def separated (tss : List (List JsonToken)) : List JsonToken := [JsonToken.comma].intercalate tss

/-- Further items with a separator before each, up to the end. -/
theorem divides_further {sep close : Bytes} (hsep : Divides sep [.comma])
    (hclose : Divides close [c]) (h : List.Forall₂ Spells texts tss) :
    Divides (texts.flatMap (sep ++ ·) ++ close) (tss.flatMap ([.comma] ++ ·) ++ [c]) := by
  induction h with
  | nil => exact hclose
  | @cons text ts texts tss htext _ ih =>
    have hmore := hsep.around htext ih
    rwa [List.flatMap_cons, List.flatMap_cons, List.append_assoc, List.append_assoc,
      List.append_assoc, List.append_assoc]

/-- Items between brackets with separators between them. -/
theorem divides_enclosed (depth : Nat) (hopen : Divides (utf8 opening) [o])
    (hclose : Divides (utf8 closing) [c]) (h : List.Forall₂ Spells texts tss) :
    Divides (enclosed opening closing depth texts) ([o] ++ (separated tss ++ [c])) := by
  cases h with
  | nil => exact hopen.append hclose
  | @cons text ts texts tss htext hfurther =>
    have hsep := divides_comma.append (divides_newLine (depth + 1))
    have hend := (divides_newLine depth).append hclose
    have hitems := (hopen.append (divides_newLine (depth + 1))).around htext
      (divides_further hsep hend hfurther)
    rw [enclosed, List.isEmpty_cons, if_neg Bool.false_ne_true, separated, intercalate_cons,
      intercalate_cons]
    simpa only [List.append_assoc, List.append_nil, List.nil_append] using hitems

end Enclosed

/-! ## From tokens to values -/

/-- Tokens are read as a value, whatever is open around it and whatever follows. -/
structure Yields (ts : List JsonToken) (v : JsonValue) : Prop where
  head : ∃ t us, ts = t :: us ∧ t ≠ .closeArray
  read : ∀ around rest, readValue around (ts ++ rest) = readRest around v rest

/-- Tokens are read as a field of an object. -/
def YieldsField (ts : List JsonToken) (field : String × JsonValue) : Prop :=
  ∃ us, ts = .text field.1.toList :: .colon :: us ∧ Yields us field.2

/-- A truth value yields itself. -/
theorem yields_bool (b : Bool) : Yields [.bool b] (.bool b) :=
  ⟨⟨_, _, rfl, by simp⟩, fun _ _ => by rw [List.singleton_append, readValue]⟩

/-- A number yields itself. -/
theorem yields_number (n : Int) : Yields [.number n] (.number n) :=
  ⟨⟨_, _, rfl, by simp⟩, fun _ _ => by rw [List.singleton_append, readValue]⟩

/-- A text yields its characters in UTF-8. -/
theorem yields_text (cs : List Char) : Yields [.text cs] (.text (Text.encode cs)) :=
  ⟨⟨_, _, rfl, by simp⟩, fun _ _ => by rw [List.singleton_append, readValue]⟩

/-- Items are read up to the end of their array. -/
theorem readRest_items {tss : List (List JsonToken)} {vs : List JsonValue}
    (h : List.Forall₂ Yields tss vs) (around : List Frame) (done : List JsonValue) (v : JsonValue)
    (rest : List JsonToken) :
    readRest (.items done :: around) v (tss.flatMap ([.comma] ++ ·) ++ ([.closeArray] ++ rest)) =
      readRest around (.array (done ++ v :: vs)) rest := by
  induction h generalizing done v with
  | nil => rw [List.flatMap_nil, List.nil_append, List.singleton_append, readRest]
  | @cons ts w tss vs hts _ ih =>
    rw [List.flatMap_cons, List.append_assoc, List.append_assoc, List.singleton_append, readRest,
      hts.read, ih, List.append_assoc, List.singleton_append]

/-- Tokens of an array yield the array of what its items yield. -/
theorem yields_array {tss : List (List JsonToken)} {vs : List JsonValue}
    (h : List.Forall₂ Yields tss vs) :
    Yields ([.openArray] ++ (separated tss ++ [.closeArray])) (.array vs) := by
  refine ⟨⟨_, _, rfl, by simp⟩, fun around rest => ?_⟩
  cases h with
  | nil =>
    show readValue around (.openArray :: .closeArray :: rest) = _
    rw [readValue]
  | @cons ts v tss vs hts htss =>
    obtain ⟨t, us, rfl, ht⟩ := hts.head
    -- the array does not end at once, since no value starts with its closing bracket
    have hitem : ∀ more, readValue around (.openArray :: t :: more) =
        readValue (.items [] :: around) (t :: more) := by
      intro more
      rw [readValue]
      intro ts hts
      exact ht (List.cons.inj hts).1
    rw [separated, intercalate_cons, List.append_assoc, List.append_assoc, List.append_assoc,
      List.singleton_append, List.cons_append, hitem, ← List.cons_append, hts.read,
      readRest_items htss, List.nil_append]

/-- Fields are read up to the end of their object. -/
theorem readRest_fields {tss : List (List JsonToken)} {fields : List (String × JsonValue)}
    (h : List.Forall₂ YieldsField tss fields) (around : List Frame)
    (done : List (String × JsonValue)) (name : String) (v : JsonValue) (rest : List JsonToken) :
    readRest (.fields done name :: around) v
        (tss.flatMap ([.comma] ++ ·) ++ ([.closeObject] ++ rest)) =
      readRest around (.object (done ++ (name, v) :: fields)) rest := by
  induction h generalizing done name v with
  | nil => rw [List.flatMap_nil, List.nil_append, List.singleton_append, readRest]
  | @cons ts field tss fields hfield _ ih =>
    obtain ⟨us, rfl, hus⟩ := hfield
    rw [List.flatMap_cons, List.append_assoc, List.append_assoc, List.singleton_append,
      List.cons_append, List.cons_append, readRest, String.ofList_toList, hus.read, ih,
      List.append_assoc, List.singleton_append]

/-- Tokens of an object yield the object of what its fields yield. -/
theorem yields_object {tss : List (List JsonToken)} {fields : List (String × JsonValue)}
    (h : List.Forall₂ YieldsField tss fields) :
    Yields ([.openObject] ++ (separated tss ++ [.closeObject])) (.object fields) := by
  refine ⟨⟨_, _, rfl, by simp⟩, fun around rest => ?_⟩
  cases h with
  | nil =>
    show readValue around (.openObject :: .closeObject :: rest) = _
    rw [readValue]
  | @cons ts field tss fields hfield htss =>
    obtain ⟨us, rfl, hus⟩ := hfield
    rw [separated, intercalate_cons, List.append_assoc, List.append_assoc, List.append_assoc,
      List.singleton_append, List.cons_append, List.cons_append, readValue, String.ofList_toList,
      hus.read, readRest_fields htss, List.nil_append]

/-! ## Values that were written -/

/-- All texts of a value are UTF-8. -/
inductive Encoded : JsonValue → Prop
  | bool (b : Bool) : Encoded (.bool b)
  | number (n : Int) : Encoded (.number n)
  | text (cs : List Char) : Encoded (.text (Text.encode cs))
  | array {items : List JsonValue} (h : ∀ v ∈ items, Encoded v) : Encoded (.array items)
  | object {fields : List (String × JsonValue)} (h : ∀ f ∈ fields, Encoded f.2) :
    Encoded (.object fields)

/-- A text is cut into tokens that are read as a value. -/
def Reads (text : Bytes) (v : JsonValue) : Prop := ∃ ts, Spells text ts ∧ Yields ts v

/-- Witnesses for each member of a list can be collected in a list. -/
theorem exists_forall₂ {α β γ : Type} {R : α → β → Prop} {S : β → γ → Prop} {f : γ → α}
    {cs : List γ} (h : ∀ c ∈ cs, ∃ b, R (f c) b ∧ S b c) :
    ∃ bs, List.Forall₂ R (cs.map f) bs ∧ List.Forall₂ S bs cs := by
  induction cs with
  | nil => exact ⟨[], .nil, .nil⟩
  | cons c cs ih =>
    obtain ⟨b, hR, hS⟩ := h c List.mem_cons_self
    obtain ⟨bs, hRs, hSs⟩ := ih fun d hd => h d (List.mem_cons_of_mem c hd)
    exact ⟨b :: bs, .cons hR hRs, .cons hS hSs⟩

theorem renderItems_eq_map (depth : Nat) (items : List JsonValue) :
    renderItems depth items = items.map (render depth) := by
  induction items with
  | nil => rw [renderItems, List.map_nil]
  | cons v items ih => rw [renderItems, ih, List.map_cons]

/-- The text of a field. -/
def renderField (depth : Nat) (field : String × JsonValue) : Bytes :=
  quoted (utf8 field.1) ++ utf8 ": " ++ render depth field.2

theorem renderFields_eq_map (depth : Nat) (fields : List (String × JsonValue)) :
    renderFields depth fields = fields.map (renderField depth) := by
  induction fields with
  | nil => rw [renderFields, List.map_nil]
  | cons f fields ih => rw [renderFields, ih, List.map_cons, renderField]

/-- A field is read back if its value is. -/
theorem Reads.field {depth : Nat} {field : String × JsonValue}
    (h : Reads (render depth field.2) field.2) :
    ∃ ts, Spells (renderField depth field) ts ∧ YieldsField ts field := by
  obtain ⟨ts, hspells, hyields⟩ := h
  have hname := (divides_quoted field.1.toList).append divides_colon
  exact ⟨_, hname.append_spells hspells, ts, rfl, hyields⟩

/-- What is written of a value is read back as it. -/
theorem reads_render {v : JsonValue} (hv : Encoded v) (depth : Nat) : Reads (render depth v) v := by
  induction hv generalizing depth with
  | bool b =>
    rw [render]
    exact ⟨_, (divides_bool b).spells, yields_bool b⟩
  | number n =>
    rw [render]
    exact ⟨_, spells_number n, yields_number n⟩
  | text cs =>
    rw [render]
    exact ⟨_, (divides_quoted cs).spells, yields_text cs⟩
  | array _ ih =>
    rw [render, renderItems_eq_map]
    obtain ⟨tss, hspells, hyields⟩ := exists_forall₂ fun v hv => ih v hv (depth + 1)
    have htext := divides_enclosed depth divides_openArray divides_closeArray hspells
    exact ⟨_, htext.spells, yields_array hyields⟩
  | object _ ih =>
    rw [render, renderFields_eq_map]
    obtain ⟨tss, hspells, hyields⟩ := exists_forall₂ fun f hf => (ih f hf (depth + 1)).field
    have htext := divides_enclosed depth divides_openObject divides_closeObject hspells
    exact ⟨_, htext.spells, yields_object hyields⟩

end JsonReader

open JsonReader in
/-- **A value that was written is read back**, if its texts are UTF-8. -/
theorem JsonValue.ofText?_render {v : JsonValue} (hv : Encoded v) :
    ofText? (v.render 0 ++ [lineFeed]) = some v := by
  obtain ⟨ts, ⟨cs, hcs, htokens⟩, hyields⟩ := reads_render hv 0
  have hscalars : Text.scalars? (v.render 0 ++ [lineFeed]) = some (cs ++ ['\n']) := by
    rw [Text.scalars?_eq_some_iff, Text.encode_append, hcs]
    rfl
  have htext : tokens? 0 (cs ++ ['\n']) = some ts := by
    have hlast : tokens? 0 ['\n'] = some [] := rfl
    rw [htokens _ (bounded_cons rfl []), hlast, Option.map_some, List.append_nil]
  have hread : readValue [] ts = some v := by
    have h := hyields.read [] []
    rwa [List.append_nil, readRest] at h
  rw [ofText?, hscalars]
  show (tokens? 0 (cs ++ ['\n'])).bind _ = _
  rw [htext]
  exact hread

end YaccTables
