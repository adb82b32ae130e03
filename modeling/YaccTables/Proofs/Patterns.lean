import Mathlib.Computability.RegularExpressions
import YaccTables.Token.Stream

/-!
# The patterns of grammar text

Tokens and gaps are given by eleven regular expressions over bytes, `Scan.patterns`, apart from the
scanner. This module says of each which texts it matches, in the words of the scanner's character
classes (`mem_blanks_iff` and so on); the next one compares the two.

Most patterns are runs of a class between fixed bytes, and `Pattern.MatchesClass` gets those out of
the way. The one that is not is the block comment, whose expression has to say without a complement
that no `*/` stands inside. `mem_blockComment_iff` says that it succeeds: what follows `/*` is
exactly a text that ends with its first `*/` (`EndsComment`).
-/

namespace YaccTables

namespace Scan

/-- A regular expression over bytes. -/
abbrev Pattern := RegularExpression UInt8

/-- A fact about all bytes is a fact about 256 numbers. -/
theorem forall_byte {P : UInt8 → Prop} (h : ∀ n : Fin 256, P (UInt8.ofFin n)) (b : UInt8) : P b :=
  h b.toFin

namespace Pattern

/-! ## Building blocks -/

/-- One byte of a list. -/
def oneOf (bytes : List UInt8) : Pattern := bytes.foldr (fun b r => .char b + r) 0

/-- One byte with a property. -/
def byteWith (p : UInt8 → Bool) : Pattern :=
  oneOf (((List.range 256).map UInt8.ofNat).filter p)

/-- One byte of some ranges of characters: `[a-z…]`. -/
def within (ranges : List (Char × Char)) : Pattern :=
  byteWith fun b => ranges.any fun range => ascii range.1 ≤ b && b ≤ ascii range.2

/-- One byte that is none of some: `[^…]`. -/
def except (bytes : List UInt8) : Pattern := byteWith fun b => !bytes.contains b

/-- The bytes of a text in order. -/
def literal (text : Bytes) : Pattern := text.foldr (fun b r => .char b * r) 1

/-- One or more times. -/
def oneOrMore (r : Pattern) : Pattern := r * r.star

/-- The pattern matches the single bytes of a class. -/
def MatchesClass (r : Pattern) (p : UInt8 → Bool) : Prop :=
  ∀ w, w ∈ r.matches' ↔ ∃ b, p b = true ∧ w = [b]

/-- A byte as a class of its own. -/
theorem matchesClass_char (b : UInt8) : MatchesClass (.char b) (· == b) := by
  intro w
  rw [RegularExpression.matches'_char]
  refine Set.mem_singleton_iff.trans ?_
  simp

/-- One of several bytes. -/
theorem mem_oneOf_iff {bytes : List UInt8} {w : Bytes} :
    w ∈ (oneOf bytes).matches' ↔ ∃ b ∈ bytes, w = [b] := by
  induction bytes with
  | nil => simp [oneOf]
  | cons b bytes ih =>
    have hsplit : (oneOf (b :: bytes)).matches'
        = (RegularExpression.char b).matches' + (oneOf bytes).matches' := rfl
    rw [hsplit, Language.mem_add, ih, matchesClass_char]
    simp

/-- A class of bytes by what holds of them. -/
theorem matchesClass_byteWith (p : UInt8 → Bool) : MatchesClass (byteWith p) p := by
  intro w
  rw [byteWith, mem_oneOf_iff]
  constructor
  · rintro ⟨b, hb, rfl⟩
    exact ⟨b, (List.mem_filter.mp hb).2, rfl⟩
  · rintro ⟨b, hb, rfl⟩
    have hrange : b ∈ (List.range 256).map UInt8.ofNat :=
      List.mem_map.mpr ⟨b.toNat, List.mem_range.mpr b.toNat_lt, UInt8.ofNat_toNat⟩
    exact ⟨b, List.mem_filter.mpr ⟨hrange, hb⟩, rfl⟩

namespace MatchesClass

variable {r r' : Pattern} {p p' : UInt8 → Bool}

/-- Classes of the same bytes match the same. -/
theorem congr (h : MatchesClass r p) (hp : ∀ b, p b = p' b) : MatchesClass r p' := by
  intro w
  rw [h w]
  simp only [hp]

/-- Either of two classes. -/
theorem add (h : MatchesClass r p) (h' : MatchesClass r' p') :
    MatchesClass (r + r') fun b => p b || p' b := by
  intro w
  rw [RegularExpression.matches'_add, Language.mem_add, h w, h' w]
  simp only [Bool.or_eq_true, or_and_right, exists_or]

/-- Any number of bytes of a class. -/
theorem mem_star_iff (h : MatchesClass r p) {w : Bytes} :
    w ∈ r.star.matches' ↔ ∀ b ∈ w, p b = true := by
  rw [RegularExpression.matches'_star, Language.mem_kstar]
  constructor
  · rintro ⟨parts, rfl, hparts⟩ b hb
    obtain ⟨part, hpart, hb⟩ := List.mem_flatten.mp hb
    obtain ⟨c, hc, rfl⟩ := (h part).mp (hparts part hpart)
    rwa [List.mem_singleton.mp hb]
  · intro hw
    refine ⟨w.map fun b => [b], by rw [← List.flatMap_def, List.flatMap_singleton'], ?_⟩
    intro part hpart
    obtain ⟨b, hb, rfl⟩ := List.mem_map.mp hpart
    exact (h [b]).mpr ⟨b, hw b hb, rfl⟩

/-- A byte of a class before whatever follows. -/
theorem mem_mul_iff (h : MatchesClass r p) {rest : Pattern} {w : Bytes} :
    w ∈ (r * rest).matches' ↔ ∃ b u, p b = true ∧ w = b :: u ∧ u ∈ rest.matches' := by
  rw [RegularExpression.matches'_mul, Language.mem_mul]
  constructor
  · rintro ⟨one, hone, u, hu, rfl⟩
    obtain ⟨b, hb, rfl⟩ := (h one).mp hone
    exact ⟨b, u, hb, rfl, hu⟩
  · rintro ⟨b, u, hb, rfl, hu⟩
    exact ⟨[b], (h [b]).mpr ⟨b, hb, rfl⟩, u, hu, rfl⟩

/-- At least one byte of a class. -/
theorem mem_oneOrMore_iff (h : MatchesClass r p) {w : Bytes} :
    w ∈ (oneOrMore r).matches' ↔ w ≠ [] ∧ ∀ b ∈ w, p b = true := by
  rw [oneOrMore, h.mem_mul_iff]
  simp only [h.mem_star_iff]
  constructor
  · rintro ⟨b, u, hb, rfl, hu⟩
    exact ⟨List.cons_ne_nil b u, List.forall_mem_cons.mpr ⟨hb, hu⟩⟩
  · rintro ⟨hne, hw⟩
    obtain ⟨b, u, rfl⟩ := List.exists_cons_of_ne_nil hne
    obtain ⟨hb, hu⟩ := List.forall_mem_cons.mp hw
    exact ⟨b, u, hb, rfl, hu⟩

end MatchesClass

/-- A byte and something behind it. -/
theorem mem_char_mul_iff {b : UInt8} {rest : Pattern} {w : Bytes} :
    w ∈ (.char b * rest : Pattern).matches' ↔ ∃ u, w = b :: u ∧ u ∈ rest.matches' := by
  rw [(matchesClass_char b).mem_mul_iff]
  simp

/-- A fixed text and something behind it. -/
theorem mem_literal_mul_iff {text : Bytes} {rest : Pattern} {w : Bytes} :
    w ∈ (literal text * rest).matches' ↔ ∃ u, w = text ++ u ∧ u ∈ rest.matches' := by
  have hliteral : ∀ v, v ∈ (literal text).matches' ↔ v = text := by
    induction text with
    | nil => exact fun v => Language.mem_one v
    | cons b text ih =>
      intro v
      rw [show literal (b :: text) = .char b * literal text from rfl, mem_char_mul_iff]
      simp only [ih, exists_eq_right]
  rw [RegularExpression.matches'_mul, Language.mem_mul]
  constructor
  · rintro ⟨v, hv, u, hu, rfl⟩
    exact ⟨u, by rw [(hliteral v).mp hv], hu⟩
  · rintro ⟨u, rfl, hu⟩
    exact ⟨text, (hliteral text).mpr rfl, u, hu, rfl⟩

/-- A fixed text matches itself alone. -/
theorem mem_literal_iff {text w : Bytes} : w ∈ (literal text).matches' ↔ w = text := by
  have h : w ∈ (literal text * 1).matches' ↔ ∃ u, w = text ++ u ∧ u ∈ (1 : Pattern).matches' :=
    mem_literal_mul_iff
  rw [RegularExpression.matches'_mul, RegularExpression.matches'_epsilon, mul_one] at h
  simpa [Language.mem_one] using h

/-! ## The patterns -/

/-- Blanks: `( |\t|\n|\r)+`. -/
def blanks : Pattern :=
  oneOrMore (.char space + .char tab + .char lineFeed + .char carriageReturn)

/-- A comment up to the end of its line: `//[^\n]*`. -/
def lineComment : Pattern := literal (utf8 "//") * (except [lineFeed]).star

/-- One round inside a block comment: a byte that is no star, or stars and a byte that does not end
the comment. -/
def commentPart : Pattern :=
  except [ascii '*'] + .char carriageReturn + .char lineFeed
    + oneOrMore (.char (ascii '*'))
      * (except [ascii '*', ascii '/'] + .char carriageReturn + .char lineFeed)

/-- A comment between its own marks: `/\*([^*]|\r|\n|(\*+([^*/]|\r|\n)))*\*+/`. -/
def blockComment : Pattern :=
  literal (utf8 "/*") * (commentPart.star * (oneOrMore (.char (ascii '*')) * .char (ascii '/')))

/-- A directive: `%[a-zA-Z_]+`. -/
def directive : Pattern :=
  .char (ascii '%') * oneOrMore (within [('a', 'z'), ('A', 'Z'), ('_', '_')])

/-- A bare name: `[a-zA-Z_][a-zA-Z0-9_\.]*`. -/
def identifier : Pattern :=
  within [('a', 'z'), ('A', 'Z'), ('_', '_')]
    * (within [('a', 'z'), ('A', 'Z'), ('0', '9'), ('_', '_'), ('.', '.')]).star

/-- A quoted name: `'[^'\n\r]*'`, or the same with another quote. -/
def quoted (mark : UInt8) : Pattern :=
  .char mark * ((except [mark, lineFeed, carriageReturn]).star * .char mark)

end Pattern

open Pattern

/-- The patterns with what they find: a token of a kind, or a gap. -/
def patterns : List (Option TokenKind × Pattern) :=
  [(none, blanks),
   (none, lineComment),
   (none, blockComment),
   (some .sections, literal (utf8 "%%")),
   (some .directive, directive),
   (some .identifier, identifier),
   (some .quoted, quoted (ascii '\'')),
   (some .quoted, quoted (ascii '"')),
   (some .colon, literal (utf8 ":")),
   (some .bar, literal (utf8 "|")),
   (some .semicolon, literal (utf8 ";"))]

namespace Pattern

/-! ## Runs of a class -/

/-- White space. -/
theorem mem_blanks_iff {w : Bytes} :
    w ∈ blanks.matches' ↔ w ≠ [] ∧ ∀ b ∈ w, isGap b = true :=
  ((((matchesClass_char space).add (matchesClass_char tab)).add (matchesClass_char lineFeed)).add
    (matchesClass_char carriageReturn)).mem_oneOrMore_iff

/-- All bytes except a few. -/
theorem matchesClass_except (bytes : List UInt8) :
    MatchesClass (except bytes) fun b => !bytes.contains b :=
  matchesClass_byteWith _

/-- A comment up to the end of its line. -/
theorem mem_lineComment_iff {w : Bytes} :
    w ∈ lineComment.matches' ↔ ∃ u, w = utf8 "//" ++ u ∧ ∀ b ∈ u, (b != lineFeed) = true := by
  have hclass : MatchesClass (except [lineFeed]) (· != lineFeed) :=
    (matchesClass_except _).congr (forall_byte (by decide +kernel))
  rw [lineComment, mem_literal_mul_iff]
  simp only [hclass.mem_star_iff]

/-- What a word begins with. -/
theorem matchesClass_wordStart :
    MatchesClass (within [('a', 'z'), ('A', 'Z'), ('_', '_')]) isWordStart :=
  (matchesClass_byteWith _).congr (forall_byte (by decide +kernel))

/-- What a word goes on with. -/
theorem matchesClass_wordPart :
    MatchesClass (within [('a', 'z'), ('A', 'Z'), ('0', '9'), ('_', '_'), ('.', '.')])
      isWordPart :=
  (matchesClass_byteWith _).congr (forall_byte (by decide +kernel))

/-- A directive is a percent sign with letters behind it. -/
theorem mem_directive_iff {w : Bytes} :
    w ∈ directive.matches' ↔
      ∃ u, w = ascii '%' :: u ∧ u ≠ [] ∧ ∀ b ∈ u, isWordStart b = true := by
  rw [directive, mem_char_mul_iff]
  simp only [matchesClass_wordStart.mem_oneOrMore_iff]

/-- An identifier is what a word begins with, and then what it goes on with. -/
theorem mem_identifier_iff {w : Bytes} :
    w ∈ identifier.matches' ↔
      ∃ b u, isWordStart b = true ∧ w = b :: u ∧ ∀ c ∈ u, isWordPart c = true := by
  rw [identifier, matchesClass_wordStart.mem_mul_iff]
  simp only [matchesClass_wordPart.mem_star_iff]

/-- A quoted name is one that holds neither its mark nor a line end, between two marks. -/
theorem mem_quoted_iff {mark : UInt8} {w : Bytes} :
    w ∈ (quoted mark).matches' ↔
      ∃ u, w = mark :: (u ++ [mark]) ∧ ∀ b ∈ u, isQuotable mark b = true := by
  have hclass : MatchesClass (except [mark, lineFeed, carriageReturn]) (isQuotable mark) := by
    refine (matchesClass_except _).congr fun b => ?_
    exact Bool.eq_iff_iff.mpr (by simp [isQuotable, and_assoc])
  rw [quoted, mem_char_mul_iff, RegularExpression.matches'_mul]
  simp only [Language.mem_mul, hclass.mem_star_iff, matchesClass_char mark _]
  constructor
  · rintro ⟨_, rfl, u, hu, _, ⟨b, hb, rfl⟩, rfl⟩
    obtain rfl := eq_of_beq hb
    exact ⟨u, rfl, hu⟩
  · rintro ⟨u, rfl, hu⟩
    exact ⟨_, rfl, u, hu, [mark], ⟨mark, beq_self_eq_true mark, rfl⟩, rfl⟩

/-! ## Block comments -/

/-- The text ends with its first `*/`. -/
def EndsComment (u : Bytes) : Prop := commentEnd? u = some u.length

/-- A byte that is no star begins no end of a comment. -/
theorem endsComment_cons_iff {b : UInt8} (hb : b ≠ ascii '*') {u : Bytes} :
    EndsComment (b :: u) ↔ EndsComment u := by
  unfold EndsComment
  rw [commentEnd?, if_neg (fun h => hb h.1), List.length_cons]
  cases commentEnd? u with
  | none => simp
  | some n => simp

/-- The last of some stars decides together with the byte behind it. -/
theorem commentEnd?_stars (n : Nat) {c : UInt8} (hc : c ≠ ascii '*') (u : Bytes) :
    commentEnd? (List.replicate (n + 1) (ascii '*') ++ c :: u)
      = if c = ascii '/' then some (n + 2) else (commentEnd? u).map (· + (n + 2)) := by
  induction n with
  | zero =>
    rw [List.replicate_one, List.singleton_append, commentEnd?, List.head?_cons]
    by_cases hslash : c = ascii '/'
    · simp [hslash]
    · rw [if_neg (by simp [hslash]), commentEnd?, if_neg (fun h => hc h.1), if_neg hslash,
        Option.map_map]
      rfl
  | succ n ih =>
    -- behind the first star stands a second one, so that the comment does not end here
    rw [List.replicate_succ, List.cons_append, commentEnd?, ih]
    rw [if_neg (by simp [List.replicate_succ]; decide)]
    split
    · rfl
    · rw [Option.map_map]
      rfl

/-- Stars end a comment if a slash follows, and else are part of it. -/
theorem endsComment_stars_iff (n : Nat) {c : UInt8} (hc : c ≠ ascii '*') {u : Bytes} :
    EndsComment (List.replicate (n + 1) (ascii '*') ++ c :: u) ↔
      (c = ascii '/' ∧ u = []) ∨ (c ≠ ascii '/' ∧ EndsComment u) := by
  unfold EndsComment
  rw [commentEnd?_stars n hc]
  by_cases hslash : c = ascii '/'
  · rw [if_pos hslash]
    simp only [hslash, List.length_append, List.length_replicate, List.length_cons,
      Option.some.injEq, true_and, ne_eq, not_true_eq_false, false_and, or_false]
    rw [← List.length_eq_zero_iff]
    omega
  · rw [if_neg hslash]
    cases commentEnd? u with
    | none => simp [hslash]
    | some m =>
      simp only [hslash, List.length_append, List.length_replicate, List.length_cons,
        Option.map_some, Option.some.injEq, false_and, ne_eq, not_false_eq_true, true_and, false_or]
      omega

/-- Stars alone do not end a comment. -/
theorem commentEnd?_replicate (n : Nat) : commentEnd? (List.replicate n (ascii '*')) = none := by
  induction n with
  | zero => rfl
  | succ n ih =>
    have hhead : (List.replicate n (ascii '*')).head? ≠ some (ascii '/') := by
      cases n with
      | zero => simp
      | succ n => simp [List.replicate_succ]; decide
    rw [List.replicate_succ, commentEnd?, if_neg fun h => hhead h.2, ih]
    rfl

/-- Every text is some stars and then something else or nothing. -/
theorem exists_stars (u : Bytes) :
    ∃ n, u = List.replicate n (ascii '*') ∨
      ∃ c v, c ≠ ascii '*' ∧ u = List.replicate n (ascii '*') ++ c :: v := by
  induction u with
  | nil => exact ⟨0, .inl rfl⟩
  | cons b u ih =>
    by_cases hb : b = ascii '*'
    · obtain ⟨n, rfl | ⟨c, v, hc, rfl⟩⟩ := ih
      · exact ⟨n + 1, .inl (by rw [hb, List.replicate_succ])⟩
      · exact ⟨n + 1, .inr ⟨c, v, hc, by rw [hb, List.replicate_succ, List.cons_append]⟩⟩
    · exact ⟨0, .inr ⟨b, u, hb, rfl⟩⟩

/-- One star or more. -/
theorem mem_stars_iff {w : Bytes} :
    w ∈ (oneOrMore (.char (ascii '*'))).matches' ↔
      ∃ n, w = List.replicate (n + 1) (ascii '*') := by
  rw [(matchesClass_char (ascii '*')).mem_oneOrMore_iff]
  constructor
  · rintro ⟨hne, hw⟩
    refine ⟨w.length - 1, ?_⟩
    have hlen := List.length_pos_iff.mpr hne
    rw [show w.length - 1 + 1 = w.length by omega]
    exact List.eq_replicate_iff.mpr ⟨rfl, fun b hb => eq_of_beq (hw b hb)⟩
  · rintro ⟨n, rfl⟩
    exact ⟨by simp, fun b hb => by simp [(List.mem_replicate.mp hb).2]⟩

/-- A part of a comment: a byte that is no star, or stars with something behind them that is no
slash. -/
theorem mem_commentPart_iff {w : Bytes} :
    w ∈ commentPart.matches' ↔ (∃ b, b ≠ ascii '*' ∧ w = [b]) ∨
      ∃ n c, c ≠ ascii '*' ∧ c ≠ ascii '/' ∧
        w = List.replicate (n + 1) (ascii '*') ++ [c] := by
  have hother : MatchesClass (except [ascii '*'] + .char carriageReturn + .char lineFeed)
      fun b => b != ascii '*' :=
    (((matchesClass_except _).add (matchesClass_char _)).add (matchesClass_char _)).congr
      (forall_byte (by decide +kernel))
  have hbreak : MatchesClass
      (except [ascii '*', ascii '/'] + .char carriageReturn + .char lineFeed)
      fun b => b != ascii '*' && b != ascii '/' :=
    (((matchesClass_except _).add (matchesClass_char _)).add (matchesClass_char _)).congr
      (forall_byte (by decide +kernel))
  rw [commentPart, RegularExpression.matches'_add, Language.mem_add, hother w,
    RegularExpression.matches'_mul, Language.mem_mul]
  simp only [mem_stars_iff, hbreak _, bne_iff_ne, Bool.and_eq_true]
  refine or_congr_right ⟨?_, ?_⟩
  · rintro ⟨_, ⟨n, rfl⟩, _, ⟨c, ⟨hstar, hslash⟩, rfl⟩, rfl⟩
    exact ⟨n, c, hstar, hslash, rfl⟩
  · rintro ⟨n, c, hstar, hslash, rfl⟩
    exact ⟨_, ⟨n, rfl⟩, [c], ⟨c, ⟨hstar, hslash⟩, rfl⟩, rfl⟩

/-- What closes a comment: stars and a slash. -/
theorem mem_commentClose_iff {w : Bytes} :
    w ∈ (oneOrMore (.char (ascii '*')) * .char (ascii '/') : Pattern).matches' ↔
      ∃ n, w = List.replicate (n + 1) (ascii '*') ++ [ascii '/'] := by
  rw [RegularExpression.matches'_mul, Language.mem_mul]
  simp only [mem_stars_iff, matchesClass_char _ _, beq_iff_eq, exists_eq_left]
  constructor
  · rintro ⟨_, ⟨n, rfl⟩, rfl⟩
    exact ⟨n, rfl⟩
  · rintro ⟨n, rfl⟩
    exact ⟨_, ⟨n, rfl⟩, rfl⟩

/-- What a part adds in front does not change where a comment ends. -/
theorem endsComment_part_append_iff {part u : Bytes} (h : part ∈ commentPart.matches') :
    EndsComment (part ++ u) ↔ EndsComment u := by
  rcases mem_commentPart_iff.mp h with ⟨b, hb, rfl⟩ | ⟨n, c, hc, hslash, rfl⟩
  · exact endsComment_cons_iff hb
  · rw [List.append_assoc, List.singleton_append, endsComment_stars_iff n hc]
    simp [hslash]

/-- What the pattern matches ends with the first end of a comment. -/
theorem endsComment_of_mem {w : Bytes} (h : w ∈ (commentPart.star
    * (oneOrMore (.char (ascii '*')) * .char (ascii '/')) : Pattern).matches') :
    EndsComment w := by
  rw [RegularExpression.matches'_mul, Language.mem_mul] at h
  obtain ⟨inside, hinside, close, hclose, rfl⟩ := h
  rw [RegularExpression.matches'_star, Language.mem_kstar] at hinside
  obtain ⟨parts, rfl, hparts⟩ := hinside
  -- part by part down to the stars and the slash at the end
  induction parts with
  | nil =>
    obtain ⟨n, rfl⟩ := mem_commentClose_iff.mp hclose
    exact (endsComment_stars_iff n (by decide)).mpr (.inl ⟨rfl, rfl⟩)
  | cons part parts ih =>
    obtain ⟨hpart, hparts⟩ := List.forall_mem_cons.mp hparts
    rw [List.flatten_cons, List.append_assoc, endsComment_part_append_iff hpart]
    exact ih hparts

/-- A part can be put before what the pattern matches. -/
theorem part_append_mem {part u : Bytes} {rest : Pattern} (h : part ∈ commentPart.matches')
    (hu : u ∈ (commentPart.star * rest).matches') :
    part ++ u ∈ (commentPart.star * rest).matches' := by
  rw [RegularExpression.matches'_mul, Language.mem_mul] at hu ⊢
  obtain ⟨inside, hinside, close, hclose, rfl⟩ := hu
  rw [RegularExpression.matches'_star, Language.mem_kstar] at hinside
  obtain ⟨parts, rfl, hparts⟩ := hinside
  refine ⟨part ++ parts.flatten, ?_, close, hclose, List.append_assoc ..⟩
  rw [RegularExpression.matches'_star, Language.mem_kstar]
  exact ⟨part :: parts, rfl, List.forall_mem_cons.mpr ⟨h, hparts⟩⟩

/-- What ends with the first end of a comment is matched by the pattern. -/
theorem mem_of_endsComment {w : Bytes} (h : EndsComment w) : w ∈ (commentPart.star
    * (oneOrMore (.char (ascii '*')) * .char (ascii '/')) : Pattern).matches' := by
  -- each round takes what stands up to and with the first byte that is no star
  obtain ⟨n, rfl | ⟨c, v, hc, rfl⟩⟩ := exists_stars w
  · rw [EndsComment, commentEnd?_replicate] at h
    exact absurd h (by simp)
  · cases n with
    | zero =>
      have hv : EndsComment v := (endsComment_cons_iff hc).mp h
      have hpart : [c] ∈ commentPart.matches' := mem_commentPart_iff.mpr (.inl ⟨c, hc, rfl⟩)
      show [c] ++ v ∈ _
      exact part_append_mem hpart (mem_of_endsComment hv)
    | succ n =>
      rcases (endsComment_stars_iff n hc).mp h with ⟨rfl, rfl⟩ | ⟨hslash, hv⟩
      · rw [RegularExpression.matches'_mul, Language.mem_mul]
        refine ⟨[], ?_, _, mem_commentClose_iff.mpr ⟨n, rfl⟩, rfl⟩
        rw [RegularExpression.matches'_star]
        exact Language.nil_mem_kstar _
      · have hpart : List.replicate (n + 1) (ascii '*') ++ [c] ∈ commentPart.matches' :=
          mem_commentPart_iff.mpr (.inr ⟨n, c, hc, hslash, rfl⟩)
        rw [show List.replicate (n + 1) (ascii '*') ++ c :: v
          = (List.replicate (n + 1) (ascii '*') ++ [c]) ++ v by simp]
        exact part_append_mem hpart (mem_of_endsComment hv)
termination_by w.length

/-- **A block comment is `/*` and a text that ends with its first `*/`.** -/
theorem mem_blockComment_iff {w : Bytes} :
    w ∈ blockComment.matches' ↔ ∃ u, w = utf8 "/*" ++ u ∧ EndsComment u := by
  rw [blockComment, mem_literal_mul_iff]
  exact exists_congr fun u => and_congr_right fun _ => ⟨endsComment_of_mem, mem_of_endsComment⟩

end Pattern

end Scan

end YaccTables
