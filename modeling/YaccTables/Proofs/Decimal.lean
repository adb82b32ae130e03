import Mathlib.Data.List.Basic
import YaccTables.Bytes

/-!
# Decimal digits

The digits of a number can be read back. A number is written with at least one byte, all of them
are digits, and the bytes give back the number (`decimal_injective`). So a number followed by
something other than a digit is found again in a longer text, together with what follows it
(`decimal_append_inj`, `decimalInt_append_inj`), like any run of bytes of one class
(`run_append_inj`).
-/

namespace YaccTables

/-- A run of one class that ends where the class does. -/
theorem takeWhile_run {α : Type} {p : α → Bool} {text rest : List α} (ht : ∀ b ∈ text, p b = true)
    (hr : ∀ b ∈ rest.head?, p b = false) : (text ++ rest).takeWhile p = text := by
  rw [List.takeWhile_append_of_pos ht]
  cases rest with
  | nil => simp
  | cons b rest => simp [hr b rfl]

/-- Where a run of bytes of one sort ends, so does what it was put together from. -/
theorem run_append_inj {α : Type} {p : α → Bool} {x y r s : List α} (hx : ∀ b ∈ x, p b = true)
    (hy : ∀ b ∈ y, p b = true) (hr : ∀ b ∈ r.head?, p b = false)
    (hs : ∀ b ∈ s.head?, p b = false) (h : x ++ r = y ++ s) : x = y ∧ r = s := by
  have hruns := congrArg (List.takeWhile p) h
  rw [takeWhile_run hx hr, takeWhile_run hy hs] at hruns
  subst hruns
  exact ⟨rfl, List.append_cancel_left h⟩

/-- A separator stands before every item except the first. -/
theorem intercalate_cons {α : Type} (sep item : List α) (items : List (List α)) :
    sep.intercalate (item :: items) = item ++ items.flatMap (sep ++ ·) := by
  induction items generalizing item with
  | nil => simp [List.intercalate]
  | cons next rest ih =>
    rw [List.intercalate_cons_cons, ih, List.flatMap_cons]
    simp only [List.append_assoc]

/-! ## Digits -/

theorem isDigit_toNat_bounds {c : Char} (h : c.isDigit = true) : 48 ≤ c.toNat ∧ c.toNat ≤ 57 := by
  rw [Char.isDigit, Bool.and_eq_true, decide_eq_true_eq, decide_eq_true_eq] at h
  exact ⟨UInt32.le_iff_toNat_le.mp h.1, UInt32.le_iff_toNat_le.mp h.2⟩

theorem toNat_ascii_of_isDigit {c : Char} (h : c.isDigit = true) : (ascii c).toNat = c.toNat := by
  have hc := isDigit_toNat_bounds h
  exact UInt8.toNat_ofNat_of_lt' (show c.toNat < 256 by omega)

/-- A digit is encoded as its byte. -/
theorem utf8EncodeChar_of_isDigit {c : Char} (h : c.isDigit = true) :
    String.utf8EncodeChar c = [ascii c] := by
  have hc := isDigit_toNat_bounds h
  have hv : c.val.toNat ≤ 127 := show c.toNat ≤ 127 by omega
  exact if_pos hv

/-- A number in decimal is its digits. -/
theorem decimal_eq_map (n : Nat) : decimal n = (Nat.toDigits 10 n).map ascii := by
  rw [decimal, ← List.flatMap_pure_eq_map]
  refine List.flatMap_congr ?_
  intro c hc
  exact utf8EncodeChar_of_isDigit (Nat.isDigit_of_mem_toDigits (by omega) (by omega) hc)

theorem decimal_ne_nil (n : Nat) : decimal n ≠ [] := by
  rw [decimal_eq_map, ne_eq, List.map_eq_nil_iff]
  exact Nat.toDigits_ne_nil

/-- A number in decimal is made of digits. -/
theorem isDecimal_of_mem_decimal {n : Nat} {b : UInt8} (h : b ∈ decimal n) :
    isDecimal b = true := by
  rw [decimal_eq_map] at h
  obtain ⟨c, hc, rfl⟩ := List.mem_map.mp h
  have hdigit := Nat.isDigit_of_mem_toDigits (by omega) (by omega) hc
  have hbounds := isDigit_toNat_bounds hdigit
  rw [← toNat_ascii_of_isDigit hdigit] at hbounds
  rw [isDecimal, Bool.and_eq_true, decide_eq_true_eq, decide_eq_true_eq]
  exact ⟨UInt8.le_iff_toNat_le.mpr hbounds.1, UInt8.le_iff_toNat_le.mpr hbounds.2⟩

/-- A number in decimal begins with a digit. -/
theorem exists_decimal_eq_cons (n : Nat) :
    ∃ b rest, decimal n = b :: rest ∧ isDecimal b = true := by
  obtain ⟨b, rest, h⟩ := List.exists_cons_of_ne_nil (decimal_ne_nil n)
  exact ⟨b, rest, h, isDecimal_of_mem_decimal (h ▸ List.mem_cons_self)⟩

/-- The digits of a number can be read back from its bytes. -/
theorem map_decimal (n : Nat) :
    (decimal n).map (fun b => Char.ofNat b.toNat) = Nat.toDigits 10 n := by
  rw [decimal_eq_map, List.map_map]
  refine (List.map_congr_left ?_).trans (List.map_id _)
  intro c hc
  have hdigit := Nat.isDigit_of_mem_toDigits (by omega) (by omega) hc
  rw [Function.comp_apply, toNat_ascii_of_isDigit hdigit, Char.ofNat_toNat, id_eq]

/-- Different numbers look different. -/
theorem decimal_injective : Function.Injective decimal := by
  intro m n h
  have hdigits : Nat.toDigits 10 m = Nat.toDigits 10 n := by
    rw [← map_decimal, ← map_decimal, h]
  calc
    m = Nat.ofDigitChars 10 (Nat.toDigits 10 m) 0 := Nat.ofDigitChars_ten_toDigits.symm
    _ = Nat.ofDigitChars 10 (Nat.toDigits 10 n) 0 := by rw [hdigits]
    _ = n := Nat.ofDigitChars_ten_toDigits

/-- A number that no digit follows can be told from what follows it. -/
theorem decimal_append_inj {m n : Nat} {r s : Bytes} (hr : ∀ b ∈ r.head?, isDecimal b = false)
    (hs : ∀ b ∈ s.head?, isDecimal b = false) (h : decimal m ++ r = decimal n ++ s) :
    m = n ∧ r = s := by
  obtain ⟨hdigits, hrest⟩ := run_append_inj (fun _ => isDecimal_of_mem_decimal)
    (fun _ => isDecimal_of_mem_decimal) hr hs h
  exact ⟨decimal_injective hdigits, hrest⟩

/-- A number does not begin with a sign. -/
theorem decimal_append_ne_minus (n : Nat) (r s : Bytes) :
    decimal n ++ r ≠ utf8 "-" ++ s := by
  obtain ⟨b, rest, hd, hb⟩ := exists_decimal_eq_cons n
  rw [hd]
  intro h
  have hminus : b = ascii '-' := (List.cons.inj h).1
  rw [hminus] at hb
  exact absurd hb (by decide)

/-- A number with its sign ends where no digit follows. -/
theorem decimalInt_append_inj {m n : Int} {r s : Bytes}
    (hr : ∀ b ∈ r.head?, isDecimal b = false) (hs : ∀ b ∈ s.head?, isDecimal b = false)
    (h : decimalInt m ++ r = decimalInt n ++ s) : m = n ∧ r = s := by
  cases m with
  | ofNat m =>
    cases n with
    | ofNat n =>
      obtain ⟨rfl, hrest⟩ := decimal_append_inj hr hs h
      exact ⟨rfl, hrest⟩
    | negSucc n =>
      rw [decimalInt, decimalInt, List.append_assoc] at h
      exact absurd h (decimal_append_ne_minus m r _)
  | negSucc m =>
    cases n with
    | ofNat n =>
      rw [decimalInt, decimalInt, List.append_assoc] at h
      exact absurd h.symm (decimal_append_ne_minus n s _)
    | negSucc n =>
      rw [decimalInt, decimalInt, List.append_assoc, List.append_assoc] at h
      obtain ⟨hmn, hrest⟩ := decimal_append_inj hr hs (List.append_cancel_left h)
      obtain rfl := Nat.succ.inj hmn
      exact ⟨rfl, hrest⟩

end YaccTables
