import Mathlib.Data.List.Induction
import Mathlib.Algebra.Order.Ring.Nat

/-!
# Decimal numerals

`Nat.toDigits` writes a number without leading zeros, `Nat.ofDigitChars` reads any row of digits.
So a numeral in front of more digits is a numeral again, unless it is the zero.
-/

namespace Cheryl.Library

/-! ## Digits

A digit is a character between `'0'` and `'9'`, and its value is its distance from `'0'`. `Nat.ofDigitChars`
takes that distance of any character, so the bound below is where it matters that the character is a digit.
-/

/-- The value of a digit. -/
theorem toNat_sub_lt {c : Char} (h : c.isDigit = true) : c.toNat - '0'.toNat < 10 := by
  obtain ⟨hlow, hhigh⟩ := Char.isDigit_iff_toNat.mp h
  have hzero : '0'.toNat = 48 := rfl
  have hnine : '9'.toNat = 57 := rfl
  omega

/-- The digit of its value. -/
theorem digitChar_toNat_sub {c : Char} (h : c.isDigit = true) :
    Nat.digitChar (c.toNat - '0'.toNat) = c := by
  obtain ⟨hlow, -⟩ := Char.isDigit_iff_toNat.mp h
  apply Char.toNat_inj.mp
  rw [Nat.toNat_digitChar_of_lt_ten (toNat_sub_lt h)]
  have hzero : '0'.toNat = 48 := rfl
  omega

/-! ## Rows of digits

Reading is compatible with appending, and writing is the inverse of reading as long as there is no zero in
front. The last two theorems are what tells apart texts like `11` followed by `2` and `1` followed by `12`.
-/

/-- Two rows of digits, read as one. -/
theorem ofDigitChars_append_zero (ds es : List Char) : Nat.ofDigitChars 10 (ds ++ es) 0 =
    10 ^ es.length * Nat.ofDigitChars 10 ds 0 + Nat.ofDigitChars 10 es 0 := by
  rw [Nat.ofDigitChars_append, Nat.ofDigitChars_eq_ofDigitChars_zero]

theorem ofDigitChars_snoc (ds : List Char) (c : Char) : Nat.ofDigitChars 10 (ds ++ [c]) 0 =
    10 * Nat.ofDigitChars 10 ds 0 + (c.toNat - '0'.toNat) := by
  rw [Nat.ofDigitChars_append, Nat.ofDigitChars_cons, Nat.ofDigitChars_nil]

/-- So many digits reach so far. -/
theorem ofDigitChars_lt {ds : List Char} (h : ∀ c ∈ ds, c.isDigit = true) :
    Nat.ofDigitChars 10 ds 0 < 10 ^ ds.length := by
  induction ds using List.reverseRecOn with
  | nil => simp
  | append_singleton ds c ih =>
      have hds := ih fun d hd => h d (by simp [hd])
      have hc := toNat_sub_lt (h c (by simp))
      rw [ofDigitChars_snoc, List.length_append, List.length_singleton, Nat.pow_succ]
      omega

/-- Digits that do not begin with a zero are as a number is written. -/
theorem toDigits_ofDigitChars {c : Char} {ds : List Char} (hc : c ≠ '0')
    (h : ∀ d ∈ c :: ds, d.isDigit = true) :
    Nat.toDigits 10 (Nat.ofDigitChars 10 (c :: ds) 0) = c :: ds := by
  have hfirst : c.isDigit = true := h c List.mem_cons_self
  have hpos : 0 < c.toNat - '0'.toNat := by
    obtain ⟨hlow, -⟩ := Char.isDigit_iff_toNat.mp hfirst
    have hne : c.toNat ≠ '0'.toNat := fun heq => hc (Char.toNat_inj.mp heq)
    omega
  induction ds using List.reverseRecOn with
  | nil =>
      rw [Nat.ofDigitChars_cons, Nat.ofDigitChars_nil, Nat.mul_zero, Nat.zero_add,
        Nat.toDigits_of_lt_base (toNat_sub_lt hfirst), digitChar_toNat_sub hfirst]
  | append_singleton ds d ih =>
      have hd : d.isDigit = true := h d (by simp)
      have hds := ih fun e he => h e (by
        rw [← List.cons_append]
        exact List.mem_append_left _ he)
      -- the number so far is not zero, so its digits stay as they are
      have hsofar : 0 < Nat.ofDigitChars 10 (c :: ds) 0 := by
        have hle : 1 ≤ 10 ^ ds.length := Nat.one_le_pow _ _ (by decide)
        rw [Nat.ofDigitChars_cons, Nat.ofDigitChars_eq_ofDigitChars_zero]
        have hprod := Nat.mul_pos hle (show 0 < 10 * 0 + (c.toNat - '0'.toNat) by omega)
        omega
      rw [← List.cons_append, ofDigitChars_snoc,
        ← Nat.toDigits_append_toDigits (by decide) hsofar (toNat_sub_lt hd), hds,
        Nat.toDigits_of_lt_base (toNat_sub_lt hd), digitChar_toNat_sub hd]

/-- A number whose digits begin with those of another is larger by a power of ten, and the other is
not zero. -/
theorem toDigits_eq_append {n m : Nat} {ds : List Char} (h : Nat.toDigits 10 n = Nat.toDigits 10 m ++ ds)
    (hne : ds ≠ []) : 1 ≤ m ∧ n = 10 ^ ds.length * m + Nat.ofDigitChars 10 ds 0 := by
  have hvalue : n = 10 ^ ds.length * m + Nat.ofDigitChars 10 ds 0 := by
    have hread := congrArg (fun ds => Nat.ofDigitChars 10 ds 0) h
    simpa only [ofDigitChars_append_zero, Nat.ofDigitChars_ten_toDigits] using hread
  refine ⟨?_, hvalue⟩
  by_contra hzero
  obtain rfl : m = 0 := by omega
  -- then there is one digit more than the number needs
  have hdigits : ∀ c ∈ ds, c.isDigit = true := fun c hc =>
    Nat.isDigit_of_mem_toDigits (b := 10) (n := n) (by decide) (by decide)
      (by rw [h]; exact List.mem_append_right _ hc)
  have hlt : n < 10 ^ ds.length := by
    have hds := ofDigitChars_lt hdigits
    omega
  have hlen := (Nat.length_toDigits_le_iff (by decide) (List.length_pos_iff.mpr hne)).mpr hlt
  have hpos := Nat.length_toDigits_pos (b := 10) (n := 0)
  rw [h, List.length_append] at hlen
  omega

end Cheryl.Library
