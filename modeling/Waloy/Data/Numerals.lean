import Mathlib.Algebra.Group.Nat.Defs
import Mathlib.Data.Char
import Mathlib.Data.List.Lex

/-!
# Decimal numerals of one width

Strings of digits of one length stand in the order of their values. Numbers that are filled
up with zeros therefore sort like numbers while their digits fit the width; the first number
beyond it sorts before its predecessor.
-/
namespace Waloy.Data

/-- The decimal digits of a number, filled up with zeros to a width. -/
def zeroFilled (width n : Nat) : List Char :=
  List.replicate (width - (Nat.toDigits 10 n).length) '0' ++ Nat.toDigits 10 n

/-- The value of a string of digits. -/
def numeralValue (digits : List Char) : Nat := Nat.ofDigitChars 10 digits 0

def IsNumeral (digits : List Char) : Prop := ∀ c ∈ digits, c.isDigit

section
variable {c d : Char} {xs ys : List Char}

theorem toNat_of_isDigit (digit : c.isDigit) : '0'.toNat ≤ c.toNat ∧ c.toNat ≤ '9'.toNat := by
  simpa [Char.isDigit, UInt32.le_iff_toNat_le] using digit

theorem numeralValue_cons :
    numeralValue (c :: xs) = 10 ^ xs.length * (c.toNat - '0'.toNat) + numeralValue xs := by
  rw [numeralValue, Nat.ofDigitChars_cons, Nat.ofDigitChars_eq_ofDigitChars_zero, Nat.mul_zero,
    Nat.zero_add, numeralValue]

theorem numeralValue_lt (numeral : IsNumeral xs) : numeralValue xs < 10 ^ xs.length := by
  induction xs with
  | nil => exact Nat.one_pos
  | cons c xs ih =>
    have rest := ih fun d hd => numeral d (List.mem_cons_of_mem c hd)
    have digit : c.toNat - '0'.toNat ≤ 9 := by
      have := toNat_of_isDigit (numeral c List.mem_cons_self)
      simp only [Char.reduceToNat] at this ⊢
      omega
    have leading := Nat.mul_le_mul_left (10 ^ xs.length) digit
    rw [numeralValue_cons, List.length_cons, Nat.pow_succ]
    omega

/-- Of two numerals of one length, the smaller one stands first. -/
theorem numeral_lt (numeral : IsNumeral xs) (numeral' : IsNumeral ys)
    (same : xs.length = ys.length) (less : numeralValue xs < numeralValue ys) : xs < ys := by
  induction xs generalizing ys with
  | nil =>
    obtain rfl : ys = [] := List.eq_nil_of_length_eq_zero same.symm
    exact absurd less (Nat.lt_irrefl _)
  | cons c xs ih =>
    cases ys with
    | nil => exact absurd same (by simp)
    | cons d ys =>
      have lengths : xs.length = ys.length := Nat.succ.inj same
      have digit := toNat_of_isDigit (numeral c List.mem_cons_self)
      have digit' := toNat_of_isDigit (numeral' d List.mem_cons_self)
      have below := numeralValue_lt fun e he => numeral' e (List.mem_cons_of_mem d he)
      rw [numeralValue_cons, numeralValue_cons, lengths] at less
      rw [List.cons_lt_cons_iff]
      rcases Nat.lt_trichotomy c.toNat d.toNat with before | equal | after
      · exact .inl before
      · obtain rfl : c = d := Char.toNat_inj.mp equal
        refine .inr ⟨rfl, ih (fun e he => numeral e (List.mem_cons_of_mem c he))
          (fun e he => numeral' e (List.mem_cons_of_mem c he)) lengths ?_⟩
        omega
      · -- a greater leading digit outweighs all digits after it
        have gap : d.toNat - '0'.toNat + 1 ≤ c.toNat - '0'.toNat := by omega
        have leading := Nat.mul_le_mul_left (10 ^ ys.length) gap
        rw [Nat.mul_succ] at leading
        omega

end

section
variable {width n m : Nat}

theorem isNumeral_zeroFilled : IsNumeral (zeroFilled width n) := by
  intro c hc
  rcases List.mem_append.mp hc with zero | digit
  · rw [List.eq_of_mem_replicate zero]
    decide
  · exact Nat.isDigit_of_mem_toDigits (by decide) (by decide) digit

theorem numeralValue_zeroFilled : numeralValue (zeroFilled width n) = n := by
  rw [numeralValue, zeroFilled, Nat.ofDigitChars_append, Nat.ofDigitChars_replicate_zero,
    Nat.mul_zero, Nat.ofDigitChars_ten_toDigits]

/-- A number below `10 ^ width` fits the width. -/
theorem zeroFilled_length (positive : 0 < width) (fits : n < 10 ^ width) :
    (zeroFilled width n).length = width := by
  have short := (Nat.length_toDigits_le_iff (by decide) positive).mpr fits
  rw [zeroFilled, List.length_append, List.length_replicate]
  omega

/-- While both fit the width, the numerals stand in the order of the numbers. -/
theorem zeroFilled_lt (positive : 0 < width) (fits : m < 10 ^ width) (less : n < m) :
    zeroFilled width n < zeroFilled width m := by
  refine numeral_lt isNumeral_zeroFilled isNumeral_zeroFilled ?_ ?_
  · rw [zeroFilled_length positive (Nat.lt_trans less fits), zeroFilled_length positive fits]
  · rw [numeralValue_zeroFilled, numeralValue_zeroFilled]
    exact less

theorem toDigits_pow : Nat.toDigits 10 (10 ^ width) = '1' :: List.replicate width '0' := by
  induction width with
  | zero => rfl
  | succ width ih =>
    rw [Nat.pow_succ, Nat.mul_comm, ← Nat.add_zero (10 * 10 ^ width),
      ← Nat.toDigits_append_toDigits (by decide) (Nat.pow_pos (by decide)) (by decide), ih,
      Nat.toDigits_zero, List.replicate_succ']
    rfl

theorem toDigits_pred_pow (positive : 0 < width) :
    Nat.toDigits 10 (10 ^ width - 1) = List.replicate width '9' := by
  induction width, positive using Nat.le_induction with
  | base => rfl
  | succ width positive ih =>
    have some : 0 < 10 ^ width - 1 := by
      have := Nat.one_lt_pow (Nat.ne_of_gt positive) (by decide : 1 < 10)
      omega
    have next : 10 ^ (width + 1) - 1 = 10 * (10 ^ width - 1) + 9 := by
      rw [Nat.pow_succ]
      omega
    rw [next, ← Nat.toDigits_append_toDigits (by decide) some (by decide), ih,
      List.replicate_succ']
    rfl

/-- The first number beyond the width stands before the last one within it. -/
theorem zeroFilled_overflow (positive : 0 < width) :
    zeroFilled width (10 ^ width) < zeroFilled width (10 ^ width - 1) := by
  have long : width - (Nat.toDigits 10 (10 ^ width)).length = 0 := by
    rw [toDigits_pow, List.length_cons, List.length_replicate]
    omega
  have full : width - (Nat.toDigits 10 (10 ^ width - 1)).length = 0 := by
    rw [toDigits_pred_pow positive, List.length_replicate, Nat.sub_self]
  obtain ⟨k, rfl⟩ := Nat.exists_eq_add_one.mpr positive
  rw [zeroFilled, zeroFilled, long, full, toDigits_pow, toDigits_pred_pow positive]
  exact List.cons_lt_cons_iff.mpr (.inl (by decide))

end
end Waloy.Data
