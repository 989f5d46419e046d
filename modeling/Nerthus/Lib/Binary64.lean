import Mathlib

/-!
# Rounding to 53 bits

The quotients of naturals that are at least one, as a `float64` has them: rounded to
53 significant bits, to the nearest and in a tie to the even one. A value is counted
in units of `2 ^ (-52)`.
-/

namespace Nerthus.Lib.Binary64

open Nat

def roundDiv (n d : Nat) : Nat :=
  if d < 2 * (n % d) ∨ d = 2 * (n % d) ∧ n / d % 2 = 1 then n / d + 1 else n / d

def exponent (a b : Nat) : Nat := Nat.log2 (a / b)

/-- The quotient `a / b` as a `float64`, in units of `2 ^ (-52)`. -/
def quotient (a b : Nat) : Nat :=
  roundDiv (a * 2 ^ 52) (b * 2 ^ exponent a b) * 2 ^ exponent a b

def floor (x : Nat) : Nat := x / 2 ^ 52

theorem le_roundDiv {n d m : Nat} (hd : 0 < d) (h : m * d ≤ n) : m ≤ roundDiv n d := by
  have hdiv : m ≤ n / d := (le_div_iff_mul_le hd).mpr h
  unfold roundDiv
  split <;> omega

theorem roundDiv_le {n d m : Nat} (hd : 0 < d) (h : n ≤ m * d) : roundDiv n d ≤ m := by
  have hdiv : n / d ≤ m := Nat.div_le_of_le_mul (by rwa [Nat.mul_comm])
  have hmod := Nat.div_add_mod n d
  unfold roundDiv
  split
  · -- Rounded up, so something is left and the quotient is below the bound.
    by_contra hlt
    have heq : n / d = m := by omega
    rw [heq, Nat.mul_comm] at hmod
    omega
  · exact hdiv

theorem roundDiv_mono {n n' : Nat} (d : Nat) (h : n ≤ n') : roundDiv n d ≤ roundDiv n' d := by
  have hdiv : n / d ≤ n' / d := Nat.div_le_div_right h
  have hmod := Nat.div_add_mod n d
  have hmod' := Nat.div_add_mod n' d
  by_cases heq : n / d = n' / d
  · have hrest : n % d ≤ n' % d := by
      rw [heq] at hmod
      omega
    unfold roundDiv
    rw [heq]
    split <;> split <;> omega
  · unfold roundDiv
    split <;> split <;> omega

theorem exponent_bounds {a b : Nat} (hb : 0 < b) (hab : b ≤ a) :
    b * 2 ^ exponent a b ≤ a ∧ a < b * 2 ^ (exponent a b + 1) := by
  have hone : a / b ≠ 0 := ne_of_gt (div_pos hab hb)
  unfold exponent
  rw [log2_eq_log_two]
  constructor
  · rw [mul_comm]
    exact (le_div_iff_mul_le hb).mp (pow_log_le_self 2 hone)
  · rw [mul_comm]
    exact (div_lt_iff_lt_mul hb).mp (lt_pow_succ_log_self one_lt_two (a / b))

theorem quotient_mono {a a' b : Nat} (hb : 0 < b) (hab : b ≤ a) (h : a ≤ a') :
    quotient a b ≤ quotient a' b := by
  have hexp : exponent a b ≤ exponent a' b := by
    unfold exponent
    rw [Nat.log2_eq_log_two, Nat.log2_eq_log_two]
    exact Nat.log_mono_right (Nat.div_le_div_right h)
  have hpos : ∀ k, 0 < b * 2 ^ k := fun k => Nat.mul_pos hb (Nat.two_pow_pos k)
  by_cases heq : exponent a b = exponent a' b
  · unfold quotient
    rw [heq]
    exact Nat.mul_le_mul_right _ (roundDiv_mono _ (Nat.mul_le_mul_right _ h))
  · -- The power of two between the exponents is between the values.
    have hlt : exponent a b + 1 ≤ exponent a' b := by omega
    have hupper := (exponent_bounds hb hab).2
    have hlower := (exponent_bounds hb (Nat.le_trans hab h)).1
    have hleft : roundDiv (a * 2 ^ 52) (b * 2 ^ exponent a b) ≤ 2 ^ 53 := by
      refine roundDiv_le (hpos _) ?_
      calc a * 2 ^ 52 ≤ b * 2 ^ (exponent a b + 1) * 2 ^ 52 :=
            Nat.mul_le_mul_right _ (Nat.le_of_lt hupper)
        _ = 2 ^ 53 * (b * 2 ^ exponent a b) := by ring
    have hright : 2 ^ 52 ≤ roundDiv (a' * 2 ^ 52) (b * 2 ^ exponent a' b) := by
      refine le_roundDiv (hpos _) ?_
      rw [Nat.mul_comm]
      exact Nat.mul_le_mul_right _ hlower
    calc quotient a b ≤ 2 ^ 53 * 2 ^ exponent a b := Nat.mul_le_mul_right _ hleft
      _ = 2 ^ 52 * 2 ^ (exponent a b + 1) := by ring
      _ ≤ 2 ^ 52 * 2 ^ exponent a' b :=
          Nat.mul_le_mul_left _ (Nat.pow_le_pow_right (by decide) hlt)
      _ ≤ quotient a' b := Nat.mul_le_mul_right _ hright

theorem one_le_quotient {a b : Nat} (hb : 0 < b) (hab : b ≤ a) : 2 ^ 52 ≤ quotient a b := by
  have hlower := (exponent_bounds hb hab).1
  have hround : 2 ^ 52 ≤ roundDiv (a * 2 ^ 52) (b * 2 ^ exponent a b) := by
    refine le_roundDiv (Nat.mul_pos hb (Nat.two_pow_pos _)) ?_
    rw [Nat.mul_comm]
    exact Nat.mul_le_mul_right _ hlower
  exact Nat.le_trans hround (Nat.le_mul_of_pos_right _ (Nat.two_pow_pos _))

end Nerthus.Lib.Binary64
