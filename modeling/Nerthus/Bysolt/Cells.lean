import Nerthus.Bysolt.Types

/-!
# The parts of an hour

An hour of nanoseconds can be halved thirteen times. The parts of each depth are the
cells of a grid, and the functions of a `TimeSize` go from cell to cell.
-/

namespace Nerthus.Bysolt

def maxHalvings : Nat := 13

def span (d : Nat) : Int := pointTimeSpan / 2 ^ d

def cell (origin : Int) (d i : Nat) : TimeSize :=
  ⟨origin + i * span d, origin + (i + 1) * span d⟩

variable {d : Nat}

theorem span_eq (hd : d ≤ maxHalvings) : span d = 439453125 * 2 ^ (maxHalvings - d) := by
  unfold maxHalvings at hd ⊢
  interval_cases d <;> rfl

theorem span_pos (hd : d ≤ maxHalvings) : 0 < span d := by
  rw [span_eq hd]
  exact Int.mul_pos (by decide) (Int.pow_pos (by decide))

theorem span_succ (hd : d < maxHalvings) : span d = 2 * span (d + 1) := by
  have hexp : maxHalvings - d = maxHalvings - (d + 1) + 1 := by omega
  rw [span_eq (Nat.le_of_lt hd), span_eq hd, hexp, pow_succ]
  ring

theorem two_pow_mul_span (hd : d ≤ maxHalvings) : 2 ^ d * span d = pointTimeSpan := by
  have hpow : (2 : Int) ^ d * 2 ^ (maxHalvings - d) = 2 ^ maxHalvings := by
    rw [← pow_add, Nat.add_sub_cancel' hd]
  calc (2 : Int) ^ d * span d
      = 439453125 * (2 ^ d * 2 ^ (maxHalvings - d)) := by rw [span_eq hd]; ring
    _ = pointTimeSpan := by rw [hpow]; rfl

theorem span_le (hd : d ≤ maxHalvings) : span d ≤ pointTimeSpan := by
  have hpow : (1 : Int) ≤ 2 ^ d := Int.pow_pos (by decide)
  calc span d = 1 * span d := (Int.one_mul _).symm
    _ ≤ 2 ^ d * span d := Int.mul_le_mul_of_nonneg_right hpow (Int.le_of_lt (span_pos hd))
    _ = pointTimeSpan := two_pow_mul_span hd

theorem microsecond_lt_span (hd : d ≤ maxHalvings) : microsecond < span d := by
  unfold maxHalvings at hd
  interval_cases d <;> decide

theorem sub_eq {t u : Int} (hlo : 0 ≤ t - u) (hhi : t - u ≤ pointTimeSpan) : sub t u = t - u := by
  have hspan : pointTimeSpan = 3600000000000 := rfl
  unfold sub
  omega

theorem mul_span_le {i : Nat} (hd : d ≤ maxHalvings) (hi : i ≤ 2 ^ d) :
    i * span d ≤ pointTimeSpan := by
  have hcast : (i : Int) ≤ 2 ^ d := by exact_mod_cast hi
  calc i * span d ≤ 2 ^ d * span d :=
        Int.mul_le_mul_of_nonneg_right hcast (Int.le_of_lt (span_pos hd))
    _ = pointTimeSpan := two_pow_mul_span hd

section Cell

variable (origin : Int) {d : Nat} (i : Nat)

theorem cell_zero : cell origin 0 0 = ⟨origin, origin + pointTimeSpan⟩ := by
  have hspan : span 0 = pointTimeSpan := rfl
  rw [cell, hspan]
  simp

theorem cell_endTime_sub : (cell origin d i).endTime - (cell origin d i).beginTime = span d := by
  simp only [cell]
  ring

theorem cell_size (hd : d ≤ maxHalvings) : (cell origin d i).size = span d := by
  have hsub := cell_endTime_sub origin (d := d) i
  have hpos := span_pos hd
  have hle := span_le hd
  rw [TimeSize.size, sub_eq (by omega) (by omega), hsub]

theorem cell_middle (hd : d < maxHalvings) :
    (cell origin d i).middle = origin + (2 * i + 1) * span (d + 1) := by
  have hhalf : (span d).tdiv 2 = span (d + 1) := by
    rw [span_succ hd]
    exact Int.mul_tdiv_cancel_left _ (by decide)
  have hsize := cell_size origin i (Nat.le_of_lt hd)
  rw [TimeSize.size] at hsize
  rw [TimeSize.middle, hsize, hhalf, cell, span_succ hd]
  ring

theorem cell_left (hd : d < maxHalvings) :
    (cell origin d i).left = cell origin (d + 1) (2 * i) := by
  rw [TimeSize.left, cell_middle origin i hd, cell, cell, span_succ hd]
  congr 1
  push_cast
  ring

theorem cell_right (hd : d < maxHalvings) :
    (cell origin d i).right = cell origin (d + 1) (2 * i + 1) := by
  rw [TimeSize.right, cell_middle origin i hd, cell, cell, span_succ hd]
  congr 1
  push_cast
  ring

end Cell

theorem calcDepth_span (hd : d ≤ maxHalvings) : calcDepth pointTimeSpan (span d) = d := by
  have hdiv : pointTimeSpan.tdiv (span d) = 2 ^ d := by
    rw [← two_pow_mul_span hd]
    exact Int.mul_tdiv_cancel _ (Int.ne_of_gt (span_pos hd))
  have hnat : ((2 : Int) ^ d).toNat = 2 ^ d := by
    rw [show ((2 : Int) ^ d) = ((2 ^ d : Nat) : Int) by push_cast; rfl]
    exact Int.toNat_natCast _
  rw [calcDepth, hdiv, hnat]
  exact Nat.clog_pow 2 d (by decide)

end Nerthus.Bysolt
