import Mathlib.Algebra.Order.Field.Basic
import Mathlib.Algebra.Order.Floor.Ring
import Mathlib.Tactic.Linarith

/-!
# Scaling a position

`truncate` drops the fraction of a number. A position `t` on a scale of length `s` is the
position `⌊t * d / s⌋` on a scale of length `d`; it lies on the second scale if and only
if `t` lies before the end of the first, and it moves with `t`.
-/

namespace Scaling

variable {K : Type*} [Field K] [LinearOrder K] [FloorRing K]

def truncate (q : K) : ℤ := if 0 ≤ q then ⌊q⌋ else ⌈q⌉

variable {q r s t t' d : K}

theorem truncate_of_nonneg (h : 0 ≤ q) : truncate q = ⌊q⌋ := if_pos h

theorem truncate_of_neg (h : q < 0) : truncate q = ⌈q⌉ := if_neg (not_le.mpr h)

theorem truncate_mono (h : q ≤ r) : truncate q ≤ truncate r := by
  rcases le_or_gt 0 q with hq | hq
  · rw [truncate_of_nonneg hq, truncate_of_nonneg (hq.trans h)]
    exact Int.floor_le_floor h
  · rw [truncate_of_neg hq]
    rcases le_or_gt 0 r with hr | hr
    · have hnonpos : ⌈q⌉ ≤ 0 := Int.ceil_nonpos.mpr hq.le
      rw [truncate_of_nonneg hr]
      exact hnonpos.trans (Int.floor_nonneg.mpr hr)
    · rw [truncate_of_neg hr]
      exact Int.ceil_le_ceil h

variable [IsStrictOrderedRing K]

/-- What lies above minus one loses its sign with its fraction. -/
theorem truncate_nonneg_iff : 0 ≤ truncate q ↔ -1 < q := by
  rcases le_or_gt 0 q with hq | hq
  · rw [truncate_of_nonneg hq, Int.floor_nonneg]
    exact iff_of_true hq (by linarith)
  · have hceil := Int.lt_ceil (z := -1) (a := q)
    rw [Int.cast_neg, Int.cast_one] at hceil
    rw [truncate_of_neg hq, ← hceil]
    exact Int.add_one_le_iff (a := -1)

theorem floor_scale_lt_iff {n : ℤ} (hs : 0 < s) (hn : 0 < n) : ⌊t * n / s⌋ < n ↔ t < s := by
  have hpos : (0 : K) < n := Int.cast_pos.mpr hn
  rw [Int.floor_lt, div_lt_iff₀ hs, mul_comm (n : K) s, mul_lt_mul_iff_left₀ hpos]

theorem floor_scale_mono (hs : 0 < s) (hd : 0 ≤ d) (h : t ≤ t') : ⌊t * d / s⌋ ≤ ⌊t' * d / s⌋ := by
  apply Int.floor_le_floor
  exact div_le_div_of_nonneg_right (mul_le_mul_of_nonneg_right h hd) hs.le

end Scaling
