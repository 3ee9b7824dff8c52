import Mathlib.Algebra.Order.Round
import Mathlib.Data.Rat.Floor
import Mathlib.Tactic.FieldSimp
import Mathlib.Tactic.Linarith
import Mathlib.Tactic.Ring

/-!
# Linear interpolation, rounded down

`along a b x n` is the `x`-th of the `n` steps from `a` to `b`, in integers. On a
rising line it is the floor of the exact point, so it stays inside the ends, never
falls from one step to the next and meets both ends.
-/

namespace Interpolate

/-- The exact point. -/
def exactly (a b x n : ℤ) : ℚ := a + (b - a) * x / n

def along (a b x n : ℤ) : ℤ := a + (b - a) * x / n

variable {a b x y n : ℤ}

theorem floor_exactly (hn : 0 ≤ n) : ⌊exactly a b x n⌋ = along a b x n := by
  obtain ⟨k, rfl⟩ := Int.eq_ofNat_of_zero_le hn
  have hq : exactly a b x k = ((a : ℤ) : ℚ) + (((b - a) * x : ℤ) : ℚ) / (k : ℕ) := by
    unfold exactly
    push_cast
    rfl
  rw [hq, Int.floor_intCast_add, Rat.floor_intCast_div_natCast]
  rfl

theorem along_zero (a b n : ℤ) : along a b 0 n = a := by
  unfold along
  rw [Int.mul_zero, Int.zero_ediv, Int.add_zero]

theorem along_self (a b : ℤ) (hn : n ≠ 0) : along a b n n = b := by
  unfold along
  rw [Int.mul_ediv_cancel _ hn]
  omega

theorem along_le_along (hab : a ≤ b) (hn : 0 < n) (h : x ≤ y) : along a b x n ≤ along a b y n := by
  have hd : 0 ≤ b - a := Int.sub_nonneg_of_le hab
  exact Int.add_le_add_left (Int.ediv_le_ediv hn (Int.mul_le_mul_of_nonneg_left h hd)) a

theorem le_along (hab : a ≤ b) (hn : 0 < n) (hx : 0 ≤ x) : a ≤ along a b x n := by
  have h := along_le_along hab hn hx
  rwa [along_zero] at h

theorem along_le (hab : a ≤ b) (hn : 0 < n) (hx : x ≤ n) : along a b x n ≤ b := by
  have h := along_le_along hab hn hx
  rwa [along_self a b (Int.ne_of_gt hn)] at h

/-- Division that truncates is the floor while the numerator is no less than zero. -/
theorem along_eq_tdiv (hab : a ≤ b) (hx : 0 ≤ x) : along a b x n = a + ((b - a) * x).tdiv n := by
  unfold along
  rw [Int.tdiv_eq_ediv_of_nonneg (Int.mul_nonneg (Int.sub_nonneg_of_le hab) hx)]

end Interpolate
