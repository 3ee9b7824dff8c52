import Mathlib.Algebra.Order.Floor.Div
import Mathlib.Algebra.Order.Ring.Nat
import Mathlib.Tactic.Linarith
import Mathlib.Tactic.Ring

/-!
# Rounding up

`slack d a` is what rounding `a` up to a multiple of `d` adds to it. A price that
is a ceiling of a ceiling adds two of them, and when it starts from a value that
was itself rounded down, `price_ge_iff` says when the two make that good.
-/

namespace Rounding

def slack (d a : ℕ) : ℕ := a ⌈/⌉ d * d - a

theorem le_ceilDiv_mul {d : ℕ} (hd : 0 < d) (a : ℕ) : a ≤ a ⌈/⌉ d * d := by
  have h : a ≤ d • (a ⌈/⌉ d) := le_smul_ceilDiv hd
  rwa [smul_eq_mul, Nat.mul_comm] at h

theorem ceilDiv_mul {d : ℕ} (hd : 0 < d) (a : ℕ) : a ⌈/⌉ d * d = a + slack d a :=
  (Nat.add_sub_cancel' (le_ceilDiv_mul hd a)).symm

theorem ceilDiv_mul_lt {d : ℕ} (hd : 0 < d) (a : ℕ) : a ⌈/⌉ d * d < a + d := by
  rw [Nat.ceilDiv_eq_add_pred_div]
  have := Nat.div_mul_le_self (a + d - 1) d
  omega

theorem ceilDiv_le_ceilDiv {d a b : ℕ} (hd : 0 < d) (h : a ≤ b) : a ⌈/⌉ d ≤ b ⌈/⌉ d :=
  (gc_smul_ceilDiv hd).monotone_l h

/-- Rounding up in pieces costs no less. -/
theorem ceilDiv_add_le {d : ℕ} (hd : 0 < d) (a b : ℕ) : (a + b) ⌈/⌉ d ≤ a ⌈/⌉ d + b ⌈/⌉ d := by
  rw [ceilDiv_le_iff_le_mul hd, Nat.mul_add, Nat.mul_comm d, Nat.mul_comm d]
  exact Nat.add_le_add (le_ceilDiv_mul hd a) (le_ceilDiv_mul hd b)

theorem ceilDiv_sum_le {α : Type*} {d : ℕ} (hd : 0 < d) (f : α → ℕ) (l : List α) :
    (l.map f).sum ⌈/⌉ d ≤ (l.map fun a => f a ⌈/⌉ d).sum := by
  induction l with
  | nil => simp
  | cons a l ih =>
    rw [List.map_cons, List.sum_cons, List.map_cons, List.sum_cons]
    exact (ceilDiv_add_le hd _ _).trans (Nat.add_le_add_left ih _)

/-- The value `A / D`, rounded down, is marked by `k / N`, rounded up, and bought
at `P / E` a piece, rounded up. What is paid is worth the mark on the exact value
just when the two ceilings add what the floor takes off. -/
theorem price_ge_iff {A D k N E P : ℕ} (hN : 0 < N) (hP : 0 < P) :
    A * k * E ≤ ((A / D * k) ⌈/⌉ N * E) ⌈/⌉ P * P * N * D ↔
      A % D * k * E ≤
        (slack N (A / D * k) * E + N * slack P ((A / D * k) ⌈/⌉ N * E)) * D := by
  have hvalue : A / D * D + A % D = A := Nat.div_add_mod' A D
  have hmark := ceilDiv_mul hN (A / D * k)
  have hpaid := ceilDiv_mul hP ((A / D * k) ⌈/⌉ N * E)
  have hleft : A * k * E = A / D * k * E * D + A % D * k * E := by
    nth_rewrite 1 [← hvalue]
    ring
  have hright : ((A / D * k) ⌈/⌉ N * E) ⌈/⌉ P * P * N * D = A / D * k * E * D +
      (slack N (A / D * k) * E + N * slack P ((A / D * k) ⌈/⌉ N * E)) * D := by
    rw [hpaid]
    calc ((A / D * k) ⌈/⌉ N * E + slack P ((A / D * k) ⌈/⌉ N * E)) * N * D
        = ((A / D * k) ⌈/⌉ N * N * E + N * slack P ((A / D * k) ⌈/⌉ N * E)) * D := by ring
      _ = _ := by
        rw [hmark]
        ring
  rw [hleft, hright]
  exact Nat.add_le_add_iff_left

end Rounding
