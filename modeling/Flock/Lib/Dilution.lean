import Mathlib.Algebra.Order.Ring.Defs
import Mathlib.Tactic.Ring
import Mathlib.Tactic.Linarith

/-!
# Charges that compound

A charge of the part `a` of a whole `D` on a stock `s` leaves a stock `g` whose
grown part is at most `a / D` of it. Written without a division that is
`g * (D - a) ≤ s * D`. Charges of the parts `a` and `b` one after the other stay
within one charge of `a + b`: the product of the factors `D / (D - a)` and
`D / (D - b)` is at most `D / (D - (a + b))`, which is the two-factor case of
Weierstrass' product inequality.

In whole numbers the charge is a division with a remainder, and the remainder says
what may be left out of the charged part without the quotient falling
(`charge_sub_eq_iff`).
-/

namespace Dilution

variable {α : Type*} [CommRing α] [LinearOrder α] {D a b s g s₁ : α}

/-- The stock `g` is at most what one charge of the part `a` makes of `s`. -/
def Within (D a s g : α) : Prop := g * (D - a) ≤ s * D

theorem Within.refl (D s : α) : Within D 0 s s := by
  show s * (D - 0) ≤ s * D
  rw [sub_zero]

variable [IsStrictOrderedRing α]

/-- The grown part is at most the part charged for. -/
theorem within_iff_share : Within D a s g ↔ (g - s) * D ≤ g * a := by
  have hl : g * (D - a) = g * D - g * a := by ring
  have hr : (g - s) * D = g * D - s * D := by ring
  unfold Within
  rw [hl, hr]
  constructor <;> intro h <;> linarith

/-- The factors of two charges, against the factor of both parts at once. -/
theorem mul_sub_add_le (ha : 0 ≤ a) (hb : 0 ≤ b) : D * (D - (a + b)) ≤ (D - a) * (D - b) := by
  have hab := mul_nonneg ha hb
  have hr : (D - a) * (D - b) = D * (D - (a + b)) + a * b := by ring
  rw [hr]
  exact le_add_of_nonneg_right hab

/-- Two charges, one after the other. -/
theorem Within.trans (h₁ : Within D a s s₁) (h₂ : Within D b s₁ g) (ha : 0 ≤ a) (hb : 0 ≤ b)
    (hg : 0 ≤ g) (hD : a + b < D) : Within D (a + b) s g := by
  have hpos : 0 < D := lt_of_le_of_lt (add_nonneg ha hb) hD
  have hrest : 0 ≤ D - a := by linarith
  refine le_of_mul_le_mul_right ?_ hpos
  calc g * (D - (a + b)) * D
      = g * (D * (D - (a + b))) := by ring
    _ ≤ g * ((D - a) * (D - b)) := mul_le_mul_of_nonneg_left (mul_sub_add_le ha hb) hg
    _ = g * (D - b) * (D - a) := by ring
    _ ≤ s₁ * D * (D - a) := mul_le_mul_of_nonneg_right h₂ hrest
    _ = s₁ * (D - a) * D := by ring
    _ ≤ s * D * D := mul_le_mul_of_nonneg_right h₁ hpos.le

/-- What the stock may grow to after the first charge leaves the room the second
one needs below a bound `M`. -/
theorem Within.room {M : α} (h : Within D a s s₁) (ha : 0 ≤ a) (hb : 0 ≤ b) (hM : 0 ≤ M)
    (hD : a + b < D) (hroom : s * D < M * (D - (a + b))) : s₁ * D < M * (D - b) := by
  have hpos : 0 < D := lt_of_le_of_lt (add_nonneg ha hb) hD
  have hrest : 0 < D - a := by linarith
  refine lt_of_mul_lt_mul_right ?_ hrest.le
  calc s₁ * D * (D - a)
      = s₁ * (D - a) * D := by ring
    _ ≤ s * D * D := mul_le_mul_of_nonneg_right h hpos.le
    _ < M * (D - (a + b)) * D := mul_lt_mul_of_pos_right hroom hpos
    _ = M * (D * (D - (a + b))) := by ring
    _ ≤ M * ((D - a) * (D - b)) := mul_le_mul_of_nonneg_left (mul_sub_add_le ha hb) hM
    _ = M * (D - b) * (D - a) := by ring

/-! ## In whole numbers -/

/-- The charge of the part `a` is no less than that of a smaller part. -/
theorem charge_sub_le {D s a b : ℕ} (ha : a < D) (hb : b ≤ a) :
    s * (a - b) / (D - (a - b)) ≤ s * a / (D - a) :=
  Nat.div_le_div (Nat.mul_le_mul_left s (Nat.sub_le a b)) (by omega) (by omega)

/-- With the part `b` left out the charge is the same just where the remainder of the whole
charge pays for it, on the stock and on what the stock was charged. -/
theorem charge_sub_eq_iff {D s a b : ℕ} (ha : a < D) (hb : b ≤ a) :
    s * (a - b) / (D - (a - b)) = s * a / (D - a) ↔
      (s + s * a / (D - a)) * b ≤ s * a % (D - a) := by
  have hdiv : s * a / (D - a) * (D - a) + s * a % (D - a) = s * a := Nat.div_add_mod' _ _
  have hle := charge_sub_le (s := s) ha hb
  have heq : s * (a - b) / (D - (a - b)) = s * a / (D - a) ↔
      s * a / (D - a) ≤ s * (a - b) / (D - (a - b)) := ⟨fun h => h.ge, fun h => le_antisymm hle h⟩
  have hsb : s * b ≤ s * a := Nat.mul_le_mul_left s hb
  have hwhole : D - (a - b) = D - a + b := by omega
  rw [heq, Nat.le_div_iff_mul_le (by omega), hwhole, Nat.mul_add, Nat.add_mul, Nat.mul_sub s a b]
  omega

end Dilution
