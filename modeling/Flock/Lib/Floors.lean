import Mathlib.Algebra.BigOperators.Group.List.Basic
import Mathlib.Algebra.Order.BigOperators.Group.List
import Mathlib.Algebra.Order.Floor.Ring
import Mathlib.Tactic.Linarith
import Mathlib.Tactic.Ring

/-!
# Rounding down, many times

Two uses of the floor. `shares` splits a whole in proportion to a list of amounts:
each share loses less than one, so the list loses less than its length. `outward`
takes a value through two changes of unit and `inward` takes it back, with a floor
at every step: what is lost on the way is bounded by the units it was rounded in.
-/

namespace Floors

/-! ## Shares of a whole -/

section Shares

def shares (whole : ℤ) (vs : List ℤ) : List ℤ := vs.map fun v => v * whole / vs.sum

variable {D K : ℤ} {vs : List ℤ}

theorem sum_quotients_mul_le (hD : 0 < D) (vs : List ℤ) :
    (vs.map fun v => v * K / D).sum * D ≤ vs.sum * K := by
  induction vs with
  | nil => simp
  | cons v vs ih =>
    have hv := Int.ediv_mul_le (v * K) (Int.ne_of_gt hD)
    rw [List.map_cons, List.sum_cons, List.sum_cons, Int.add_mul, Int.add_mul]
    omega

theorem lt_sum_quotients (hD : 0 < D) (hne : vs ≠ []) :
    vs.sum * K < ((vs.map fun v => v * K / D).sum + vs.length) * D := by
  induction vs with
  | nil => exact absurd rfl hne
  | cons v vs ih =>
    have hv := Int.lt_ediv_add_one_mul_self (v * K) hD
    rw [List.map_cons, List.sum_cons, List.sum_cons, List.length_cons, Int.add_mul]
    push_cast
    by_cases hnil : vs = []
    · rw [hnil]
      simpa using hv
    · have hrest := ih hnil
      have hsplit : (v * K / D + (vs.map fun v => v * K / D).sum + (vs.length + 1)) * D =
          (v * K / D + 1) * D + ((vs.map fun v => v * K / D).sum + vs.length) * D := by ring
      omega

/-- The shares do not exceed the whole. -/
theorem sum_shares_le (hD : 0 < vs.sum) : (shares K vs).sum ≤ K := by
  refine Int.le_of_mul_le_mul_right ?_ hD
  rw [Int.mul_comm K]
  exact sum_quotients_mul_le hD vs

/-- They fall short of it by less than their number. -/
theorem lt_sum_shares (hD : 0 < vs.sum) : K - vs.length < (shares K vs).sum := by
  have hne : vs ≠ [] := by
    intro h
    rw [h, List.sum_nil] at hD
    omega
  have h : K * vs.sum < ((shares K vs).sum + vs.length) * vs.sum := by
    rw [Int.mul_comm K]
    exact lt_sum_quotients hD hne
  have := Int.lt_of_mul_lt_mul_right h hD.le
  omega

theorem share_mono (hK : 0 ≤ K) (hD : 0 < D) {v v' : ℤ} (h : v ≤ v') : v * K / D ≤ v' * K / D :=
  Int.ediv_le_ediv hD (Int.mul_le_mul_of_nonneg_right h hK)

/-- Of amounts that are not negative, no share is, and none exceeds the whole. -/
theorem mem_shares (hK : 0 ≤ K) (hD : 0 < vs.sum) (hvs : ∀ v ∈ vs, 0 ≤ v) {x : ℤ}
    (hx : x ∈ shares K vs) : 0 ≤ x ∧ x ≤ K := by
  obtain ⟨v, hv, rfl⟩ := List.mem_map.mp hx
  constructor
  · exact Int.ediv_nonneg (Int.mul_nonneg (hvs v hv) hK) hD.le
  · have hle : v ≤ vs.sum := List.single_le_sum hvs v hv
    refine Int.ediv_le_of_le_mul hD ?_
    rw [Int.mul_comm K]
    exact Int.mul_le_mul_of_nonneg_right hle hK

end Shares

/-! ## There and back -/

section Steps

variable {α : Type*} [Field α] [LinearOrder α] [IsStrictOrderedRing α] [FloorRing α] {r s x : α}

/-- `x` in whole units of `r`, and those in whole units of `s`. -/
def outward (r s x : α) : ℤ := ⌊(⌊(⌊x⌋ : α) / r⌋ : α) / s⌋

/-- `u` units of `s`, in whole units of `r`, and their whole value. -/
def inward (r s : α) (u : ℤ) : ℤ := ⌊(⌊(u : α) * s⌋ : α) * r⌋

theorem floor_div_mul_le (hr : 0 < r) (y : α) : (⌊y / r⌋ : α) * r ≤ y :=
  (le_div_iff₀ hr).mp (Int.floor_le _)

theorem lt_floor_div_mul (hr : 0 < r) (y : α) : y < (⌊y / r⌋ + 1) * r :=
  (div_lt_iff₀ hr).mp (Int.lt_floor_add_one _)

theorem outward_nonneg (hr : 0 < r) (hs : 0 < s) (hx : 0 ≤ x) : 0 ≤ outward r s x := by
  have ht : (0 : α) ≤ ⌊x⌋ := Int.cast_nonneg (Int.floor_nonneg.mpr hx)
  have ha : (0 : α) ≤ ⌊(⌊x⌋ : α) / r⌋ :=
    Int.cast_nonneg (Int.floor_nonneg.mpr (div_nonneg ht hr.le))
  exact Int.floor_nonneg.mpr (div_nonneg ha hs.le)

/-- There and back is no gain. -/
theorem inward_outward_le (hr : 0 < r) (hs : 0 < s) :
    (inward r s (outward r s x) : α) ≤ x := by
  unfold inward outward
  set t : ℤ := ⌊x⌋
  set a : ℤ := ⌊(t : α) / r⌋
  set u : ℤ := ⌊(a : α) / s⌋
  set b : ℤ := ⌊(u : α) * s⌋
  calc ((⌊(b : α) * r⌋ : ℤ) : α) ≤ b * r := Int.floor_le _
    _ ≤ u * s * r := mul_le_mul_of_nonneg_right (Int.floor_le _) hr.le
    _ ≤ a * r := mul_le_mul_of_nonneg_right (floor_div_mul_le hs a) hr.le
    _ ≤ t := floor_div_mul_le hr t
    _ ≤ x := Int.floor_le x

/-- What is lost there and back: one at each end, and between them what one unit of
`s` and two units of `r` are worth. -/
theorem sub_inward_outward_lt (hr : 0 < r) (hs : 0 < s) :
    x - inward r s (outward r s x) < 2 + (2 + s) * r := by
  unfold inward outward
  set t : ℤ := ⌊x⌋
  set a : ℤ := ⌊(t : α) / r⌋
  set u : ℤ := ⌊(a : α) / s⌋
  set b : ℤ := ⌊(u : α) * s⌋
  have hx : x < t + 1 := Int.lt_floor_add_one x
  have ht : (t : α) < (a + 1) * r := lt_floor_div_mul hr t
  have ha : (a : α) < (u + 1) * s := lt_floor_div_mul hs a
  have hb : (u : α) * s < b + 1 := Int.lt_floor_add_one _
  have hv : (b : α) * r < (⌊(b : α) * r⌋ : ℤ) + 1 := Int.lt_floor_add_one _
  have hunit : ((a : α) - s - 1) * r < b * r := mul_lt_mul_of_pos_right (by linarith) hr
  linarith

end Steps

/-! ## Sums over the field -/

section Sums

variable {α : Type*} [Field α] [LinearOrder α] [IsStrictOrderedRing α]

/-- A sum of integers, each bounded over the field. -/
theorem sum_map_le {ι : Type*} {f : ι → ℤ} {g : ι → α} {l : List ι}
    (h : ∀ i ∈ l, (f i : α) ≤ g i) : ((l.map f).sum : α) ≤ (l.map g).sum := by
  induction l with
  | nil => simp
  | cons i l ih =>
    have hi := h i (List.mem_cons_self ..)
    have hl := ih fun j hj => h j (List.mem_cons_of_mem _ hj)
    rw [List.map_cons, List.map_cons, List.sum_cons, List.sum_cons, Int.cast_add]
    exact add_le_add hi hl

/-- The parts `w / k` of `c` add up to the part of their sum. -/
theorem sum_parts (c k : α) (l : List ℤ) :
    (l.map fun w : ℤ => c * (w : α) / k).sum = c * (l.sum : ℤ) / k := by
  induction l with
  | nil => simp
  | cons w l ih =>
    rw [List.map_cons, List.sum_cons, List.sum_cons, ih]
    push_cast
    ring

end Sums

end Floors
