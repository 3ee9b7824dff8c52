import Mathlib.Algebra.Group.Int.Defs
import Mathlib.Algebra.Group.Nat.Defs
import Mathlib.Tactic.Common

/-!
# Narrowing and saturation of machine integers

The facts about fixed-width integers the arithmetic below needs and core does
not state in one piece: a natural number narrowed to `UInt64` reads back as
itself, and a saturating signed subtraction is the exact difference clamped to
the range of the type.
-/

namespace MachineInt

/-- `u64::try_from`: the value, when it fits. -/
def narrow (x : Nat) : Option UInt64 :=
  if h : x < UInt64.size then some (UInt64.ofNatLT x h) else none

theorem narrow_eq_some {x : Nat} {y : UInt64} : narrow x = some y ↔ y.toNat = x := by
  unfold narrow
  split
  next h =>
    constructor
    · intro hy
      obtain rfl := Option.some.inj hy
      exact UInt64.toNat_ofNatLT
    · rintro rfl
      simp
  next h =>
    constructor
    · intro hy
      cases hy
    · rintro rfl
      exact absurd y.toNat_lt h

theorem narrow_of_lt {x : Nat} (h : x < 2 ^ 64) : narrow x = some (UInt64.ofNat x) := by
  rw [narrow_eq_some, UInt64.toNat_ofNat']
  exact Nat.mod_eq_of_lt h

/-- `i64::saturating_sub`. -/
def saturatingSub (a b : Int64) : Int64 :=
  Int64.ofInt (max (-2 ^ 63) (min (2 ^ 63 - 1) (a.toInt - b.toInt)))

theorem toInt_saturatingSub (a b : Int64) :
    (saturatingSub a b).toInt = max (-2 ^ 63) (min (2 ^ 63 - 1) (a.toInt - b.toInt)) := by
  unfold saturatingSub
  exact Int64.toInt_ofInt_of_le (by omega) (by omega)

/-- No saturation happens between two readings of a clock that is not behind
zero by more than half its range. -/
theorem toInt_saturatingSub_of_fits {a b : Int64} (hl : -2 ^ 63 ≤ a.toInt - b.toInt)
    (hu : a.toInt - b.toInt < 2 ^ 63) : (saturatingSub a b).toInt = a.toInt - b.toInt := by
  rw [toInt_saturatingSub]
  omega

theorem saturatingSub_self (a : Int64) : (saturatingSub a a).toInt = 0 := by
  rw [toInt_saturatingSub_of_fits] <;> omega

end MachineInt
