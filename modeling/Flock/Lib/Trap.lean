import Flock.Lib.Outcome
import Mathlib.Algebra.Group.Int.Defs
import Mathlib.Algebra.Group.Nat.Defs

/-!
# Computations that trap

A step of a program can fail with an error of the program, or it can leave the range of
a machine type, which no error of the program stands for: `Trap.outOfRange`. A
computation that carries its range checks along `Tracks` the one without them when it
fails with the same errors, returns the same values, and so never traps.

The checked operations follow, each on the values its type has.
-/

inductive Trap (ε : Type) where
  | fails (e : ε)
  | outOfRange
  deriving DecidableEq, Repr

instance {ε : Type} : Coe ε (Trap ε) := ⟨.fails⟩

instance {ε : Type} : MonadLift (Except ε) (Except (Trap ε)) := ⟨fun x => x.mapError .fails⟩

namespace Trap

open Outcome

variable {ε τ α β : Type} {f : ε → τ}

/-- `c` does what `x` does, under the names `f` has for its errors. -/
def Tracks (f : ε → τ) (c : Except τ α) (x : Except ε α) : Prop := c = x.mapError f

/-- What is lifted tracks itself. -/
theorem tracks_lift (x : Except ε α) : Tracks .fails (liftM x : Except (Trap ε) α) x := rfl

theorem tracks_failIf (f : ε → τ) (c : Prop) [Decidable c] (e : ε) :
    Tracks f (failIf c (f e)) (failIf c e) := by
  unfold failIf
  by_cases hc : c
  · rw [if_pos hc, if_pos hc]
    rfl
  · rw [if_neg hc, if_neg hc]
    rfl

/-- Step by step. The rest has to track only on a value that was returned. -/
theorem Tracks.bind {c : Except τ α} {x : Except ε α} {g : α → Except τ β} {h : α → Except ε β}
    (hx : Tracks f c x) (hrest : ∀ a, x = .ok a → Tracks f (g a) (h a)) :
    Tracks f (c >>= g) (x >>= h) := by
  obtain rfl := hx
  cases x with
  | error e => rfl
  | ok a => exact hrest a rfl

/-- A check in between that passes. -/
theorem Tracks.after {c : Except τ α} {g : α → Except τ β} {x : Except ε β} {a : α}
    (hc : c = .ok a) (hrest : Tracks f (g a) x) : Tracks f (c >>= g) x := by
  rw [hc]
  exact hrest

/-- A step of the other computation that passes. -/
theorem Tracks.before {c : Except τ β} {x : Except ε α} {h : α → Except ε β} {a : α}
    (hx : x = .ok a) (hrest : Tracks f c (h a)) : Tracks f c (x >>= h) := by
  rw [hx]
  exact hrest

theorem Tracks.ite {p : Prop} [Decidable p] {c d : Except τ α} {x y : Except ε α}
    (hpos : p → Tracks f c x) (hneg : ¬p → Tracks f d y) :
    Tracks f (if p then c else d) (if p then x else y) := by
  by_cases hp : p
  · rw [if_pos hp, if_pos hp]
    exact hpos hp
  · rw [if_neg hp, if_neg hp]
    exact hneg hp

/-- Errors renamed twice. -/
theorem Tracks.mapError {σ : Type} {f : ε → σ} {g : σ → τ} {c : Except τ α} {x : Except ε α}
    (h : Tracks (g ∘ f) c x) : Tracks g c (x.mapError f) := by
  obtain rfl := h
  cases x <;> rfl

theorem Tracks.ne_outOfRange {c : Except (Trap ε) α} {x : Except ε α}
    (h : Tracks .fails c x) : c ≠ .error .outOfRange := by
  obtain rfl := h
  cases x with
  | error e => exact fun he => nomatch he
  | ok a => exact fun he => nomatch he

/-! ## Operations with their range -/

/-- `a` when `p` holds. -/
def given (p : Prop) [Decidable p] (a : α) : Except (Trap ε) α :=
  if p then .ok a else .error .outOfRange

theorem given_of {p : Prop} [Decidable p] {a : α} (h : p) :
    (given p a : Except (Trap ε) α) = .ok a := if_pos h

/-- `xs[i]` of a slice. -/
def index (xs : List α) (i : Nat) : Except (Trap ε) α :=
  match xs[i]? with
  | some x => .ok x
  | none => .error .outOfRange

theorem index_of {xs : List α} {i : Nat} {x : α} (h : xs[i]? = some x) :
    (index xs i : Except (Trap ε) α) = .ok x := by
  unfold index
  rw [h]

/-- A `usize` product or sum. -/
def usize (x : Nat) : Except (Trap ε) Nat := given (x < 2 ^ 64) x

/-- A `u8` sum. -/
def u8 (x : Nat) : Except (Trap ε) Nat := given (x < 2 ^ 8) x

/-- `a - b` in `u64` -/
def subU64 (a b : UInt64) : Except (Trap ε) UInt64 := given (b ≤ a) (a - b)

/-- `a - b` in `u128` -/
def subU128 (a b : Nat) : Except (Trap ε) Nat := given (b ≤ a) (a - b)

/-- `a / d` in `u128` -/
def divU128 (a d : Nat) : Except (Trap ε) Nat := given (d ≠ 0) (a / d)

/-- `a - b` in `i64` -/
def subI64 (a b : Int64) : Except (Trap ε) Int64 :=
  given (-2 ^ 63 ≤ a.toInt - b.toInt ∧ a.toInt - b.toInt < 2 ^ 63) (a - b)

/-- The result of an `i128` operation. -/
def i128 (x : Int) : Except (Trap ε) Int := given (-2 ^ 127 ≤ x ∧ x < 2 ^ 127) x

/-- `a / d` in `i128`, which truncates and has no room for `MIN / -1`. -/
def divI128 (a d : Int) : Except (Trap ε) Int := do
  let d ← given (d ≠ 0) d
  i128 (a.tdiv d)

/-- `x as i16` that keeps the value. -/
def asI16 (x : UInt16) : Except (Trap ε) Int16 := given (x.toNat < 2 ^ 15) x.toInt16

/-- `-x` in `i16` -/
def negI16 (x : Int16) : Except (Trap ε) Int16 := given (x.toInt ≠ -2 ^ 15) (-x)

end Trap
