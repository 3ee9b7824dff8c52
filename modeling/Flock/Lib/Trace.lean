import Mathlib.Data.List.Chain

/-!
# What a quantity rises and falls by along a run

A trace lists the values of a quantity one after another. `raised` adds up its
rises and `lowered` its falls, so that the last value is the first, plus what it
was raised by, less what it was lowered by. A quantity whose falls all stop at a
level or above it falls only out of what it stood above that level, at the start
or after a rise.
-/

namespace Trace

def raised : List Nat → Nat
  | a :: b :: l => (b - a) + raised (b :: l)
  | _ => 0

def lowered : List Nat → Nat
  | a :: b :: l => (a - b) + lowered (b :: l)
  | _ => 0

@[simp] theorem raised_cons_cons (a b : Nat) (l : List Nat) :
    raised (a :: b :: l) = (b - a) + raised (b :: l) := rfl

@[simp] theorem lowered_cons_cons (a b : Nat) (l : List Nat) :
    lowered (a :: b :: l) = (a - b) + lowered (b :: l) := rfl

/-- The books of a quantity `f` along a run balance. -/
theorem getLast_add_lowered {α : Type*} (f : α → Nat) (a : α) (l : List α) :
    f ((a :: l).getLast (List.cons_ne_nil a l)) + lowered ((a :: l).map f)
      = f a + raised ((a :: l).map f) := by
  induction l generalizing a with
  | nil => rfl
  | cons b l ih =>
    have hrest := ih b
    rw [List.map_cons] at hrest
    rw [List.getLast_cons (List.cons_ne_nil b l), List.map_cons, List.map_cons, lowered_cons_cons,
      raised_cons_cons]
    omega

/-- Falls that stop at `t` or above come out of what stood above `t`. -/
theorem lowered_le_of_isChain {t a : Nat} {l : List Nat}
    (h : (a :: l).IsChain fun x y => y < x → t ≤ y) :
    lowered (a :: l) = 0 ∨ t + lowered (a :: l) ≤ a + raised (a :: l) := by
  induction l generalizing a with
  | nil => exact .inl rfl
  | cons b l ih =>
    obtain ⟨hstep, hrest⟩ := List.isChain_cons_cons.mp h
    have hbooks := getLast_add_lowered id b l
    rw [List.map_id, id, id] at hbooks
    rw [lowered_cons_cons, raised_cons_cons]
    rcases ih hrest with hzero | hout
    · -- nothing falls later: the first step is the only one that may have
      by_cases hfall : b < a
      · have := hstep hfall
        omega
      · omega
    · by_cases hfall : b < a
      · omega
      · omega

/-- A quantity that never rises. -/
theorem raised_of_antitone {l : List Nat} (h : l.IsChain fun x y => y ≤ x) : raised l = 0 := by
  induction h with
  | nil => rfl
  | singleton a => rfl
  | cons_cons hstep hrest ih =>
    rw [raised_cons_cons, ih]
    omega

end Trace
