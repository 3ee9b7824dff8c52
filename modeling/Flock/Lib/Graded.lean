import Flock.Lib.Outcome
import Mathlib.Algebra.Group.Defs

/-!
# Computations that keep a balance

Going from one state of a system to another is good for something: a quantity moved, a
cost, a gain. `Graded` is a relation between states with a grade that says what the way
was good for, where grades add up along the way. `Earns` is the postcondition of a
fallible computation that returns a state: whatever it returns, the way there had this
grade. Its rules follow the shape of a `do` block, so that the grade of a handler is the
sum of the grades of its steps, and `Along` adds up a whole run.
-/

/-- A relation between states that adds up its grades. -/
structure Graded (S G : Type*) [AddMonoid G] where
  rel : G → S → S → Prop
  refl : ∀ s, rel 0 s s
  trans : ∀ {g g' s t u}, rel g s t → rel g' t u → rel (g + g') s u

namespace Graded

open Outcome

variable {ε : Type*} {S α : Type} {G : Type*} [AddMonoid G] (R : Graded S G)

/-- Whatever `x` returns, `s` went there with the grade `g`. -/
def Earns (s : S) (g : G) (x : Except ε S) : Prop := ∀ t, x = .ok t → R.rel g s t

variable {R} {s : S} {g g' : G}

theorem earns_pure (s : S) : R.Earns s 0 (pure s : Except ε S) := by
  intro t ht
  rw [← pure_ok_iff.mp ht]
  exact R.refl s

theorem earns_error (s : S) (g : G) (e : ε) : R.Earns s g (.error e : Except ε S) := by
  intro t ht
  cases ht

/-- What is known of the state a computation began in may help with its grade. -/
theorem Earns.imp {x : Except ε S} (h : R.Earns s g x)
    (himp : ∀ t, x = .ok t → R.rel g s t → R.rel g' s t) : R.Earns s g' x :=
  fun t ht => himp t ht (h t ht)

/-- A step that brings the state to `t` on the way to returning `a`. -/
theorem earns_bind {x : Except ε α} {f : α → Except ε S}
    (h : ∀ a, x = .ok a → ∃ t, R.rel g s t ∧ R.Earns t g' (f a)) : R.Earns s (g + g') (x >>= f) := by
  intro u hu
  obtain ⟨a, ha, hfa⟩ := bind_ok_iff.mp hu
  obtain ⟨t, hst, hrest⟩ := h a ha
  exact R.trans hst (hrest u hfa)

/-- A step that returns the state. -/
theorem Earns.bind {x : Except ε S} {f : S → Except ε S} (hx : R.Earns s g x)
    (hf : ∀ t, x = .ok t → R.Earns t g' (f t)) : R.Earns s (g + g') (x >>= f) :=
  earns_bind fun t ht => ⟨t, hx t ht, hf t ht⟩

/-- A step of no grade that returns more than the state, or something else. -/
theorem earns_through {x : Except ε α} {f : α → Except ε S}
    (h : ∀ a, x = .ok a → ∃ t, R.rel 0 s t ∧ R.Earns t g (f a)) : R.Earns s g (x >>= f) := by
  rw [← zero_add g]
  exact earns_bind h

/-- A check or a read: the state stays. -/
theorem earns_read {x : Except ε α} {f : α → Except ε S}
    (h : ∀ a, x = .ok a → R.Earns s g (f a)) : R.Earns s g (x >>= f) :=
  earns_through fun a ha => ⟨s, R.refl s, h a ha⟩

/-- A step of no grade in front. -/
theorem Earns.before {x : Except ε S} {f : S → Except ε S} (hx : R.Earns s 0 x)
    (hf : ∀ t, x = .ok t → R.Earns t g (f t)) : R.Earns s g (x >>= f) :=
  earns_through fun t ht => ⟨t, hx t ht, hf t ht⟩

/-- A step of no grade behind. -/
theorem Earns.after {x : Except ε S} {f : S → Except ε S} (hx : R.Earns s g x)
    (hf : ∀ t, x = .ok t → R.Earns t 0 (f t)) : R.Earns s g (x >>= f) := by
  rw [← add_zero g]
  exact hx.bind hf

theorem earns_ite {p : Prop} [Decidable p] {x y : Except ε S} (hpos : p → R.Earns s g x)
    (hneg : ¬p → R.Earns s g y) : R.Earns s g (if p then x else y) := by
  by_cases hp : p
  · rw [if_pos hp]
    exact hpos hp
  · rw [if_neg hp]
    exact hneg hp

/-! ### Runs -/

/-- Steps one after another, each with its grade. -/
inductive Along (step : G → S → S → Prop) : G → S → S → Prop where
  | refl (s : S) : Along step 0 s s
  | tail {g g' : G} {s t u : S} (run : Along step g s t) (last : step g' t u) :
      Along step (g + g') s u

/-- The run lemma: what holds of every step in a state that satisfies `P` holds of a run
that begins in one. -/
theorem Along.rel {step : G → S → S → Prop} {P : S → Prop} {t : S}
    (hstep : ∀ {g s t}, P s → step g s t → R.rel g s t ∧ P t) (hs : P s)
    (h : Along step g s t) : R.rel g s t ∧ P t := by
  induction h with
  | refl s => exact ⟨R.refl s, hs⟩
  | tail run last ih =>
    obtain ⟨hrel, ht⟩ := ih hs
    obtain ⟨hlast, hu⟩ := hstep ht last
    exact ⟨R.trans hrel hlast, hu⟩

end Graded
