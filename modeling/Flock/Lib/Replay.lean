import Flock.Lib.Outcome

/-!
# Playing a list of actions against a system

`run` takes the actions one after another and stops at the first that fails.
Whoever made the list has a book of their own: an abstract state, a guard that
says when an action fits into it, and what it is afterwards. `Books` says that
book and system keep together: an action the system takes fits and leaves the
two in agreement, and an action that fits is refused for none but the excused
reasons. Then a list that is taken to its end fits from one end to the other
(`Books.run_ok`), and one that fits is cut short by an excuse only
(`Books.run_only`).
-/

namespace Replay

open Outcome

variable {ε W A B : Type}

def run (step : W → B → Except ε W) : W → List B → Except ε W
  | w, [] => .ok w
  | w, b :: bs => do
    let w ← step w b
    run step w bs

/-- Every action fits where the ones before it leave the book. -/
def Fits (guard : A → B → Prop) (after : A → B → A) : A → List B → Prop
  | _, [] => True
  | a, b :: bs => guard a b ∧ Fits guard after (after a b) bs

variable {step : W → B → Except ε W} {guard : A → B → Prop} {after : A → B → A}

/-- The last action fits where all the others leave the book. -/
theorem fits_concat {a : A} {bs : List B} {b : B} : Fits guard after a (bs ++ [b]) ↔
    Fits guard after a bs ∧ guard (bs.foldl after a) b := by
  induction bs generalizing a with
  | nil => exact and_comm
  | cons b' bs ih => rw [List.cons_append, Fits, ih, Fits, and_assoc, List.foldl_cons]

/-- A book is as good as another that admits the same and moves alike. -/
theorem fits_map {A' B' : Type} {guard' : A' → B' → Prop} {after' : A' → B' → A'} {f : A → A'}
    {g : B → B'} {bs : List B} (hguard : ∀ a, ∀ b ∈ bs, guard a b ↔ guard' (f a) (g b))
    (hafter : ∀ a, ∀ b ∈ bs, f (after a b) = after' (f a) (g b)) {a : A} :
    Fits guard after a bs ↔ Fits guard' after' (f a) (bs.map g) := by
  induction bs generalizing a with
  | nil => exact Iff.rfl
  | cons b bs ih =>
    rw [Fits, List.map_cons, Fits, hguard a b List.mem_cons_self,
      ih (fun a b' hb' => hguard a b' (List.mem_cons_of_mem _ hb'))
        fun a b' hb' => hafter a b' (List.mem_cons_of_mem _ hb'),
      hafter a b List.mem_cons_self]

/-- `R` relates the system to the book, `P` is what is known of an action, and
`E` are the excused errors. -/
structure Books (step : W → B → Except ε W) (guard : A → B → Prop) (after : A → B → A)
    (R : W → A → Prop) (P : B → Prop) (E : ε → Prop) : Prop where
  taken : ∀ {w a b w'}, R w a → P b → step w b = .ok w' → guard a b ∧ R w' (after a b)
  refused : ∀ {w a b}, R w a → P b → guard a b → Only E (step w b)

namespace Books

variable {R : W → A → Prop} {P : B → Prop} {E : ε → Prop}
  (h : Books step guard after R P E)
include h

/-- The run lemma, first half: a list that the system took fits. -/
theorem run_ok {w w' : W} {a : A} {bs : List B} (hR : R w a) (hP : ∀ b ∈ bs, P b)
    (hrun : run step w bs = .ok w') : Fits guard after a bs := by
  induction bs generalizing w a with
  | nil => trivial
  | cons b bs ih =>
    obtain ⟨w₁, hb, hrest⟩ := bind_ok_iff.mp hrun
    obtain ⟨hguard, hR₁⟩ := h.taken hR (hP b (List.mem_cons_self ..)) hb
    exact ⟨hguard, ih hR₁ (fun b' hb' => hP b' (List.mem_cons_of_mem _ hb')) hrest⟩

/-- The run lemma, second half: a list that fits stops for an excused reason only. -/
theorem run_only {w : W} {a : A} {bs : List B} (hR : R w a) (hP : ∀ b ∈ bs, P b)
    (hfits : Fits guard after a bs) : Only E (run step w bs) := by
  induction bs generalizing w a with
  | nil => exact only_ok E w
  | cons b bs ih =>
    obtain ⟨hguard, hrest⟩ := hfits
    have hb := hP b (List.mem_cons_self ..)
    refine bind_only (h.refused hR hb hguard) fun w₁ hw₁ => ?_
    obtain ⟨-, hR₁⟩ := h.taken hR hb hw₁
    exact ih hR₁ (fun b' hb' => hP b' (List.mem_cons_of_mem _ hb')) hrest

end Books

end Replay
