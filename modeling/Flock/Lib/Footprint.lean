import Flock.Lib.Outcome
import Mathlib.Data.Set.Function

/-!
# Steps that keep to their own keys

A store holds something at every key. A step reads the store and writes to it, or fails, and
then the store stays as it was. `Local R W` says that a step reads keys of `R` only and writes
keys of `W` only: from two stores that agree on `R` it fails with one error, or goes to stores
that still agree there and differ from the ones it began in on `W` only. `Together` is the
postcondition of the two computations, with rules in the shape of a `do` block.

What steps of two parties do, when neither writes what the other reads, does not depend on how
they are interleaved. Each party is answered as if it were alone (`answers_alone`), and the
store is the same in the end (`run_interleaved`).
-/

namespace Footprint

open Outcome

/-! ## Two computations side by side -/

variable {ε : Type*} {α β α' β' : Type} {Q : α → β → Prop} {Q' : α' → β' → Prop}

/-- Both computations return, and what they return is related, or both fail alike. -/
inductive Together (Q : α → β → Prop) : Except ε α → Except ε β → Prop where
  | ok {a : α} {b : β} (h : Q a b) : Together Q (.ok a) (.ok b)
  | error (e : ε) : Together Q (.error e) (.error e)

theorem Together.pure {a : α} {b : β} (h : Q a b) :
    Together Q (pure a : Except ε α) (pure b : Except ε β) := .ok h

theorem Together.bind {x : Except ε α} {y : Except ε β} {f : α → Except ε α'}
    {g : β → Except ε β'} (h : Together Q x y) (hfg : ∀ a b, Q a b → Together Q' (f a) (g b)) :
    Together Q' (x >>= f) (y >>= g) := by
  cases h with
  | ok h => exact hfg _ _ h
  | error e => exact .error e

/-- A step that is one and the same on both sides. -/
theorem Together.read {x : Except ε α} {f : α → Except ε α'} {g : α → Except ε β'}
    (hfg : ∀ a, x = .ok a → Together Q' (f a) (g a)) : Together Q' (x >>= f) (x >>= g) := by
  cases x with
  | ok a => exact hfg a rfl
  | error e => exact .error e

theorem Together.ite {p : Prop} [Decidable p] {x x' : Except ε α} {y y' : Except ε β}
    (hpos : p → Together Q x y) (hneg : ¬p → Together Q x' y') :
    Together Q (if p then x else x') (if p then y else y') := by
  by_cases hp : p
  · rw [if_pos hp, if_pos hp]
    exact hpos hp
  · rw [if_neg hp, if_neg hp]
    exact hneg hp

/-! ## Steps on a store -/

variable {K V C : Type} {R W X : Set K} {f : (K → V) → Except ε (K → V)} {s t : K → V}

/-- The step reads `R` and writes `W`. -/
structure Local (R W : Set K) (f : (K → V) → Except ε (K → V)) : Prop where
  subset : W ⊆ R
  together : ∀ {s t}, Set.EqOn t s R →
    Together (fun s' t' => Set.EqOn t' s' R ∧ Set.EqOn s' s Wᶜ ∧ Set.EqOn t' t Wᶜ) (f s) (f t)

/-- The store after the step, if it failed the store before it. -/
def settle (f : (K → V) → Except ε (K → V)) (s : K → V) : K → V :=
  match f s with
  | .ok s' => s'
  | .error _ => s

/-- How the step ends. -/
def answer (f : (K → V) → Except ε (K → V)) (s : K → V) : Except ε Unit := (f s).map fun _ => ()

theorem Local.settle_frame (h : Local R W f) (s : K → V) : Set.EqOn (settle f s) s Wᶜ := by
  have hboth := h.together (Set.eqOn_refl s R)
  unfold settle
  cases hfs : f s with
  | error e => exact Set.eqOn_refl s Wᶜ
  | ok s' =>
    rw [hfs] at hboth
    cases hboth with
    | ok hQ => exact hQ.2.1

theorem Local.answer_eq (h : Local R W f) (heq : Set.EqOn t s R) : answer f t = answer f s := by
  have hboth := h.together heq
  unfold answer
  cases hfs : f s <;> cases hft : f t <;> rw [hfs, hft] at hboth <;> cases hboth <;> rfl

/-- Stores that agree on what the step reads, and perhaps on more, agree after it. -/
theorem Local.settle_eqOn (h : Local R W f) (hX : R ⊆ X) (heq : Set.EqOn t s X) :
    Set.EqOn (settle f t) (settle f s) X := by
  have hboth := h.together (heq.mono hX)
  unfold settle
  cases hfs : f s with
  | error e =>
    rw [hfs] at hboth
    cases hft : f t with
    | error e' => exact heq
    | ok t' =>
      rw [hft] at hboth
      cases hboth
  | ok s' =>
    rw [hfs] at hboth
    cases hft : f t with
    | error e' =>
      rw [hft] at hboth
      cases hboth
    | ok t' =>
      rw [hft] at hboth
      cases hboth with
      | ok hQ =>
        obtain ⟨hR, hs, ht⟩ := hQ
        intro k hk
        by_cases hkR : k ∈ R
        · exact hR hkR
        · have hkW : k ∈ Wᶜ := fun hkW => hkR (h.subset hkW)
          exact (ht hkW).trans ((heq hk).trans (hs hkW).symm)

/-! ## Runs -/

section Runs

variable (step : C → (K → V) → Except ε (K → V))

def run : List C → (K → V) → K → V
  | [], s => s
  | c :: l, s => run l (settle (step c) s)

/-- Every call of a run with how it ends. -/
def answers : List C → (K → V) → List (C × Except ε Unit)
  | [], _ => []
  | c :: l, s => (c, answer (step c) s) :: answers l (settle (step c) s)

variable {step} {reads writes : C → Set K} {mine : C → Bool} {l l' : List C}

/-- A run writes no key that no call of it writes. -/
theorem run_frame (hstep : ∀ c ∈ l, Local (reads c) (writes c) (step c))
    (hX : ∀ c ∈ l, X ⊆ (writes c)ᶜ) (s : K → V) : Set.EqOn (run step l s) s X := by
  induction l generalizing s with
  | nil => exact Set.eqOn_refl s X
  | cons c l ih =>
    have hlater := ih (fun d hd => hstep d (List.mem_cons_of_mem _ hd))
      (fun d hd => hX d (List.mem_cons_of_mem _ hd)) (settle (step c) s)
    have hfirst := (hstep c (List.mem_cons_self ..)).settle_frame s
    exact hlater.trans (hfirst.mono (hX c (List.mem_cons_self ..)))

/-- My calls among the others, and alone: `X` holds what mine read, and the others write nothing
of it. -/
theorem run_alone (hstep : ∀ c ∈ l, Local (reads c) (writes c) (step c))
    (hmine : ∀ c ∈ l, mine c = true → reads c ⊆ X)
    (hothers : ∀ c ∈ l, mine c = false → X ⊆ (writes c)ᶜ) (heq : Set.EqOn t s X) :
    Set.EqOn (run step l t) (run step (l.filter mine) s) X ∧
      (answers step l t).filter (mine ·.1) = answers step (l.filter mine) s := by
  induction l generalizing s t with
  | nil => exact ⟨heq, rfl⟩
  | cons c l ih =>
    have hc := hstep c (List.mem_cons_self ..)
    have hrest : ∀ s' t', Set.EqOn t' s' X →
        Set.EqOn (run step l t') (run step (l.filter mine) s') X ∧
          (answers step l t').filter (mine ·.1) = answers step (l.filter mine) s' :=
      fun s' t' => ih (fun d hd => hstep d (List.mem_cons_of_mem _ hd))
        (fun d hd => hmine d (List.mem_cons_of_mem _ hd))
        (fun d hd => hothers d (List.mem_cons_of_mem _ hd))
    cases hm : mine c with
    | true =>
      have hR := hmine c (List.mem_cons_self ..) hm
      obtain ⟨hrun, hanswers⟩ := hrest _ _ (hc.settle_eqOn hR heq)
      rw [List.filter_cons_of_pos hm]
      refine ⟨hrun, ?_⟩
      rw [answers, answers, List.filter_cons, if_pos hm, hc.answer_eq (heq.mono hR), hanswers]
    | false =>
      have hoff := hothers c (List.mem_cons_self ..) hm
      have hneg : ¬ mine c = true := by
        rw [hm]
        exact Bool.false_ne_true
      rw [List.filter_cons_of_neg hneg]
      obtain ⟨hrun, hanswers⟩ := hrest _ _ (((hc.settle_frame t).mono hoff).trans heq)
      refine ⟨hrun, ?_⟩
      rw [answers, List.filter_cons, if_neg hneg, hanswers]

/-- No call of one party writes what a call of the other reads. -/
def Apart (reads writes : C → Set K) (mine : C → Bool) (l : List C) : Prop :=
  ∀ c ∈ l, ∀ d ∈ l, mine c = true → mine d = false →
    reads d ⊆ (writes c)ᶜ ∧ reads c ⊆ (writes d)ᶜ

theorem Apart.symm (h : Apart reads writes mine l) : Apart reads writes (fun c => !mine c) l := by
  intro c hc d hd hmine hother
  rw [Bool.not_eq_true'] at hmine
  rw [Bool.not_eq_false'] at hother
  exact (h d hd c hc hother hmine).symm

/-- Everybody's calls are answered as if the others had made none. -/
theorem answers_alone (hstep : ∀ c ∈ l, Local (reads c) (writes c) (step c))
    (hapart : Apart reads writes mine l) (s : K → V) :
    Set.EqOn (run step l s) (run step (l.filter mine) s)
        {k | ∃ c ∈ l, mine c = true ∧ k ∈ reads c} ∧
      (answers step l s).filter (mine ·.1) = answers step (l.filter mine) s := by
  refine run_alone hstep ?_ ?_ (Set.eqOn_refl s _)
  · intro c hc hm k hk
    exact ⟨c, hc, hm, hk⟩
  · intro d hd hm k hk
    obtain ⟨c, hc, hmine, hr⟩ := hk
    exact (hapart c hc d hd hmine hm).2 hr

theorem mem_iff_of_filter (hmine : l'.filter mine = l.filter mine)
    (hothers : (l'.filter fun c => !mine c) = l.filter fun c => !mine c) (c : C) :
    c ∈ l' ↔ c ∈ l := by
  cases hm : mine c with
  | true =>
    have h : c ∈ l'.filter mine ↔ c ∈ l.filter mine := by rw [hmine]
    rw [List.mem_filter, List.mem_filter] at h
    simpa only [hm, and_true] using h
  | false =>
    have h : c ∈ (l'.filter fun c => !mine c) ↔ c ∈ l.filter fun c => !mine c := by rw [hothers]
    rw [List.mem_filter, List.mem_filter] at h
    simpa only [hm, Bool.not_false, and_true] using h

/-- Two interleavings of the calls of two parties end in one store. -/
theorem run_interleaved (hstep : ∀ c ∈ l, Local (reads c) (writes c) (step c))
    (hapart : Apart reads writes mine l) (hmine : l'.filter mine = l.filter mine)
    (hothers : (l'.filter fun c => !mine c) = l.filter fun c => !mine c) (s : K → V) :
    run step l' s = run step l s := by
  have hmem := mem_iff_of_filter hmine hothers
  have hstep' : ∀ c ∈ l', Local (reads c) (writes c) (step c) :=
    fun c hc => hstep c ((hmem c).mp hc)
  have hapart' : Apart reads writes mine l' := by
    intro c hc d hd
    exact hapart c ((hmem c).mp hc) d ((hmem d).mp hd)
  funext k
  by_cases hread : ∃ c ∈ l, k ∈ reads c
  · obtain ⟨c, hc, hk⟩ := hread
    have hc' := (hmem c).mpr hc
    cases hm : mine c with
    | true =>
      have h := (answers_alone hstep hapart s).1 ⟨c, hc, hm, hk⟩
      have h' := (answers_alone hstep' hapart' s).1 ⟨c, hc', hm, hk⟩
      rw [hmine] at h'
      exact h'.trans h.symm
    | false =>
      have hm' : (!mine c) = true := by rw [hm, Bool.not_false]
      have h := (answers_alone hstep hapart.symm s).1 ⟨c, hc, hm', hk⟩
      have h' := (answers_alone hstep' hapart'.symm s).1 ⟨c, hc', hm', hk⟩
      rw [hothers] at h'
      exact h'.trans h.symm
  · -- what nobody reads nobody writes
    have hoff : ∀ c ∈ l, {k} ⊆ (writes c)ᶜ := by
      intro c hc
      rw [Set.singleton_subset_iff]
      exact fun hw => hread ⟨c, hc, (hstep c hc).subset hw⟩
    have h := run_frame hstep hoff s (Set.mem_singleton k)
    have h' := run_frame hstep' (fun c hc => hoff c ((hmem c).mp hc)) s (Set.mem_singleton k)
    exact h'.trans h.symm

end Runs

end Footprint
