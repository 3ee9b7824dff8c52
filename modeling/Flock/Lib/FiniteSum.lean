import Mathlib.Algebra.BigOperators.Group.Finset.Basic
import Mathlib.Algebra.Order.BigOperators.Group.Finset
import Mathlib.Data.Fintype.BigOperators

/-!
# Totals of a ledger

A ledger assigns a number to every key of a finite type. These are the facts
about its total that an entry-by-entry argument needs: what rewriting one entry
does to the total, and that two entries together never exceed it.
-/

namespace FiniteSum

variable {ι : Type*} [Fintype ι] [DecidableEq ι]

/-- Two ledgers that differ in one entry only. -/
theorem sum_add_of_eq_off {f g : ι → ℕ} {k : ι} (h : ∀ j, j ≠ k → f j = g j) :
    ∑ j, f j + g k = ∑ j, g j + f k := by
  have hf := Finset.add_sum_erase Finset.univ f (Finset.mem_univ k)
  have hg := Finset.add_sum_erase Finset.univ g (Finset.mem_univ k)
  have he : ∑ j ∈ Finset.univ.erase k, f j = ∑ j ∈ Finset.univ.erase k, g j :=
    Finset.sum_congr rfl fun j hj => h j (Finset.ne_of_mem_erase hj)
  omega

/-- Two different entries fit in the total together. -/
theorem add_le_sum (f : ι → ℕ) {i k : ι} (h : i ≠ k) : f i + f k ≤ ∑ j, f j := by
  have hk := Finset.add_sum_erase Finset.univ f (Finset.mem_univ k)
  have hi : f i ≤ ∑ j ∈ Finset.univ.erase k, f j :=
    Finset.single_le_sum (fun _ _ => Nat.zero_le _)
      (Finset.mem_erase.mpr ⟨h, Finset.mem_univ i⟩)
  omega

/-- If no entry outside `U` falls, what the total gains is at least what the
entries of `U` gain. -/
theorem sum_gain_le {f g : ι → ℕ} {U : Finset ι} (h : ∀ k ∉ U, f k ≤ g k) :
    ∑ k ∈ U, g k + ∑ k, f k ≤ ∑ k ∈ U, f k + ∑ k, g k := by
  have hf := Finset.sum_add_sum_compl U f
  have hg := Finset.sum_add_sum_compl U g
  have hle : ∑ k ∈ Uᶜ, f k ≤ ∑ k ∈ Uᶜ, g k :=
    Finset.sum_le_sum fun k hk => h k (Finset.mem_compl.mp hk)
  omega

/-- In a table with no key twice, what is put on one key sums to itself. -/
theorem sum_map_ite_key {α κ M : Type*} [DecidableEq κ] [AddCommMonoid M] {key : α → κ}
    {l : List α} (h : (l.map key).Nodup) {a : α} (ha : a ∈ l) (x : M) :
    (l.map fun c => if key c = key a then x else 0).sum = x := by
  induction l with
  | nil => cases ha
  | cons c l ih =>
    rw [List.map_cons, List.nodup_cons] at h
    obtain ⟨hnew, hrest⟩ := h
    rw [List.map_cons, List.sum_cons]
    rcases List.mem_cons.mp ha with rfl | ha
    · have hzero : (l.map fun c => if key c = key a then x else 0).sum = 0 := by
        refine List.sum_eq_zero fun y hy => ?_
        obtain ⟨c', hc', rfl⟩ := List.mem_map.mp hy
        have hne : key c' ≠ key a := fun e => hnew (e ▸ List.mem_map_of_mem hc')
        exact if_neg hne
      rw [if_pos rfl, hzero, add_zero]
    · have hne : key c ≠ key a := fun e => hnew (e ▸ List.mem_map_of_mem ha)
      rw [if_neg hne, zero_add]
      exact ih hrest ha

end FiniteSum
