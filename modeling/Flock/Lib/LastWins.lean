import Mathlib.Algebra.BigOperators.Group.List.Basic
import Mathlib.Data.List.AList

/-!
# Entries of which the last one counts

A table filled from a list of entries, each under its key, holds for every key the
last entry that has it. So a list of entries falls into two: those a later entry
replaces (`superseded`), and the others (`surviving`), which are what the table holds.
-/

namespace LastWins

universe u v w

variable {ε : Type u} {κ : Type v} {ν : Type w} [DecidableEq κ] (key : ε → κ) (value : ε → ν)

/-- The entries whose key no later entry has. -/
def surviving : List ε → List ε
  | [] => []
  | e :: es => if key e ∈ es.map key then surviving es else e :: surviving es

/-- The entries whose key a later entry has. -/
def superseded : List ε → List ε
  | [] => []
  | e :: es => if key e ∈ es.map key then e :: superseded es else superseded es

theorem surviving_superseded_perm (es : List ε) :
    List.Perm (surviving key es ++ superseded key es) es := by
  induction es with
  | nil => exact List.Perm.refl []
  | cons e es ih =>
    by_cases hlater : key e ∈ es.map key
    · rw [surviving, superseded, if_pos hlater, if_pos hlater]
      exact List.perm_middle.trans (ih.cons e)
    · rw [surviving, superseded, if_neg hlater, if_neg hlater]
      exact ih.cons e

/-- Two ways to name the keys that are the same ones. -/
theorem surviving_comp {κ' : Type*} [DecidableEq κ'] {f : κ → κ'} (hf : Function.Injective f)
    (es : List ε) : surviving (f ∘ key) es = surviving key es := by
  induction es with
  | nil => rfl
  | cons e es ih =>
    have hmem : (f ∘ key) e ∈ es.map (f ∘ key) ↔ key e ∈ es.map key := by
      rw [← List.map_map]
      exact List.mem_map_of_injective hf
    simp only [surviving, hmem, ih]

/-! ## The table -/

/-- Entry after entry, put in under its key. -/
def table (es : List ε) : AList fun _ : κ => ν :=
  es.foldl (fun m e => m.insert (key e) (value e)) ∅

theorem kerase_eq_filter {k : κ} {l : List ((_ : κ) × ν)} (h : l.NodupKeys) :
    l.kerase k = l.filter fun s => s.1 ≠ k := by
  induction l with
  | nil => rfl
  | cons s l ih =>
    obtain ⟨hs, hl⟩ := List.nodupKeys_cons.mp h
    by_cases hk : k = s.1
    · -- it was the only one
      have hrest : ∀ t ∈ l, decide (t.1 ≠ k) = true := by
        intro t ht
        rw [decide_eq_true_iff, hk]
        intro heq
        exact hs (heq ▸ List.mem_keys_of_mem ht)
      rw [List.kerase_cons_eq hk, List.filter_cons_of_neg (by simpa using hk.symm),
        List.filter_eq_self.mpr hrest]
    · rw [List.kerase_cons_ne hk, List.filter_cons_of_pos (by simpa using Ne.symm hk), ih hl]

/-- Filling a table that holds something already keeps what no entry replaces. -/
theorem entries_foldl_perm (es : List ε) (m : AList fun _ : κ => ν) :
    List.Perm (es.foldl (fun m e => m.insert (key e) (value e)) m).entries
      ((surviving key es).map (fun e => ⟨key e, value e⟩)
        ++ m.entries.filter fun s => s.1 ∉ es.map key) := by
  induction es generalizing m with
  | nil => simp [surviving]
  | cons e es ih =>
    have hrest : (m.entries.kerase (key e)).filter (fun s => s.1 ∉ es.map key)
        = m.entries.filter fun s => s.1 ∉ (e :: es).map key := by
      rw [kerase_eq_filter m.nodupKeys, List.filter_filter]
      refine List.filter_congr fun s _ => ?_
      rw [← Bool.decide_and, decide_eq_decide, List.map_cons, List.mem_cons, not_or, and_comm]
    refine (ih (m.insert (key e) (value e))).trans ?_
    rw [AList.entries_insert, surviving]
    by_cases hlater : key e ∈ es.map key
    · rw [if_pos hlater, List.filter_cons_of_neg (by simpa using hlater), hrest]
    · rw [if_neg hlater, List.filter_cons_of_pos (by simpa using hlater), hrest]
      exact List.perm_middle

theorem entries_table_perm (es : List ε) :
    List.Perm (table key value es).entries
      ((surviving key es).map fun e => ⟨key e, value e⟩) := by
  have h := entries_foldl_perm key value es ∅
  rwa [AList.empty_entries, List.filter_nil, List.append_nil] at h

/-- Keys that are those of the table, each once, bring up the values of the surviving
entries, in some order. -/
theorem lookup_perm_surviving {es : List ε} {ks : List κ} (d : ν) (hdistinct : ks.Nodup)
    (hall : ∀ k ∈ ks, k ∈ table key value es)
    (hsize : (table key value es).keys.length = ks.length) :
    List.Perm (ks.map fun k => ((table key value es).lookup k).getD d)
      ((surviving key es).map value) := by
  have hkeys : List.Perm ks (table key value es).keys :=
    (List.subperm_of_subset hdistinct hall).perm_of_length_le hsize.le
  have hvalues : ((table key value es).keys.map fun k => ((table key value es).lookup k).getD d)
      = (table key value es).entries.map Sigma.snd := by
    show (List.map Sigma.fst _).map _ = _
    rw [List.map_map]
    refine List.map_congr_left fun s hs => ?_
    have hs : (table key value es).lookup s.1 = some s.2 := AList.mem_lookup_iff.mpr hs
    show ((table key value es).lookup s.1).getD d = s.2
    rw [hs]
    rfl
  have hentries := (entries_table_perm key value es).map Sigma.snd
  rw [List.map_map] at hentries
  refine (hkeys.map _).trans ?_
  rw [hvalues]
  exact hentries

end LastWins
