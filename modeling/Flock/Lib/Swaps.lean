import Flock.Lib.Replay
import Mathlib.Algebra.BigOperators.Group.Finset.Basic
import Mathlib.Algebra.BigOperators.Intervals
import Mathlib.Data.List.Induction

/-!
# Swaps against a stock

A vault and a purse hold amounts of several goods. A swap takes some of one good out of
the vault and pays for it with some of another, out of the purse. A good has a floor in the
vault, below which nothing is taken, and a cap, above which nothing is paid. What is taken
can be paid again, so a list of swaps does not fit or fail by its totals in general.

It does when the swaps come in the order of the goods they take (`fits_iff`): by then
everything that goods in front of it pay into a good is there, and nothing that goods behind
it pay. `swapTable` is such a list, one swap for each pair of goods.
-/

namespace Swaps

open Replay

structure Swap (ι : Type) where
  out : ι
  into : ι
  taken : ℕ
  paid : ℕ

structure Stock (ι : Type) where
  vault : ι → ℕ
  held : ι → ℕ

variable {ι : Type} [LinearOrder ι]

/-- The vault has the amount above the floor, and room for the price below the cap; the
purse has the price. -/
def Stock.Admits (floor cap : ι → ℕ) (stock : Stock ι) (t : Swap ι) : Prop :=
  floor t.out + t.taken ≤ stock.vault t.out ∧ stock.vault t.into + t.paid ≤ cap t.into ∧
    t.paid ≤ stock.held t.into

def Stock.after (stock : Stock ι) (t : Swap ι) : Stock ι where
  vault i := if i = t.out then stock.vault i - t.taken
    else if i = t.into then stock.vault i + t.paid else stock.vault i
  held i := if i = t.out then stock.held i + t.taken
    else if i = t.into then stock.held i - t.paid else stock.held i

/-! ## Totals -/

namespace Swap

variable (t : Swap ι) (i : ι)

def takes : ℕ := if t.out = i then t.taken else 0

/-- What is paid into `i` for a good in front of it. -/
def paysBefore : ℕ := if t.into = i ∧ t.out < i then t.paid else 0

/-- What is paid into `i` for a good behind it. -/
def paysAfter : ℕ := if t.into = i ∧ i < t.out then t.paid else 0

variable {t}

/-- What a swap is to a good: the one it takes, the one it pays into, or another. -/
theorem role (hne : t.out ≠ t.into) :
    (i = t.out ∧ t.takes i = t.taken ∧ t.paysBefore i = 0 ∧ t.paysAfter i = 0) ∨
    (i = t.into ∧ t.out < i ∧ t.takes i = 0 ∧ t.paysBefore i = t.paid ∧ t.paysAfter i = 0) ∨
    (i = t.into ∧ i < t.out ∧ t.takes i = 0 ∧ t.paysBefore i = 0 ∧ t.paysAfter i = t.paid) ∨
    (i ≠ t.out ∧ i ≠ t.into ∧ t.takes i = 0 ∧ t.paysBefore i = 0 ∧ t.paysAfter i = 0) := by
  unfold takes paysBefore paysAfter
  by_cases hout : i = t.out
  · subst hout
    exact .inl ⟨rfl, if_pos rfl, if_neg fun h => hne h.1.symm, if_neg fun h => hne h.1.symm⟩
  rw [if_neg (Ne.symm hout)]
  by_cases hinto : i = t.into
  · subst hinto
    rcases lt_or_gt_of_ne hout with hlt | hgt
    · exact .inr (.inr (.inl ⟨rfl, hlt, rfl, if_neg fun h => h.2.not_gt hlt, if_pos ⟨rfl, hlt⟩⟩))
    · exact .inr (.inl ⟨rfl, hgt, rfl, if_pos ⟨rfl, hgt⟩, if_neg fun h => h.2.not_gt hgt⟩)
  · exact .inr (.inr (.inr ⟨hout, hinto, rfl, if_neg fun h => hinto h.1.symm,
      if_neg fun h => hinto h.1.symm⟩))

end Swap

section Totals

variable (ts : List (Swap ι)) (t : Swap ι) (i : ι)

def taken : ℕ := (ts.map fun t => t.takes i).sum

def paidBefore : ℕ := (ts.map fun t => t.paysBefore i).sum

def paidAfter : ℕ := (ts.map fun t => t.paysAfter i).sum

/-- One more swap takes its own. -/
theorem taken_concat : taken (ts ++ [t]) i = taken ts i + t.takes i := by
  rw [taken, List.map_append, List.sum_append, List.map_singleton, List.sum_singleton, taken]

/-- One more swap pays its own, on the side below. -/
theorem paidBefore_concat : paidBefore (ts ++ [t]) i = paidBefore ts i + t.paysBefore i := by
  rw [paidBefore, List.map_append, List.sum_append, List.map_singleton, List.sum_singleton,
    paidBefore]

/-- One more swap pays its own, on the side above. -/
theorem paidAfter_concat : paidAfter (ts ++ [t]) i = paidAfter ts i + t.paysAfter i := by
  rw [paidAfter, List.map_append, List.sum_append, List.map_singleton, List.sum_singleton,
    paidAfter]

variable {ts i}

/-- Nothing is taken of a good before its turn. -/
theorem taken_eq_zero (h : ∀ t ∈ ts, t.out < i) : taken ts i = 0 := by
  refine List.sum_eq_zero fun n hn => ?_
  obtain ⟨t, ht, rfl⟩ := List.mem_map.mp hn
  exact if_neg (h t ht).ne

/-- Nothing is paid for a good behind it up to its turn. -/
theorem paidAfter_eq_zero (h : ∀ t ∈ ts, t.out ≤ i) : paidAfter ts i = 0 := by
  refine List.sum_eq_zero fun n hn => ?_
  obtain ⟨t, ht, rfl⟩ := List.mem_map.mp hn
  exact if_neg fun hand => hand.2.not_ge (h t ht)

end Totals

/-! ## The stock -/

variable {floor cap : ι → ℕ} {stock : Stock ι} {ts : List (Swap ι)}

/-- What is left of a stock, good by good. -/
def Leaves (stock : Stock ι) (ts : List (Swap ι)) (left : Stock ι) : Prop :=
  ∀ i, left.vault i + taken ts i = stock.vault i + (paidBefore ts i + paidAfter ts i) ∧
    left.held i + (paidBefore ts i + paidAfter ts i) = stock.held i + taken ts i

/-- What fits leaves the totals behind. By induction from the end of the list. -/
theorem leaves_foldl (hne : ∀ t ∈ ts, t.out ≠ t.into)
    (h : Fits (Stock.Admits floor cap) Stock.after stock ts) :
    Leaves stock ts (ts.foldl Stock.after stock) := by
  induction ts using List.reverseRecOn with
  | nil => exact fun i => ⟨rfl, rfl⟩
  | append_singleton ts t ih =>
    intro i
    obtain ⟨hfits, htaken, -, hpaid⟩ := fits_concat.mp h
    obtain ⟨hvault, hheld⟩ := ih (fun t ht => hne t (List.mem_append_left _ ht)) hfits i
    rw [taken_concat, paidBefore_concat, paidAfter_concat, List.foldl_append, List.foldl_cons,
      List.foldl_nil]
    generalize ts.foldl Stock.after stock = left at *
    unfold Stock.after
    rcases t.role i (hne t (List.mem_append_right _ (List.mem_singleton_self t))) with
      ⟨rfl, ht, hb, ha⟩ | ⟨rfl, hlt, ht, hb, ha⟩ | ⟨rfl, hlt, ht, hb, ha⟩ | ⟨hout, hinto, ht, hb, ha⟩
    · dsimp only
      rw [ht, hb, ha, if_pos rfl, if_pos rfl]
      omega
    · dsimp only
      rw [ht, hb, ha, if_neg hlt.ne', if_neg hlt.ne', if_pos rfl, if_pos rfl]
      omega
    · dsimp only
      rw [ht, hb, ha, if_neg hlt.ne, if_neg hlt.ne, if_pos rfl, if_pos rfl]
      omega
    · dsimp only
      rw [ht, hb, ha, if_neg hout, if_neg hout, if_neg hinto, if_neg hinto]
      omega

/-! ## Good by good -/

/-- The totals of one good fit. What is taken of it can be what goods in front of it paid, and
what goods behind it pay finds all of that taken. -/
structure GoodFits (floor cap vault held taken before after : ℕ) : Prop where
  of_taken : taken ≠ 0 → floor + taken ≤ vault + before
  of_before : before ≠ 0 → vault + before ≤ cap ∧ before ≤ held
  of_after : after ≠ 0 →
    vault + before + after ≤ cap + taken ∧ before + after ≤ held + taken

/-- The condition on one good, its three parts written out. -/
theorem goodFits_iff {floor cap vault held taken before after : ℕ} :
    GoodFits floor cap vault held taken before after ↔
      (taken ≠ 0 → floor + taken ≤ vault + before) ∧
      (before ≠ 0 → vault + before ≤ cap ∧ before ≤ held) ∧
      (after ≠ 0 → vault + before + after ≤ cap + taken ∧ before + after ≤ held + taken) :=
  ⟨fun h => ⟨h.of_taken, h.of_before, h.of_after⟩, fun h => ⟨h.1, h.2.1, h.2.2⟩⟩

instance (floor cap vault held taken before after : ℕ) :
    Decidable (GoodFits floor cap vault held taken before after) :=
  decidable_of_iff _ goodFits_iff.symm

def GoodsFit (floor cap : ι → ℕ) (stock : Stock ι) (ts : List (Swap ι)) : Prop :=
  ∀ i, GoodFits (floor i) (cap i) (stock.vault i) (stock.held i) (taken ts i) (paidBefore ts i)
    (paidAfter ts i)

/-- A swap that comes after others is admitted, by the totals of the others. -/
def Follows (floor cap : ι → ℕ) (stock : Stock ι) (ts : List (Swap ι)) (t : Swap ι) (i : ι) :
    Prop :=
  (i = t.out → floor i + taken ts i + t.taken ≤ stock.vault i + (paidBefore ts i + paidAfter ts i)) ∧
    (i = t.into →
      stock.vault i + (paidBefore ts i + paidAfter ts i) + t.paid ≤ cap i + taken ts i ∧
      paidBefore ts i + paidAfter ts i + t.paid ≤ stock.held i + taken ts i)

/-- A stock admits a swap when every good does. -/
theorem admits_iff {left : Stock ι} (h : Leaves stock ts left) (t : Swap ι) :
    left.Admits floor cap t ↔ ∀ i, Follows floor cap stock ts t i := by
  have hout := h t.out
  have hinto := h t.into
  constructor
  · rintro ⟨htaken, hroom, hpaid⟩ i
    constructor
    · rintro rfl
      omega
    · rintro rfl
      omega
  · intro hfollows
    have htaken := (hfollows t.out).1 rfl
    have hpaid := (hfollows t.into).2 rfl
    unfold Stock.Admits
    omega

/-- The step: the swap that comes last takes the last of the goods, and what it adds to the
totals is what it asks for. -/
theorem goodFits_concat {t : Swap ι} (hne : t.out ≠ t.into) (htaken : t.taken ≠ 0)
    (hpaid : t.paid ≠ 0) (hlast : ∀ u ∈ ts, u.out ≤ t.out) (i : ι) :
    GoodFits (floor i) (cap i) (stock.vault i) (stock.held i) (taken (ts ++ [t]) i)
        (paidBefore (ts ++ [t]) i) (paidAfter (ts ++ [t]) i) ↔
      GoodFits (floor i) (cap i) (stock.vault i) (stock.held i) (taken ts i) (paidBefore ts i)
          (paidAfter ts i) ∧ Follows floor cap stock ts t i := by
  rw [taken_concat, paidBefore_concat, paidAfter_concat, goodFits_iff, goodFits_iff, Follows]
  rcases t.role i hne with ⟨hi, ht, hb, ha⟩ | ⟨hi, hlt, ht, hb, ha⟩ | ⟨hi, hlt, ht, hb, ha⟩ |
    ⟨hout, hinto, ht, hb, ha⟩
  · have hbehind : paidAfter ts i = 0 := paidAfter_eq_zero (hi ▸ hlast)
    have hother : i ≠ t.into := hi ▸ hne
    rw [ht, hb, ha]
    grind
  · -- the turn of `i` is still to come
    have huntaken : taken ts i = 0 := taken_eq_zero fun u hu => (hlast u hu).trans_lt hlt
    have hbehind : paidAfter ts i = 0 :=
      paidAfter_eq_zero fun u hu => ((hlast u hu).trans_lt hlt).le
    have hother : i ≠ t.out := hlt.ne'
    rw [ht, hb, ha]
    grind
  · have hother : i ≠ t.out := hlt.ne
    rw [ht, hb, ha]
    grind
  · rw [ht, hb, ha]
    grind

/-- One more swap adds its own conditions, good by good. -/
theorem goodsFit_concat {t : Swap ι} (hne : t.out ≠ t.into) (htaken : t.taken ≠ 0)
    (hpaid : t.paid ≠ 0) (hlast : ∀ u ∈ ts, u.out ≤ t.out) :
    GoodsFit floor cap stock (ts ++ [t]) ↔
      GoodsFit floor cap stock ts ∧ ∀ i, Follows floor cap stock ts t i :=
  (forall_congr' (goodFits_concat hne htaken hpaid hlast)).trans forall_and

/-- Swaps in the order of the goods they take fit exactly when the totals of every good do. -/
theorem fits_iff (hne : ∀ t ∈ ts, t.out ≠ t.into) (hsome : ∀ t ∈ ts, t.taken ≠ 0 ∧ t.paid ≠ 0)
    (hordered : ts.Pairwise fun t u => t.out ≤ u.out) :
    Fits (Stock.Admits floor cap) Stock.after stock ts ↔ GoodsFit floor cap stock ts := by
  induction ts using List.reverseRecOn with
  | nil =>
    refine ⟨fun _ i => ?_, fun _ => trivial⟩
    exact ⟨fun h => absurd rfl h, fun h => absurd rfl h, fun h => absurd rfl h⟩
  | append_singleton ts t ih =>
    obtain ⟨hfront, -, hlast⟩ := List.pairwise_append.mp hordered
    have hlast' := fun u hu => hlast u hu t (List.mem_singleton_self t)
    have hmem := List.mem_append_right ts (List.mem_singleton_self t)
    have hne' := fun u hu => hne u (List.mem_append_left _ hu)
    have hih := ih hne' (fun u hu => hsome u (List.mem_append_left _ hu)) hfront
    rw [fits_concat, goodsFit_concat (hne t hmem) (hsome t hmem).1 (hsome t hmem).2 hlast', ← hih]
    exact and_congr_right fun hfits => admits_iff (leaves_foldl hne' hfits) t

/-! ## One swap for each pair -/

section Table

variable (n : ℕ) (sold paid : ℕ → ℕ → ℕ)

/-- The swaps of one good against every other, in order. Where nothing is sold there is none. -/
def swapRow (s : ℕ) : List (Swap ℕ) :=
  (List.range n).flatMap fun b => if sold s b = 0 then [] else [⟨s, b, sold s b, paid s b⟩]

def swapTable : List (Swap ℕ) := (List.range n).flatMap (swapRow n sold paid)

variable {n sold paid}

/-- What a swap of a row is. -/
theorem mem_swapRow {s : ℕ} {t : Swap ℕ} (h : t ∈ swapRow n sold paid s) :
    t.out = s ∧ t.taken = sold s t.into ∧ t.paid = paid s t.into ∧ t.taken ≠ 0 := by
  obtain ⟨b, -, hb⟩ := List.mem_flatMap.mp h
  split at hb
  next => exact nomatch hb
  next hsome =>
    obtain rfl := List.mem_singleton.mp hb
    exact ⟨rfl, rfl, rfl, hsome⟩

/-- What a swap of the table is. -/
theorem mem_swapTable {t : Swap ℕ} (h : t ∈ swapTable n sold paid) :
    t.taken = sold t.out t.into ∧ t.paid = paid t.out t.into ∧ t.taken ≠ 0 := by
  obtain ⟨s, -, hs⟩ := List.mem_flatMap.mp h
  obtain ⟨rfl, htaken, hpaid, hsome⟩ := mem_swapRow hs
  exact ⟨htaken, hpaid, hsome⟩

/-- The table goes by the good that is sold. -/
theorem swapTable_ordered : (swapTable n sold paid).Pairwise fun t u => t.out ≤ u.out := by
  rw [swapTable, List.pairwise_flatMap]
  constructor
  · intro s _
    refine List.pairwise_of_forall_mem_list fun t ht u hu => ?_
    rw [(mem_swapRow ht).1, (mem_swapRow hu).1]
  · refine List.pairwise_lt_range.imp fun hlt t ht u hu => ?_
    rw [(mem_swapRow ht).1, (mem_swapRow hu).1]
    exact hlt.le

/-- A sum over rows is a sum of sums. -/
theorem sum_flatMap_range {α : Type} (f : ℕ → List α) (g : α → ℕ) :
    (((List.range n).flatMap f).map g).sum = ∑ i ∈ Finset.range n, ((f i).map g).sum := by
  rw [List.map_flatMap, List.flatMap_def, List.sum_flatten, List.map_map]
  rfl

/-- A sum over the table is one over all pairs that trade. -/
theorem sum_swapTable (g : Swap ℕ → ℕ) : ((swapTable n sold paid).map g).sum
    = ∑ s ∈ Finset.range n, ∑ b ∈ Finset.range n,
      if sold s b = 0 then 0 else g ⟨s, b, sold s b, paid s b⟩ := by
  rw [swapTable, sum_flatMap_range]
  refine Finset.sum_congr rfl fun s _ => ?_
  rw [swapRow, sum_flatMap_range]
  refine Finset.sum_congr rfl fun b _ => ?_
  split
  · rfl
  · exact List.sum_singleton

section Totals

variable {i : ℕ}

/-- What is taken of a good stands in its row. -/
theorem taken_swapTable : taken (swapTable n sold paid) i
    = ∑ b ∈ Finset.range n, if i < n then sold i b else 0 := by
  have hterm : ∀ s b, (if sold s b = 0 then 0 else (Swap.mk s b (sold s b) (paid s b)).takes i)
      = if s = i then sold s b else 0 := by
    intro s b
    rw [Swap.takes]
    grind
  simp only [taken, sum_swapTable, hterm]
  rw [Finset.sum_comm]
  simp only [Finset.sum_ite_eq', Finset.mem_range]

variable (hpaid : ∀ s b, sold s b = 0 ↔ paid s b = 0)
include hpaid

/-- What is paid before a good is sold stands in its column, above its row. -/
theorem paidBefore_swapTable : paidBefore (swapTable n sold paid) i
    = ∑ s ∈ Finset.range n, if i < n then if s < i then paid s i else 0 else 0 := by
  have hterm : ∀ s b, (if sold s b = 0 then 0
      else (Swap.mk s b (sold s b) (paid s b)).paysBefore i)
      = if b = i then if s < i then paid s b else 0 else 0 := by
    intro s b
    rw [Swap.paysBefore]
    grind
  simp only [paidBefore, sum_swapTable, hterm, Finset.sum_ite_eq', Finset.mem_range]

/-- What is paid after a good is sold stands in its column, below its row. -/
theorem paidAfter_swapTable : paidAfter (swapTable n sold paid) i
    = ∑ s ∈ Finset.range n, if i < n then if i < s then paid s i else 0 else 0 := by
  have hterm : ∀ s b, (if sold s b = 0 then 0
      else (Swap.mk s b (sold s b) (paid s b)).paysAfter i)
      = if b = i then if i < s then paid s b else 0 else 0 := by
    intro s b
    rw [Swap.paysAfter]
    grind
  simp only [paidAfter, sum_swapTable, hterm, Finset.sum_ite_eq', Finset.mem_range]

/-- One swap for each pair, in order: good by good, against the sums over its row and the two
parts of its column. -/
theorem fits_swapTable_iff {floor cap : ℕ → ℕ} {stock : Stock ℕ} (hself : ∀ s, sold s s = 0) :
    Fits (Stock.Admits floor cap) Stock.after stock (swapTable n sold paid) ↔
      ∀ i < n, GoodFits (floor i) (cap i) (stock.vault i) (stock.held i)
        (∑ b ∈ Finset.range n, sold i b) (∑ s ∈ Finset.range i, paid s i)
        (∑ s ∈ Finset.Ico (i + 1) n, paid s i) := by
  rw [fits_iff ?_ ?_ swapTable_ordered]
  · refine forall_congr' fun i => ?_
    rw [taken_swapTable, paidBefore_swapTable hpaid, paidAfter_swapTable hpaid]
    by_cases hi : i < n
    · have hbefore : (∑ s ∈ Finset.range n, if s < i then paid s i else 0)
          = ∑ s ∈ Finset.range i, paid s i := by
        rw [← Finset.sum_filter]
        congr 1
        grind
      have hafter : (∑ s ∈ Finset.range n, if i < s then paid s i else 0)
          = ∑ s ∈ Finset.Ico (i + 1) n, paid s i := by
        rw [← Finset.sum_filter]
        congr 1
        grind
      simp only [if_pos hi, hbefore, hafter, forall_prop_of_true hi]
    · simp only [if_neg hi, Finset.sum_const_zero]
      exact ⟨fun _ h => absurd h hi, fun _ => ⟨fun h => absurd rfl h, fun h => absurd rfl h,
        fun h => absurd rfl h⟩⟩
  · intro t ht hne
    obtain ⟨htaken, -, hsold⟩ := mem_swapTable ht
    rw [htaken, ← hne, hself] at hsold
    exact hsold rfl
  · intro t ht
    obtain ⟨htaken, hpay, hsold⟩ := mem_swapTable ht
    refine ⟨hsold, ?_⟩
    rw [hpay]
    exact (not_congr (hpaid _ _)).mp (htaken ▸ hsold)

end Totals

end Table

end Swaps
