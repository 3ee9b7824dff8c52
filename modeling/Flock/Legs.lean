import Flock.Execution

/-!
# The bids of a plan, leg by leg

Every pair of legs is bid for by itself (`World.pair`), in the order of the sold legs. So
whether the bids fit side by side can be told from the sums over the pairs of each leg
(`World.LegFits`): what is sold of it, what legs in front of it are sold for it, and
what legs behind it are. None of these looks at a bid that is sent.
-/

namespace Flock

open Outcome MachineInt Swaps

variable {ch : Chain} {m : Pubkey} {w : World} {idx : Index} {input : Keeper.PlanInput}
  {ata : Keeper.AssociatedTokens} {keeper : Pubkey}

/-- The premium in force, while an auction is open. -/
def Keeper.PlanInput.premium? (input : Keeper.PlanInput) : Option Int :=
  let rebalance := input.snapshot.account.rebalance
  if rebalance.active = true then
    match Sdk.premiumAt rebalance.startPremiumBps rebalance.endPremiumBps rebalance.startTs
      rebalance.endTs input.now with
    | .ok premiumBps => some premiumBps
    | .error _ => none
  else none

section Legs

variable (w : World) (ch : Chain) (m : Pubkey) (idx : Index) (input : Keeper.PlanInput)

/-- What is bid for the legs at two positions of the table, and what for. -/
def World.pair (s b : Nat) : Option (Nat × Nat) :=
  match input.premium?, idx.components[s]?, idx.components[b]? with
  | some premium, some sell, some buy => w.pairAt ch m idx input premium s b sell buy
  | _, _, _ => none

def World.sold (s b : Nat) : Nat := ((w.pair ch m idx input s b).map Prod.fst).getD 0

def World.paid (s b : Nat) : Nat := ((w.pair ch m idx input s b).map Prod.snd).getD 0

/-- At supply `S`, all that is sold of the leg is above its target, and all that is paid into it
is below its cap and held by the keeper. A leg in front has been paid for by then, one behind
has not. -/
def World.LegFits (S i : Nat) (c : Component) : Prop :=
  GoodFits (c.target S) (c.cap S idx.maxPremiumBps) (w.vault ch m c)
    (input.inventory.getD i 0).toNat
    (∑ b ∈ Finset.range idx.components.length, w.sold ch m idx input i b)
    (∑ s ∈ Finset.range i, w.paid ch m idx input s i)
    (∑ s ∈ Finset.Ico (i + 1) idx.components.length, w.paid ch m idx input s i)

end Legs

instance (S i : Nat) (c : Component) : Decidable (w.LegFits ch m idx input S i c) :=
  inferInstanceAs (Decidable (GoodFits _ _ _ _ _ _ _))

theorem World.pair_eq {premium : Int} {s b : Nat} {sell buy : Component}
    (hprem : input.premium? = some premium) (hsell : idx.components[s]? = some sell)
    (hbuy : idx.components[b]? = some buy) :
    w.pair ch m idx input s b = w.pairAt ch m idx input premium s b sell buy := by
  rw [World.pair, hprem, hsell, hbuy]

/-- What is bid for the one is bid for with the other. -/
theorem World.sold_eq_zero_iff (s b : Nat) :
    w.sold ch m idx input s b = 0 ↔ w.paid ch m idx input s b = 0 := by
  unfold World.sold World.paid World.pair
  split
  next =>
    cases hpair : w.pairAt ch m idx input _ s b _ _ with
    | none => exact Iff.rfl
    | some size =>
      obtain ⟨hx, -, -, -, -, hclear⟩ := World.pairAt_eq_some hpair
      have hy : size.2 ≠ 0 := by exact_mod_cast hclear.some_paid
      exact iff_of_false hx hy
  next => exact Iff.rfl

theorem World.sold_self (s : Nat) : w.sold ch m idx input s s = 0 := by
  unfold World.sold World.pair
  split
  next =>
    cases hpair : w.pairAt ch m idx input _ s s _ _ with
    | none => rfl
    | some size => exact absurd rfl (World.pairAt_eq_some hpair).2.2.2.2.1
  next => rfl

/-! ## The bids are swaps -/

/-- The swap a bid is. -/
def swapOf : Keeper.Action → Swap Nat
  | .bid s b x y _ _ => ⟨s, b, x.toNat, y.toNat⟩
  | _ => ⟨0, 0, 0, 0⟩

/-- A loop over a table, by position. -/
theorem flatMap_zipIdx {α β : Type} {l : List α} {f : α × Nat → List β} {g : Nat → List β}
    (h : ∀ i c, l[i]? = some c → f (c, i) = g i) :
    l.zipIdx.flatMap f = (List.range l.length).flatMap g := by
  have hmap : l.zipIdx.map f = (List.range l.length).map g := by
    refine List.ext_getElem (by simp) fun i hi hi' => ?_
    rw [List.getElem_map, List.getElem_map, List.getElem_zipIdx, List.getElem_range, Nat.zero_add]
    exact h i _ (List.getElem?_eq_getElem _)
  rw [List.flatMap_def, List.flatMap_def, hmap]

theorem soleBids_eq : Keeper.soleBids input = match input.premium? with
    | some premium => input.snapshot.account.components.zipIdx.flatMap fun sell =>
        input.snapshot.account.components.zipIdx.flatMap (Keeper.soleBid input premium sell)
    | none => [] := by
  unfold Keeper.soleBids Keeper.PlanInput.premium?
  dsimp only
  split
  next =>
    cases Sdk.premiumAt input.snapshot.account.rebalance.startPremiumBps
      input.snapshot.account.rebalance.endPremiumBps input.snapshot.account.rebalance.startTs
      input.snapshot.account.rebalance.endTs input.now <;> rfl
  next => rfl

section Bids

variable (hS : Seen ch m w idx input.snapshot)
  (horder : idx.rebalance.active ≠ 0 → AuctionInOrder idx)
include hS horder

/-- An auction that has a premium is in order. -/
theorem premium_inOrder {premium : Int} (h : input.premium? = some premium) :
    AuctionInOrder idx ∧ premium ≤ 1000 := by
  unfold Keeper.PlanInput.premium? at h
  rw [hS.rebalance] at h
  dsimp only at h
  split at h
  next hone =>
    have hin := horder (by rw [of_decide_eq_true hone]; decide)
    split at h
    next hprem =>
      obtain rfl := Option.some.inj h
      exact ⟨hin, hin.premium_le hprem⟩
    next => cases h
  next => cases h

variable (hshare : 0 ≤ input.policy.maxLegShareBps ∧ input.policy.maxLegShareBps ≤ 10000)
  (hheld : ∀ i, 0 ≤ input.inventory.getD i 0)
include hshare hheld

/-- The bid of one pair is its swap. -/
theorem soleBid_swap {premium : Int} (hprem : input.premium? = some premium) {s b : Nat}
    {sell buy : Component} (hsell : idx.components[s]? = some sell)
    (hbuy : idx.components[b]? = some buy) :
    (Keeper.soleBid input premium (Sdk.decodeComponent sell, s) (Sdk.decodeComponent buy, b)).map
        swapOf
      = if w.sold ch m idx input s b = 0 then []
        else [⟨s, b, w.sold ch m idx input s b, w.paid ch m idx input s b⟩] := by
  obtain ⟨hin, hle⟩ := premium_inOrder hS horder hprem
  rw [soleBid_eq hS hshare hheld hin hle hsell hbuy, World.sold, World.paid,
    World.pair_eq hprem hsell hbuy]
  cases hpair : w.pairAt ch m idx input premium s b sell buy with
  | none => rfl
  | some size =>
    have hx : size.1 ≠ 0 := (World.pairAt_eq_some hpair).1
    exact (if_neg hx).symm

/-- The bids of a plan are one swap for each pair. -/
theorem soleBids_swaps : (Keeper.soleBids input).map swapOf
    = swapTable idx.components.length (w.sold ch m idx input) (w.paid ch m idx input) := by
  rw [soleBids_eq]
  cases hprem : input.premium? with
  | none =>
    have hnone : ∀ s b, w.sold ch m idx input s b = 0 := by
      intro s b
      rw [World.sold, World.pair, hprem]
      rfl
    refine (List.flatMap_eq_nil_iff.mpr fun s _ => List.flatMap_eq_nil_iff.mpr fun b _ => ?_).symm
    exact if_pos (hnone s b)
  | some premium =>
    have hlength : (idx.components.map Sdk.decodeComponent).length = idx.components.length :=
      List.length_map _
    dsimp only
    rw [List.map_flatMap, hS.components, ← hlength]
    refine flatMap_zipIdx fun s sell hsell => ?_
    rw [List.map_flatMap]
    refine flatMap_zipIdx fun b buy hbuy => ?_
    rw [List.getElem?_map, Option.map_eq_some_iff] at hsell hbuy
    obtain ⟨sell, hsell, rfl⟩ := hsell
    obtain ⟨buy, hbuy, rfl⟩ := hbuy
    exact soleBid_swap hS horder hshare hheld hprem hsell hbuy

/-- The value of a leg, none where there is no leg. -/
def Index.leg (idx : Index) (f : Component → Nat) (i : Nat) : Nat :=
  match idx.components[i]? with
  | some c => f c
  | none => 0

/-- Side by side, the bids fit when each leg does. -/
theorem fits_soleBids_iff (hinventory : input.inventory
      = idx.components.map fun c => (w.amount (ata.address c.mint keeper) : Int)) (S : Nat) :
    Replay.Fits (Book.Admits idx S) Book.after (w.book ch m idx ata keeper)
        (Keeper.soleBids input) ↔
      ∀ i c, idx.components[i]? = some c → w.LegFits ch m idx input S i c := by
  have hbids : ∀ a ∈ Keeper.soleBids input, ∃ (s b x y : Nat) (premium : Int) (edge : Double)
      (sell buy : Component), a = .bid s b x y premium edge ∧ idx.components[s]? = some sell ∧
        idx.components[b]? = some buy := by
    intro a ha
    obtain ⟨s, b, x, y, premium, edge, sell, buy, -, -, rfl, -, hsell, hbuy, -⟩ :=
      soleBids_cleared hS hshare hheld horder ha
    exact ⟨s, b, x, y, premium, edge, sell, buy, rfl, hsell, hbuy⟩
  have hguard : ∀ book : Book, ∀ a ∈ Keeper.soleBids input, Book.Admits idx S book a ↔
      Stock.Admits (idx.leg fun c => c.target S) (idx.leg fun c => c.cap S idx.maxPremiumBps)
        (id book) (swapOf a) := by
    intro book a ha
    obtain ⟨s, b, x, y, premium, edge, sell, buy, rfl, hsell, hbuy⟩ := hbids a ha
    simp only [Book.Admits, Stock.Admits, swapOf, Index.leg, hsell, hbuy, id_eq]
    constructor
    · rintro ⟨_, _, hs, hb, hfits⟩
      obtain rfl := Option.some.inj hs
      obtain rfl := Option.some.inj hb
      exact hfits
    · intro hfits
      exact ⟨sell, buy, rfl, rfl, hfits⟩
  have hafter : ∀ book : Book, ∀ a ∈ Keeper.soleBids input,
      id (Book.after book a) = Stock.after (id book) (swapOf a) := by
    intro book a ha
    obtain ⟨s, b, x, y, premium, edge, sell, buy, rfl, -⟩ := hbids a ha
    rfl
  rw [Replay.fits_map hguard hafter, soleBids_swaps hS horder hshare hheld,
    fits_swapTable_iff World.sold_eq_zero_iff World.sold_self]
  have hleg : ∀ {i c}, idx.components[i]? = some c →
      (GoodFits (idx.leg (fun c => c.target S) i) (idx.leg (fun c => c.cap S idx.maxPremiumBps) i)
        ((id (w.book ch m idx ata keeper)).vault i) ((id (w.book ch m idx ata keeper)).held i)
        (∑ b ∈ Finset.range idx.components.length, w.sold ch m idx input i b)
        (∑ s ∈ Finset.range i, w.paid ch m idx input s i)
        (∑ s ∈ Finset.Ico (i + 1) idx.components.length, w.paid ch m idx input s i) ↔
      w.LegFits ch m idx input S i c) := by
    intro i c hc
    have hheld' : (input.inventory.getD i 0).toNat = w.amount (ata.address c.mint keeper) := by
      rw [hinventory, List.getD_eq_getElem?_getD, List.getElem?_map, hc]
      rfl
    simp only [World.LegFits, Index.leg, World.book, hc, hheld', id_eq]
  constructor
  · intro h i c hc
    exact (hleg hc).mp (h i (List.getElem?_eq_some_iff.mp hc).1)
  · intro h i hi
    have hc := List.getElem?_eq_getElem hi
    exact (hleg hc).mpr (h i _ hc)

end Bids

end Flock
