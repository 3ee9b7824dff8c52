import Flock.Sizes

/-!
# What the keeper plans

A plan is an accrual or none, and then the closing of an auction or what every pair
of the table is bid, looked at by itself (`soleBids`). Every bid is one the program
would take if it came first: the sold leg has the excess, the bought leg the room,
the keeper the tokens, and the price is the program's (`Offered`).
-/

namespace Flock

open Outcome MachineInt

variable {ch : Chain} {m : Pubkey} {w : World} {idx : Index}

/-- A bid the keeper would send for a pair, if it were the only one. -/
structure Offered (ch : Chain) (m : Pubkey) (w : World) (idx : Index) (inventory : List Int)
    (premium : Int) (s b x y : Nat) : Prop where
  distinct : s ≠ b
  some_sold : x ≠ 0
  some_paid : y ≠ 0
  legs : ∃ sell buy, idx.components[s]? = some sell ∧ idx.components[b]? = some buy ∧
    y = sell.price buy (10000 - premium).toNat x ∧
    sell.target (w.supply m) + x ≤ w.vault ch m sell ∧
    w.vault ch m buy + y ≤ buy.cap (w.supply m) idx.maxPremiumBps
  held : (y : Int) ≤ inventory.getD b 0

/-! ## The loops -/

namespace Keeper

/-- The actions of a round that does not throw. -/
def actionsOf : Except Sdk.SdkError Plan → List Action
  | .ok p => p.actions
  | .error _ => []

/-- What a pair is bid, looked at by itself. -/
def soleBid (input : PlanInput) (premiumBps : Int) (sell : Sdk.ComponentAccount × Nat)
    (buy : Sdk.ComponentAccount × Nat) : List Action :=
  let sellable := input.snapshot.balances.getD sell.2 0 - legTarget input.snapshot sell.1
  if sellable ≤ 0 then []
  else actionsOf (planPair input premiumBps sell.2 sell.1 sellable buy.2 buy.1)

/-- What every pair of the table is bid, each looked at by itself, in table order. -/
def soleBids (input : PlanInput) : List Action :=
  let rebalance := input.snapshot.account.rebalance
  let table := input.snapshot.account.components.zipIdx
  if rebalance.active = true then
    match Sdk.premiumAt rebalance.startPremiumBps rebalance.endPremiumBps rebalance.startTs
      rebalance.endTs input.now with
    | .ok premiumBps => table.flatMap fun sell => table.flatMap (soleBid input premiumBps sell)
    | .error _ => []
  else []

/-- A loop that does not throw ran every round, and kept its actions in order. -/
theorem gather_ok {rounds : List (Except Sdk.SdkError Plan)} {p : Plan}
    (h : Plan.gather rounds = .ok p) :
    p.actions = rounds.flatMap actionsOf ∧ ∀ r ∈ rounds, ∃ q, r = .ok q := by
  induction rounds generalizing p with
  | nil =>
    obtain rfl := Except.ok.inj h
    exact ⟨rfl, fun _ h => nomatch h⟩
  | cons r rounds ih =>
    simp only [Plan.gather, bind_ok_iff, pure_ok_iff] at h
    obtain ⟨q, rfl, q', hrest, rfl⟩ := h
    obtain ⟨hact, hall⟩ := ih hrest
    refine ⟨?_, ?_⟩
    · show q.actions ++ q'.actions = _
      rw [hact]
      rfl
    · intro r hr
      rcases List.mem_cons.mp hr with rfl | hr
      · exact ⟨q, rfl⟩
      · exact hall r hr

theorem planLeg_actions {input : PlanInput} {premiumBps : Int} {sell : Sdk.ComponentAccount × Nat}
    {p : Plan} (h : planLeg input premiumBps sell.2 sell.1 = .ok p) :
    p.actions = input.snapshot.account.components.zipIdx.flatMap (soleBid input premiumBps sell) := by
  unfold planLeg at h
  dsimp only at h
  split at h
  next hle =>
    obtain rfl := Except.ok.inj h
    refine (List.flatMap_eq_nil_iff.mpr fun buy _ => ?_).symm
    unfold soleBid
    exact if_pos (by omega)
  next hgt =>
    rw [(gather_ok h).1, List.flatMap_map]
    refine List.flatMap_congr fun buy _ => ?_
    unfold soleBid
    rw [if_neg (by omega)]

theorem planBids_actions {input : PlanInput} {premiumBps : Int} {p : Plan}
    (h : planBids input premiumBps = .ok p) : p.actions =
      input.snapshot.account.components.zipIdx.flatMap fun sell =>
        input.snapshot.account.components.zipIdx.flatMap (soleBid input premiumBps sell) := by
  obtain ⟨hact, hall⟩ := gather_ok h
  rw [hact, List.flatMap_map]
  refine List.flatMap_congr fun sell hsell => ?_
  obtain ⟨q, hq⟩ := hall _ (List.mem_map_of_mem hsell)
  rw [hq]
  exact planLeg_actions hq

/-- What is sent about the auction: its closing when the window is over, or bids. -/
def auctionActions (input : PlanInput) : List Action :=
  if input.snapshot.account.rebalance.active = true ∧
      input.now > input.snapshot.account.rebalance.endTs then [.endExpired]
  else soleBids input

/-- The plan: an accrual or none, and then the auction. -/
theorem plan_actions {input : PlanInput} {p : Plan} (h : plan input = .ok p) :
    p.actions = (planAccrual input).actions ++ auctionActions input := by
  obtain ⟨auction, hauction, h⟩ := bind_ok_iff.mp h
  obtain rfl := pure_ok_iff.mp h
  show (planAccrual input).actions ++ auction.actions = _
  congr 1
  unfold auctionActions
  unfold planAuction at hauction
  dsimp only at hauction
  split at hauction
  next hexpired =>
    obtain rfl := Except.ok.inj hauction
    rw [if_pos hexpired]
    rfl
  next hexpired =>
    rw [if_neg hexpired]
    unfold soleBids
    dsimp only
    split at hauction
    next hidle =>
      obtain rfl := Except.ok.inj hauction
      rw [if_neg (by rw [hidle]; exact Bool.false_ne_true)]
      rfl
    next hidle =>
      rw [if_pos (Bool.eq_true_of_not_eq_false hidle)]
      split at hauction
      next hearly =>
        obtain rfl := Except.ok.inj hauction
        rw [Sdk.premiumAt, if_pos (.inl hearly)]
        rfl
      next =>
        obtain ⟨premium, hprem, hbids⟩ := bind_ok_iff.mp hauction
        rw [hprem]
        exact planBids_actions hbids

end Keeper

/-! ## Every bid is an offer -/

/-- What is bid for a pair is an offer. -/
theorem World.pairAt_offered {input : Keeper.PlanInput} {premium : Int} {s b x y : Nat}
    {sell buy : Component} (hshare : input.policy.maxLegShareBps ≤ 10000)
    (hsell : idx.components[s]? = some sell) (hbuy : idx.components[b]? = some buy)
    (h : w.pairAt ch m idx input premium s b sell buy = some (x, y)) :
    Offered ch m w idx input.inventory premium s b x y := by
  obtain ⟨hx, hasked, hpay, hbudget, hne, hclear⟩ := World.pairAt_eq_some h
  have hy : y ≠ 0 := by exact_mod_cast hclear.some_paid
  unfold World.budget at hbudget
  -- a share of a leg is no more than the leg
  have hexcess : w.asked ch m input sell ≤ w.vault ch m sell - sell.target (w.supply m) := by
    refine Nat.div_le_of_le_mul ?_
    rw [mul_comm bps]
    exact Nat.mul_le_mul_left _ (show input.policy.maxLegShareBps.toNat ≤ bps from
      Int.toNat_le.mpr hshare)
  exact ⟨hne, hx, hy, ⟨sell, buy, hsell, hbuy, hpay, by omega, by omega⟩, by omega⟩

section Offers

variable {input : Keeper.PlanInput} (hS : Seen ch m w idx input.snapshot)
  (hshare : 0 ≤ input.policy.maxLegShareBps ∧ input.policy.maxLegShareBps ≤ 10000)
  (hheld : ∀ i, 0 ≤ input.inventory.getD i 0)
include hS hshare hheld

/-- What a pair is bid, looked at by itself, is what it is sized to. -/
theorem soleBid_eq (horder : AuctionInOrder idx) {premium : Int} (hprem : premium ≤ 1000)
    {s b : Nat} {sell buy : Component} (hsell : idx.components[s]? = some sell)
    (hbuy : idx.components[b]? = some buy) :
    Keeper.soleBid input premium (Sdk.decodeComponent sell, s) (Sdk.decodeComponent buy, b)
      = ((w.pairAt ch m idx input premium s b sell buy).map
        (Keeper.bidFor input premium s b sell buy)).toList := by
  unfold Keeper.soleBid
  dsimp only
  rw [hS.balance hsell, hS.legTarget]
  by_cases hle : w.vault ch m sell ≤ sell.target (w.supply m)
  · rw [if_pos (by omega)]
    have hnone : w.pairAt ch m idx input premium s b sell buy = none := by
      refine Option.eq_none_iff_forall_ne_some.mpr fun size hsome => ?_
      obtain ⟨hx, hasked, -⟩ := World.pairAt_eq_some hsome
      rw [World.asked, Nat.sub_eq_zero_of_le hle, Nat.zero_mul, Nat.zero_div] at hasked
      omega
    rw [hnone]
    rfl
  · rw [if_neg (by omega), ← Nat.cast_sub (by omega)]
    obtain ⟨p, hp, hacts⟩ := planPair_actions s sell hS hprem
      (horder.prices buy (List.mem_of_getElem? hbuy)) hshare.1 (hheld b) hbuy rfl
    rw [hp, ← hacts]
    rfl

theorem soleBids_cleared (horder : idx.rebalance.active ≠ 0 → AuctionInOrder idx)
    {a : Keeper.Action} (ha : a ∈ Keeper.soleBids input) :
    ∃ (s b x y : Nat) (premium : Int) (edge : Double) (sell buy : Component), idx.rebalance.active ≠ 0 ∧
      Sdk.premiumAt idx.rebalance.startPremiumBps.toInt idx.rebalance.endPremiumBps.toInt
        idx.rebalance.startTs.toInt idx.rebalance.endTs.toInt input.now = .ok premium ∧
      a = .bid s b x y premium edge ∧ Offered ch m w idx input.inventory premium s b x y ∧
      idx.components[s]? = some sell ∧ idx.components[b]? = some buy ∧
      Keeper.Cleared input s b (Sdk.decodeComponent sell) (Sdk.decodeComponent buy) x y := by
  unfold Keeper.soleBids at ha
  dsimp only at ha
  rw [hS.rebalance, hS.components] at ha
  split at ha
  swap
  · exact nomatch ha
  next hone =>
    have hact : idx.rebalance.active ≠ 0 := by
      rw [of_decide_eq_true hone]
      decide
    split at ha
    swap
    · exact nomatch ha
    next premium hprem =>
      obtain ⟨⟨sell, s⟩, hsell, ha⟩ := List.mem_flatMap.mp ha
      obtain ⟨⟨buy, b⟩, hbuy, ha⟩ := List.mem_flatMap.mp ha
      have hsell' := List.mk_mem_zipIdx_iff_getElem?.mp hsell
      have hbuy' := List.mk_mem_zipIdx_iff_getElem?.mp hbuy
      rw [List.getElem?_map, Option.map_eq_some_iff] at hsell' hbuy'
      obtain ⟨sell, hsell', rfl⟩ := hsell'
      obtain ⟨buy, hbuy', rfl⟩ := hbuy'
      have hin := horder hact
      rw [soleBid_eq hS hshare hheld hin (hin.premium_le hprem) hsell' hbuy', Option.mem_toList,
        Option.map_eq_some_iff] at ha
      obtain ⟨⟨x, y⟩, hpair, rfl⟩ := ha
      exact ⟨s, b, x, y, premium, _, sell, buy, hact, hprem, rfl,
        World.pairAt_offered hshare.2 hsell' hbuy' hpair, hsell', hbuy',
        (World.pairAt_eq_some hpair).2.2.2.2.2⟩

theorem soleBids_offered (horder : idx.rebalance.active ≠ 0 → AuctionInOrder idx)
    {a : Keeper.Action} (ha : a ∈ Keeper.soleBids input) :
    ∃ (s b x y : Nat) (premium : Int) (edge : Double), idx.rebalance.active ≠ 0 ∧
      Sdk.premiumAt idx.rebalance.startPremiumBps.toInt idx.rebalance.endPremiumBps.toInt
        idx.rebalance.startTs.toInt idx.rebalance.endTs.toInt input.now = .ok premium ∧
      a = .bid s b x y premium edge ∧ Offered ch m w idx input.inventory premium s b x y := by
  obtain ⟨s, b, x, y, premium, edge, sell, buy, hact, hprem, ha, hoffer, -⟩ :=
    soleBids_cleared hS hshare hheld horder ha
  exact ⟨s, b, x, y, premium, edge, hact, hprem, ha, hoffer⟩

end Offers

end Flock
