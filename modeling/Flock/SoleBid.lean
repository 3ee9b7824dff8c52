import Flock.PlanRun

/-!
# A planned bid, by itself

The keeper repeats the program's arithmetic for targets, caps and prices, and
scales a bid down to a budget in between. Whatever branch a bid came from, it is
for no more than the excess, for exactly the price the program asks, within the
room and the inventory, and worth the edge at market prices. Alone against the
state it was planned from, it is refused for an excused reason only.
-/

namespace Flock

open Outcome MachineInt

variable {ch : Chain} {ata : Keeper.AssociatedTokens} {keeper : Pubkey} {w : World} {idx : Index}
  {input : Keeper.PlanInput}

/-- The bids of a plan are those of its pairs. -/
theorem Keeper.mem_soleBids_of_bid {p : Keeper.Plan} (hplan : Keeper.plan input = .ok p) {s b : Nat}
    {x y premium : Int} {edge : Double} (ha : .bid s b x y premium edge ∈ p.actions) :
    .bid s b x y premium edge ∈ Keeper.soleBids input := by
  rw [Keeper.plan_actions hplan] at ha
  rcases List.mem_append.mp ha with haccrual | hauction
  · unfold Keeper.planAccrual at haccrual
    split at haccrual
    next => cases List.mem_singleton.mp haccrual
    next => split at haccrual <;> exact nomatch haccrual
  · unfold Keeper.auctionActions at hauction
    split at hauction
    next => cases List.mem_singleton.mp hauction
    next => exact hauction

/-- Every bid of a plan, for every live index, policy, price vector, inventory and
clock reading: it agrees with the program leg by leg and price for price, and the
program refuses it for an excused reason only. Its edge is held to the floor as a
double, which is exact up to 2 ^ 53. -/
theorem planned_bid_agrees (h : Reachable ch w) {k : Pubkey} (hidx : w.index? k = some idx)
    (hlive : idx.state = stateLive) {asOf : Int}
    (hsnap : Sdk.snapshot ch w idx.indexMint asOf = .ok input.snapshot)
    (hnow : input.now = w.clock.toInt) (hedge : 1 ≤ input.policy.minEdgeBps)
    (hshare : 0 ≤ input.policy.maxLegShareBps ∧ input.policy.maxLegShareBps ≤ 10000)
    (hprices : ∀ i, 0 ≤ input.marketPricesE9.getD i 0)
    (hheld : ∀ i, 0 ≤ input.inventory.getD i 0)
    {p : Keeper.Plan} (hplan : Keeper.plan input = .ok p) {s b : Nat} {x y premium : Int}
    {edge : Double} (ha : .bid s b x y premium edge ∈ p.actions) :
    ∃ sell buy, idx.components[s]? = some sell ∧ idx.components[b]? = some buy ∧ s ≠ b ∧
      0 < x ∧ x ≤ w.vault ch idx.indexMint sell - sell.target (w.supply idx.indexMint) ∧
      w.vault ch idx.indexMint buy < buy.cap (w.supply idx.indexMint) idx.maxPremiumBps ∧
      (∀ {prem : Int32}, premiumAt idx.rebalance.startPremiumBps idx.rebalance.endPremiumBps
          idx.rebalance.startTs idx.rebalance.endTs w.clock = .ok prem →
        prem.toInt = premium ∧
          Only (· = .mathOverflow) (bidPrice sell buy prem (UInt64.ofNat x.toNat)) ∧
          ∀ {pay : UInt64}, bidPrice sell buy prem (UInt64.ofNat x.toNat) = .ok pay →
            (pay.toNat : Int) = y) ∧
      y ≤ buy.cap (w.supply idx.indexMint) idx.maxPremiumBps - w.vault ch idx.indexMint buy ∧
      y ≤ input.inventory.getD b 0 ∧
      Keeper.ClearsFloor input.policy.minEdgeBps
        (Keeper.marketValue input s (Sdk.decodeComponent sell) x)
        (Keeper.marketValue input b (Sdk.decodeComponent buy) y) ∧
      (Equipped ch ata keeper idx.indexMint w idx input.inventory →
        Only (Custom Excused) (Keeper.send ch ata keeper input.snapshot w
          (.bid s b x y premium edge))) := by
  obtain ⟨hW, hsound⟩ := reachable_wf h
  obtain ⟨rfl, hwf⟩ := hW hidx
  have hS := hwf.seen hidx hsnap
  have horder := reachable_orderly h hwf.custody.inUse hidx
  obtain ⟨s', b', x', y', premium', edge', sell, buy, hact, hprem, he, hoffer, hsell, hbuy, hclear⟩ :=
    soleBids_cleared hS hshare hheld horder (Keeper.mem_soleBids_of_bid hplan ha)
  obtain ⟨rfl, rfl, rfl, rfl, rfl, rfl⟩ := Keeper.Action.bid.inj he
  obtain ⟨sell', buy', hsell', hbuy', hprice, hexcess, hroom⟩ := hoffer.legs
  obtain rfl := Option.some.inj (hsell.symm.trans hsell')
  obtain rfl := Option.some.inj (hbuy.symm.trans hbuy')
  have hinorder := horder hact
  have hx0 := hoffer.some_sold
  have hy0 := hoffer.some_paid
  have hx : x' < 2 ^ 64 := by
    have := w.vault_lt ch idx.indexMint sell
    omega
  rw [hnow] at hprem
  refine ⟨sell, buy, hsell, hbuy, hoffer.distinct, by omega, by omega, by omega, ?_, by omega,
    hoffer.held, hclear.clearsFloor hedge (hprices b) (by omega), ?_⟩
  · intro prem hprem'
    have hsame := hinorder.premiumAt_agrees hprem'
    rw [hprem, Except.ok.injEq] at hsame
    refine ⟨hsame.symm, ?_, ?_⟩
    · have hbuyPrice := hinorder.prices buy (List.mem_of_getElem? hbuy)
      exact bidPrice_only (E := (· = .mathOverflow)) rfl sell hbuyPrice prem _
    · intro pay hpay
      have hpay' := bidPrice_eq hpay
      rw [Int.toNat_natCast, UInt64.toNat_ofNat_of_lt' hx, ← hsame, ← hprice] at hpay'
      exact_mod_cast hpay'
  · intro hkeeper
    have hsole : Sole ch idx.indexMint w idx input.inventory w.clock
        (.bid s b x' y' premium edge) :=
      ⟨s, b, x', y', premium, edge, hact, hprem, rfl, hoffer⟩
    have hM := hkeeper.midway hidx hwf.custody hsound
    exact (midway_books hS hkeeper.outsider hlive hwf.room horder
      fun i => (hkeeper.held i).2).refused hM hsole (first_bid_fits hsole hkeeper)

/-- The first bid of a plan. -/
def firstBid : List Keeper.Action → Option (Nat × Nat × Int × Int × Int × Double)
  | [] => none
  | .bid s b x y premium edge :: _ => some (s, b, x, y, premium, edge)
  | _ :: actions => firstBid actions

theorem mem_of_firstBid {actions : List Keeper.Action} {s b : Nat} {x y premium : Int}
    {edge : Double} (h : firstBid actions = some (s, b, x, y, premium, edge)) :
    .bid s b x y premium edge ∈ actions := by
  induction actions with
  | nil => cases h
  | cons a actions ih =>
    cases a with
    | bid s' b' x' y' premium' edge' =>
      simp only [firstBid, Option.some.injEq, Prod.mk.injEq] at h
      obtain ⟨rfl, rfl, rfl, rfl, rfl, rfl⟩ := h
      exact List.mem_cons_self
    | accrue fee => exact List.mem_cons_of_mem _ (ih h)
    | endExpired => exact List.mem_cons_of_mem _ (ih h)

/-- The first bid of a plan is worth less than the policy asks for. -/
def failsFloor (idx : Index) (input : Keeper.PlanInput) (p : Keeper.Plan) : Bool :=
  match firstBid p.actions with
  | some (s, b, x, y, _, _) =>
    match idx.components[s]?, idx.components[b]? with
    | some sell, some buy =>
      let outValue := Keeper.marketValue input s (Sdk.decodeComponent sell) x
      let inValue := Keeper.marketValue input b (Sdk.decodeComponent buy) y
      decide ((outValue - inValue) * 10000 < input.policy.minEdgeBps * inValue)
    | _, _ => false
  | none => false

theorem failsFloor_iff {p : Keeper.Plan} (h : failsFloor idx input p = true) :
    ∃ (s b : Nat) (x y premium : Int) (edge : Double) (sell buy : Component),
      .bid s b x y premium edge ∈ p.actions ∧ idx.components[s]? = some sell ∧
      idx.components[b]? = some buy ∧
      ¬ input.policy.minEdgeBps * Keeper.marketValue input b (Sdk.decodeComponent buy) y ≤
        (Keeper.marketValue input s (Sdk.decodeComponent sell) x -
          Keeper.marketValue input b (Sdk.decodeComponent buy) y) * 10000 := by
  unfold failsFloor at h
  split at h
  next s b x y premium edge hfirst =>
    split at h
    next sell buy hsell hbuy =>
      exact ⟨s, b, x, y, premium, edge, sell, buy, mem_of_firstBid hfirst, hsell, hbuy,
        not_le.mpr (of_decide_eq_true h)⟩
    next => cases h
  next => cases h

/-- Holder 40 plans a bid with the default policy. -/
theorem planned_bid_agrees_local : ∃ (w : World) (idx : Index) (input : Keeper.PlanInput)
    (s b : Nat) (x y premium : Int) (edge : Double) (sell buy : Component), Reachable localnet w ∧
    w.index? localIndex = some idx ∧ input.policy = Keeper.defaultPolicy ∧
    idx.components[s]? = some sell ∧ idx.components[b]? = some buy ∧ 0 < x ∧
    x ≤ w.vault localnet idx.indexMint sell - sell.target (w.supply idx.indexMint) ∧
    Only (Custom Excused) (Keeper.send localnet localAssociated (addr 40) input.snapshot w
      (.bid s b x y premium edge)) := by
  obtain ⟨w, idx, hreach, hidx, hp⟩ := exists_of_run localAuction
    (fun w idx => decide (idx.indexMint = addr 1 ∧ idx.state = stateLive) &&
      localPlan Keeper.defaultPolicy localPrices (fun input p =>
        localEquipped w idx input.inventory && decide ((firstBid p.actions).isSome = true)) w)
    (by decide +kernel)
  simp only [Bool.and_eq_true, decide_eq_true_eq] at hp
  obtain ⟨⟨hm, hlive⟩, hp⟩ := hp
  obtain ⟨input, p, hsnap, hnow, hpolicy, hmarket, hplan, hp⟩ := localPlan_iff hp
  simp only [Bool.and_eq_true, decide_eq_true_eq] at hp
  obtain ⟨hequipped, hsome⟩ := hp
  obtain ⟨⟨s, b, x, y, premium, edge⟩, hfirst⟩ := Option.isSome_iff_exists.mp hsome
  have hkeeper := localEquipped_iff hequipped
  rw [← hm] at hsnap hkeeper
  have hprices : ∀ i, 0 ≤ input.marketPricesE9.getD i 0 := by
    intro i
    rw [hmarket]
    rcases i with _ | _ | i
    · decide
    · decide
    · exact le_refl _
  obtain ⟨sell, buy, hsell, hbuy, -, hx, hexcess, -, -, -, -, -, hrefused⟩ :=
    planned_bid_agrees hreach hidx hlive hsnap hnow (by rw [hpolicy]; decide)
      (by rw [hpolicy]; decide) hprices (fun i => (hkeeper.held i).1) hplan (mem_of_firstBid hfirst)
  exact ⟨w, idx, input, s, b, x, y, premium, edge, sell, buy, hreach, hidx, hpolicy, hsell, hbuy, hx,
    hexcess, hrefused hkeeper⟩

/-- Nothing but the floor is out of the ordinary, and it is a double. -/
def steepPolicy : Keeper.KeeperPolicy :=
  { Keeper.defaultPolicy with minEdgeBps := 9007199254740996 }

/-- Under a floor of 9007199254740996 basis points a bid with an edge of 9007199254740995
is planned: there is no such double, and the next one is the floor. -/
theorem planned_under_floor : ∃ (w : World) (idx : Index) (input : Keeper.PlanInput)
    (p : Keeper.Plan) (s b : Nat) (x y premium : Int) (edge : Double) (sell buy : Component),
    Reachable localnet w ∧ w.index? localIndex = some idx ∧ idx.state = stateLive ∧
    Sdk.snapshot localnet w idx.indexMint w.clock.toInt = .ok input.snapshot ∧
    input.now = w.clock.toInt ∧ input.policy = steepPolicy ∧
    input.marketPricesE9 = [15, 401259958286047] ∧
    Equipped localnet localAssociated (addr 40) idx.indexMint w idx input.inventory ∧
    Keeper.plan input = .ok p ∧ .bid s b x y premium edge ∈ p.actions ∧
    idx.components[s]? = some sell ∧ idx.components[b]? = some buy ∧
    ¬ input.policy.minEdgeBps * Keeper.marketValue input b (Sdk.decodeComponent buy) y ≤
      (Keeper.marketValue input s (Sdk.decodeComponent sell) x -
        Keeper.marketValue input b (Sdk.decodeComponent buy) y) * 10000 := by
  obtain ⟨w, idx, hreach, hidx, hp⟩ := exists_of_run localAuction
    (fun w idx => decide (idx.indexMint = addr 1 ∧ idx.state = stateLive) &&
      localPlan steepPolicy [15, 401259958286047] (fun input p =>
        localEquipped w idx input.inventory && failsFloor idx input p) w)
    (by decide +kernel)
  simp only [Bool.and_eq_true, decide_eq_true_eq] at hp
  obtain ⟨⟨hm, hlive⟩, hp⟩ := hp
  obtain ⟨input, p, hsnap, hnow, hpolicy, hmarket, hplan, hp⟩ := localPlan_iff hp
  rw [Bool.and_eq_true] at hp
  obtain ⟨hequipped, hfails⟩ := hp
  obtain ⟨s, b, x, y, premium, edge, sell, buy, ha, hsell, hbuy, hfloor⟩ := failsFloor_iff hfails
  have hkeeper := localEquipped_iff hequipped
  rw [← hm] at hsnap hkeeper
  exact ⟨w, idx, input, p, s, b, x, y, premium, edge, sell, buy, hreach, hidx, hlive, hsnap, hnow,
    hpolicy, hmarket, hkeeper, hplan, ha, hsell, hbuy, hfloor⟩

end Flock
