import Flock.Priced

/-!
# What the keeper makes of a pair

A snapshot of a well-formed index is read back field by field (`Seen`), and with
it what a pair of legs is sized to, from the state, the inventory, the policy and
the market prices (`World.pairAt`): the policy's share of the sold leg's excess,
scaled down where its price is over the budget, which is what the keeper holds up
to what the bought leg takes. Every pair is sized from the same snapshot, as if no
other bid and no accrual came before it.

`sizePair` and `judgePair` decide in another order than `World.pairAt` says, and
leave a note on the way; the notes are not followed here.
-/

namespace Flock

open Outcome MachineInt

variable {ch : Chain} {m : Pubkey} {w : World} {idx : Index}

/-! ## The snapshot, read back -/

/-- The snapshot shows the index as it stands in `w`. -/
structure Seen (ch : Chain) (m : Pubkey) (w : World) (idx : Index) (snap : Sdk.IndexSnapshot) :
    Prop where
  mint : snap.indexMint = m
  account : ∃ st, snap.account = Sdk.accountOf idx st
  supply : snap.supply = w.supply m
  balances : snap.balances = idx.components.map fun c => (w.vault ch m c : Int)

theorem Wf.seen (hW : Wf ch m w idx) (hidx : w.index? (ch.indexKey m) = some idx) {asOf : Int}
    {snap : Sdk.IndexSnapshot} (h : Sdk.snapshot ch w m asOf = .ok snap) : Seen ch m w idx snap := by
  obtain ⟨st, hdecode⟩ := hW.decodeIndex
  obtain ⟨mi, hmi, -⟩ := hW.custody.mint
  rw [Sdk.snapshot, hidx, hmi] at h
  dsimp only at h
  rw [hdecode, ok_bind, ok_bind, hW.vaultAmounts st, ok_bind] at h
  simp only [bind_ok_iff, pure_ok_iff] at h
  obtain ⟨units, -, pending, -, rfl⟩ := h
  exact ⟨rfl, ⟨st, rfl⟩, by rw [World.supply_of_mint? hmi], rfl⟩

section Seen

variable {snap : Sdk.IndexSnapshot} (hS : Seen ch m w idx snap)
include hS

theorem Seen.components : snap.account.components = idx.components.map Sdk.decodeComponent := by
  obtain ⟨st, h⟩ := hS.account
  rw [h]
  rfl

theorem Seen.rebalance : snap.account.rebalance = Sdk.decodeRebalance idx.rebalance := by
  obtain ⟨st, h⟩ := hS.account
  rw [h]
  rfl

theorem Seen.balance {i : Nat} {c : Component} (hc : idx.components[i]? = some c) :
    snap.balances.getD i 0 = w.vault ch m c := by
  rw [hS.balances, List.getD_eq_getElem?_getD, List.getElem?_map, hc]
  rfl

theorem Seen.legTarget (c : Component) :
    Keeper.legTarget snap (Sdk.decodeComponent c) = (c.target (w.supply m) : Int) := by
  show (_ * snap.supply).tdiv Sdk.unitScale = _
  rw [hS.supply]
  have hmul : (Sdk.decodeComponent c).targetUnits * (w.supply m : Int)
      = ((c.targetUnits.toNat * w.supply m : Nat) : Int) := (Nat.cast_mul _ _).symm
  rw [hmul]
  exact (Int.ofNat_tdiv _ unitScale).symm

theorem Seen.legCap (c : Component) :
    Keeper.legCap snap (Sdk.decodeComponent c) = (c.cap (w.supply m) idx.maxPremiumBps : Int) := by
  obtain ⟨st, h⟩ := hS.account
  have hmax : snap.account.maxPremiumBps = idx.maxPremiumBps.toNat := by rw [h]; rfl
  unfold Keeper.legCap
  rw [hS.legTarget, hmax, ← Nat.cast_mul]
  have hdiv : ((c.target (w.supply m) * idx.maxPremiumBps.toNat : Nat) : Int).tdiv Sdk.bps
      = ((c.target (w.supply m) * idx.maxPremiumBps.toNat / bps : Nat) : Int) :=
    (Int.ofNat_tdiv _ bps).symm
  rw [hdiv, ← Nat.cast_add]
  rfl

end Seen

/-! ## The market -/

namespace Keeper

/-- What an amount fetches on the market. -/
def marketValue (input : PlanInput) (i : Nat) (c : Sdk.ComponentAccount) (amount : Int) : Int :=
  (amount * input.marketPricesE9.getD i 0).tdiv (10 ^ c.decimals)

/-- The edge of `outValue` over `inValue` is a floor or more, as `number`s; and so it is in
whole values, up to what the rounding of the edge to a `number` can hide. -/
structure ClearsFloor (minEdgeBps outValue inValue : Int) : Prop where
  edge : (Double.ofBigInt (((outValue - inValue) * 10000).tdiv inValue)).lt
    (.finite minEdgeBps) = false
  exactly : minEdgeBps ≤ 2 ^ 53 → minEdgeBps * inValue ≤ (outValue - inValue) * 10000
  nearly : (minEdgeBps : ℚ) < 2 ^ 1024 →
    minEdgeBps * inValue * 2 ^ 53 ≤ (outValue - inValue) * 10000 * (2 ^ 53 + 1)

/-- `edgeBps`: what is taken for what is paid, over what is paid. -/
def edge (input : PlanInput) (s b : Nat) (sell buy : Sdk.ComponentAccount) (x y : Int) : Double :=
  Double.ofBigInt (((marketValue input s sell x - marketValue input b buy y) * Sdk.bps).tdiv
    (marketValue input b buy y))

/-- What is taken fetches more than what is paid, by the edge the policy asks for. -/
structure Cleared (input : PlanInput) (s b : Nat) (sell buy : Sdk.ComponentAccount) (x y : Int) :
    Prop where
  some_price : input.marketPricesE9.getD s 0 ≠ 0
  some_value : marketValue input b buy y ≠ 0
  edge : (edge input s b sell buy x y).lt (.finite input.policy.minEdgeBps) = false

instance (input : PlanInput) (s b : Nat) (sell buy : Sdk.ComponentAccount) (x y : Int) :
    Decidable (Cleared input s b sell buy x y) :=
  decidable_of_iff (input.marketPricesE9.getD s 0 ≠ 0 ∧ marketValue input b buy y ≠ 0 ∧
      (Keeper.edge input s b sell buy x y).lt (.finite input.policy.minEdgeBps) = false)
    ⟨fun h => ⟨h.1, h.2.1, h.2.2⟩, fun h => ⟨h.some_price, h.some_value, h.edge⟩⟩

theorem Cleared.some_paid {input : PlanInput} {s b : Nat} {sell buy : Sdk.ComponentAccount}
    {x y : Int} (h : Cleared input s b sell buy x y) : y ≠ 0 := by
  intro h0
  have hvalue := h.some_value
  rw [h0, marketValue, zero_mul, Int.zero_tdiv] at hvalue
  exact hvalue rfl

/-- A sized pair is bid for exactly when it clears the market. -/
theorem judgePair_actions {input : PlanInput} {premiumBps x : Int} {s b : Nat}
    {sell buy : Sdk.ComponentAccount} {quote : Sdk.BidQuote} :
    (judgePair input premiumBps s sell b buy x quote).actions =
      if Cleared input s b sell buy x quote.buyAmount then
        [.bid s b x quote.buyAmount premiumBps (edge input s b sell buy x quote.buyAmount)]
      else [] := by
  unfold judgePair
  dsimp only
  split
  next hprice =>
    rw [if_neg]
    · rfl
    · intro h
      rcases hprice with hsell | hbuy
      · exact h.some_price hsell
      · have hvalue := h.some_value
        rw [marketValue, hbuy, mul_zero, Int.zero_tdiv] at hvalue
        exact hvalue rfl
  next hprice =>
    split
    next hvalue =>
      rw [if_neg fun h => h.some_value hvalue]
      rfl
    next hvalue =>
      split
      next hunder =>
        rw [if_neg fun h => Bool.false_ne_true (h.edge.symm.trans hunder)]
        rfl
      next hover =>
        rw [if_pos ⟨fun h => hprice (.inl h), hvalue, Bool.eq_false_of_not_eq_true hover⟩]
        rfl

section Cleared

variable {input : PlanInput} {s b : Nat} {sell buy : Sdk.ComponentAccount} {x y : Int}
  (h : Cleared input s b sell buy x y) (hedge : 1 ≤ input.policy.minEdgeBps)
  (hprice : 0 ≤ input.marketPricesE9.getD b 0) (hy : 0 ≤ y)
include h hedge hprice hy

omit hedge in
theorem Cleared.value_pos : 0 < marketValue input b buy y :=
  lt_of_le_of_ne (Int.tdiv_nonneg (mul_nonneg hy hprice) (pow_nonneg (by decide) _))
    h.some_value.symm

/-- The whole basis points of the edge, multiplied out. -/
theorem Cleared.edge_mul_le :
    ((marketValue input s sell x - marketValue input b buy y) * Sdk.bps).tdiv
        (marketValue input b buy y) * marketValue input b buy y
      ≤ (marketValue input s sell x - marketValue input b buy y) * 10000 := by
  have hpos := h.value_pos hprice hy
  have hsome := Double.pos_of_ofBigInt hedge h.edge
  by_cases hgain : 0 ≤ (marketValue input s sell x - marketValue input b buy y) * Sdk.bps
  · rw [Int.tdiv_eq_ediv_of_nonneg hgain]
    exact Int.ediv_mul_le _ hpos.ne'
  · -- a loss has no edge of a basis point
    have hloss := Int.tdiv_nonneg (neg_nonneg.mpr (le_of_not_ge hgain)) hpos.le
    rw [Int.neg_tdiv] at hloss
    omega

/-- A bid that clears is a gain. -/
theorem Cleared.gain_pos : marketValue input b buy y < marketValue input s sell x := by
  have hpos := h.value_pos hprice hy
  have hsome := Double.pos_of_ofBigInt hedge h.edge
  have hle := h.edge_mul_le hedge hprice hy
  have hmul := mul_pos hsome hpos
  omega

/-- A floor up to 2 ^ 53 is held, and any other but for one part in 2 ^ 53. -/
theorem Cleared.clearsFloor :
    ClearsFloor input.policy.minEdgeBps (marketValue input s sell x)
      (marketValue input b buy y) := by
  have hpos := h.value_pos hprice hy
  have hle := h.edge_mul_le hedge hprice hy
  refine ⟨h.edge, fun hfits => ?_, fun hfits => ?_⟩
  · have hfloor := Double.le_of_ofBigInt hedge hfits h.edge
    exact (mul_le_mul_of_nonneg_right hfloor hpos.le).trans hle
  · have hfloor := Double.scaled_le_of_ofBigInt hedge hfits h.edge
    generalize ((marketValue input s sell x - marketValue input b buy y) * Sdk.bps).tdiv
      (marketValue input b buy y) = edge at hfloor hle
    calc input.policy.minEdgeBps * marketValue input b buy y * 2 ^ 53
        = input.policy.minEdgeBps * 2 ^ 53 * marketValue input b buy y := by ring
      _ ≤ edge * (2 ^ 53 + 1) * marketValue input b buy y :=
          mul_le_mul_of_nonneg_right hfloor hpos.le
      _ = edge * marketValue input b buy y * (2 ^ 53 + 1) := by ring
      _ ≤ (marketValue input s sell x - marketValue input b buy y) * 10000 * (2 ^ 53 + 1) :=
          mul_le_mul_of_nonneg_right hle (by norm_num)

end Cleared

end Keeper

/-! ## The size of a pair -/

/-- An amount whose price is over the budget is scaled down with it. -/
def scaled (price : Nat → Nat) (budget amount : Nat) : Nat :=
  if price amount ≤ budget then amount else amount * budget / price amount

theorem scaled_le (price : Nat → Nat) (budget amount : Nat) :
    scaled price budget amount ≤ amount := by
  unfold scaled
  split
  next => exact le_refl _
  next hover =>
    calc amount * budget / price amount
        ≤ amount * price amount / price amount :=
          Nat.div_le_div_right (Nat.mul_le_mul_left amount (by omega))
      _ = amount := Nat.mul_div_cancel amount (by omega)

/-- The size of a bid and its price: nothing, if scaling leaves nothing or the price is still
over the budget. -/
def sizeWithin (price : Nat → Nat) (budget amount : Nat) : Option (Nat × Nat) :=
  let x := scaled price budget amount
  if x ≠ 0 ∧ price x ≤ budget then some (x, price x) else none

theorem sizeWithin_zero (price : Nat → Nat) (budget : Nat) : sizeWithin price budget 0 = none := by
  have hzero : scaled price budget 0 = 0 := Nat.le_zero.mp (scaled_le price budget 0)
  unfold sizeWithin
  rw [hzero]
  exact if_neg fun h => h.1 rfl

/-- What a sizing sells and pays. -/
def Keeper.Sizing.size? : Keeper.Sizing → Option (Int × Int)
  | .sized x quote => some (x, quote.buyAmount)
  | _ => none

section Pair

variable {input : Keeper.PlanInput} {premium : Int} {sell buy : Component} {b : Nat}
  (hprem : premium ≤ 1000) (hprice : buy.refPriceE9.toNat ≠ 0)
include hprem hprice

theorem trimPair_size {n budget : Nat} {quote : Sdk.BidQuote}
    (hquote : quote.buyAmount = sell.price buy (10000 - premium).toNat n)
    (hover : budget < sell.price buy (10000 - premium).toNat n) :
    ∃ sizing, Keeper.trimPair (Sdk.decodeComponent sell) (Sdk.decodeComponent buy) premium n budget
        quote = .ok sizing ∧
      sizing.size? = (sizeWithin (sell.price buy (10000 - premium).toNat) budget n).map
        (Prod.map Nat.cast Nat.cast) := by
  have hscaled : scaled (sell.price buy (10000 - premium).toNat) budget n
      = n * budget / sell.price buy (10000 - premium).toNat n := if_neg (by omega)
  rw [Keeper.trimPair, hquote, Sdk.mulDivFloor_nat n budget (by omega), ok_bind, ← hscaled,
    sizeWithin]
  generalize scaled _ _ _ = x
  by_cases h0 : x = 0
  · rw [if_pos (by exact_mod_cast h0), if_neg fun h => h.1 h0]
    exact ⟨_, rfl, rfl⟩
  · rw [if_neg (by exact_mod_cast h0), Sdk.quotePair_nat hprem hprice, ok_bind]
    dsimp only
    by_cases hle : sell.price buy (10000 - premium).toNat x ≤ budget
    · rw [if_neg (by exact_mod_cast hle.not_gt), if_pos ⟨h0, hle⟩]
      exact ⟨_, rfl, rfl⟩
    · rw [if_pos (by exact_mod_cast not_le.mp hle), if_neg fun h => hle h.2]
      exact ⟨_, rfl, rfl⟩

variable (sell) in
/-- Where there is a budget, a pair is sized to it. -/
theorem sizePair_size (E : Nat) {B T : Nat} (hshare : 0 ≤ input.policy.maxLegShareBps)
    (hheld : 0 ≤ input.inventory.getD b 0)
    (hB : input.snapshot.balances.getD b 0 = B)
    (hT : Keeper.legCap input.snapshot (Sdk.decodeComponent buy) = T) {budget : Nat}
    (hbudget : budget = min (input.inventory.getD b 0).toNat (T - B)) :
    ∃ sizing, Keeper.sizePair input premium E (Sdk.decodeComponent sell) b
        (Sdk.decodeComponent buy) = .ok sizing ∧
      sizing.size? = if budget = 0 then none else
        (sizeWithin (sell.price buy (10000 - premium).toNat) budget
          (E * input.policy.maxLegShareBps.toNat / bps)).map (Prod.map Nat.cast Nat.cast) := by
  obtain ⟨share, hshare'⟩ := Int.eq_ofNat_of_zero_le hshare
  obtain ⟨held, hheld'⟩ := Int.eq_ofNat_of_zero_le hheld
  have hask : ((E : Int) * share).tdiv Sdk.bps = (E * share / bps : Nat) := by
    rw [← Nat.cast_mul]
    exact (Int.ofNat_tdiv _ bps).symm
  rw [hheld', Int.toNat_natCast] at hbudget
  rw [hshare', Int.toNat_natCast, Keeper.sizePair, hT, hB, hshare', hask, hheld']
  generalize E * share / bps = n
  dsimp only
  by_cases hfull : T ≤ B
  · rw [if_pos (by exact_mod_cast hfull), if_pos (by omega)]
    exact ⟨_, rfl, rfl⟩
  have hroom : Keeper.budgetOf held ((T : Int) - B) = budget := by
    unfold Keeper.budgetOf
    split <;> omega
  rw [if_neg (by exact_mod_cast hfull)]
  by_cases hn : n = 0
  · rw [if_pos (by exact_mod_cast hn), hn, sizeWithin_zero]
    exact ⟨_, rfl, (ite_self _).symm⟩
  rw [if_neg (by exact_mod_cast hn), Sdk.quotePair_nat hprem hprice, ok_bind, hroom]
  dsimp only
  by_cases h0 : budget = 0
  · rw [if_pos (by exact_mod_cast h0), if_pos h0]
    exact ⟨_, rfl, rfl⟩
  rw [if_neg (by exact_mod_cast h0), if_neg h0]
  by_cases hover : budget < sell.price buy (10000 - premium).toNat n
  · rw [if_pos (by exact_mod_cast hover)]
    exact trimPair_size hprem hprice rfl hover
  · have hfits := not_lt.mp hover
    have hscaled : scaled (sell.price buy (10000 - premium).toNat) budget n = n := if_pos hfits
    rw [if_neg (by exact_mod_cast hover), sizeWithin, hscaled, if_pos ⟨hn, hfits⟩]
    exact ⟨_, rfl, rfl⟩

end Pair

/-! ## The bid for a pair -/

section Bid

variable (w : World) (ch : Chain) (m : Pubkey) (idx : Index) (input : Keeper.PlanInput)

/-- What the policy takes of the excess of a leg. -/
def World.asked (sell : Component) : Nat :=
  (w.vault ch m sell - sell.target (w.supply m)) * input.policy.maxLegShareBps.toNat / bps

/-- What can be paid into a leg: what the keeper holds, up to what the leg takes. -/
def World.budget (b : Nat) (buy : Component) : Nat :=
  min (input.inventory.getD b 0).toNat
    (buy.cap (w.supply m) idx.maxPremiumBps - w.vault ch m buy)

/-- What is bid for a pair of legs at a premium, and what for: a size that clears the market. -/
def World.pairAt (premium : Int) (s b : Nat) (sell buy : Component) : Option (Nat × Nat) :=
  (sizeWithin (sell.price buy (10000 - premium).toNat) (w.budget ch m idx input b buy)
    (w.asked ch m input sell)).filter fun size =>
      s ≠ b ∧ Keeper.Cleared input s b (Sdk.decodeComponent sell) (Sdk.decodeComponent buy)
        size.1 size.2

/-- The bid of a size. -/
def Keeper.bidFor (input : Keeper.PlanInput) (premium : Int) (s b : Nat) (sell buy : Component)
    (size : Nat × Nat) : Keeper.Action :=
  .bid s b size.1 size.2 premium
    (Keeper.edge input s b (Sdk.decodeComponent sell) (Sdk.decodeComponent buy) size.1 size.2)

end Bid

section Bid

variable {input : Keeper.PlanInput} {premium : Int} {s b x y : Nat} {sell buy : Component}

/-- What a bid says about its sizes. -/
theorem World.pairAt_eq_some (h : w.pairAt ch m idx input premium s b sell buy = some (x, y)) :
    x ≠ 0 ∧ x ≤ w.asked ch m input sell ∧ y = sell.price buy (10000 - premium).toNat x ∧
      y ≤ w.budget ch m idx input b buy ∧ s ≠ b ∧
      Keeper.Cleared input s b (Sdk.decodeComponent sell) (Sdk.decodeComponent buy) x y := by
  obtain ⟨hsize, hkept⟩ := Option.filter_eq_some_iff.mp h
  obtain ⟨hne, hclear⟩ := of_decide_eq_true hkept
  unfold sizeWithin at hsize
  dsimp only at hsize
  split at hsize
  next hsized =>
    obtain ⟨rfl, rfl⟩ := Prod.mk.inj (Option.some.inj hsize)
    exact ⟨hsized.1, scaled_le _ _ _, rfl, hsized.2, hne, hclear⟩
  next => cases hsize

variable (s sell) in
/-- The body of the inner loop bids what `pairAt` says. -/
theorem planPair_actions (hS : Seen ch m w idx input.snapshot) (hprem : premium ≤ 1000)
    (hprice : buy.refPriceE9.toNat ≠ 0) (hshare : 0 ≤ input.policy.maxLegShareBps)
    (hheld : 0 ≤ input.inventory.getD b 0) (hbuy : idx.components[b]? = some buy)
    {E : Nat} (hE : E = w.vault ch m sell - sell.target (w.supply m)) :
    ∃ p, Keeper.planPair input premium s (Sdk.decodeComponent sell) E b (Sdk.decodeComponent buy)
        = .ok p ∧
      p.actions = ((w.pairAt ch m idx input premium s b sell buy).map
        (Keeper.bidFor input premium s b sell buy)).toList := by
  -- where nothing is bid
  have hnothing : ∀ p : Keeper.Plan, p.actions = [] →
      w.pairAt ch m idx input premium s b sell buy = none →
      p.actions = ((w.pairAt ch m idx input premium s b sell buy).map
        (Keeper.bidFor input premium s b sell buy)).toList := by
    intro p hp hnone
    rw [hp, hnone]
    rfl
  unfold Keeper.planPair
  by_cases hself : b = s
  · rw [if_pos hself]
    refine ⟨_, rfl, hnothing _ rfl (Option.eq_none_iff_forall_ne_some.mpr fun size hsize => ?_)⟩
    exact (World.pairAt_eq_some hsize).2.2.2.2.1 hself.symm
  obtain ⟨sizing, hsizing, hsize⟩ := sizePair_size sell hprem hprice E hshare hheld
    (hS.balance hbuy) (hS.legCap buy) (show w.budget ch m idx input b buy = _ from rfl)
  rw [if_neg hself, hsizing, ok_bind]
  have hask : E * input.policy.maxLegShareBps.toNat / bps = w.asked ch m input sell := by
    rw [hE, World.asked]
  rw [hask] at hsize
  by_cases h0 : w.budget ch m idx input b buy = 0
  · -- what costs nothing clears no market
    rw [if_pos h0] at hsize
    have hnone : w.pairAt ch m idx input premium s b sell buy = none := by
      refine Option.eq_none_iff_forall_ne_some.mpr fun size hsome => ?_
      obtain ⟨-, -, -, hle, -, hclear⟩ := World.pairAt_eq_some hsome
      have hpaid := hclear.some_paid
      omega
    cases sizing with
    | skip => exact ⟨_, rfl, hnothing _ rfl hnone⟩
    | noInventory => exact ⟨_, rfl, hnothing _ rfl hnone⟩
    | sized x quote => cases hsize
  rw [if_neg h0] at hsize
  unfold World.pairAt
  cases hwithin : sizeWithin (sell.price buy (10000 - premium).toNat) (w.budget ch m idx input b buy)
    (w.asked ch m input sell) with
  | none =>
    rw [hwithin] at hsize
    cases sizing with
    | skip => exact ⟨_, rfl, rfl⟩
    | noInventory => exact ⟨_, rfl, rfl⟩
    | sized x quote => cases hsize
  | some size =>
    rw [hwithin] at hsize
    cases sizing with
    | skip => cases hsize
    | noInventory => cases hsize
    | sized x quote =>
      obtain ⟨rfl, hquote⟩ := Prod.mk.inj (Option.some.inj hsize)
      refine ⟨_, rfl, ?_⟩
      rw [Keeper.judgePair_actions, hquote, Option.filter_some]
      by_cases hclear : Keeper.Cleared input s b (Sdk.decodeComponent sell)
          (Sdk.decodeComponent buy) size.1 size.2
      · rw [if_pos hclear, if_pos (decide_eq_true ⟨Ne.symm hself, hclear⟩)]
        rfl
      · rw [if_neg hclear, if_neg fun h => hclear (of_decide_eq_true h).2]
        rfl

end Bid

end Flock
