import Flock.Convergence
import Flock.Priced
import Mathlib.Tactic.Positivity
import Mathlib.Tactic.FieldSimp

/-!
# What a bidder pays for what they take

Of the three roundings in a price the two ceilings are against the bidder and the
floor under the value of what is sold is for them. In exact rationals a bidder
pays at least the marked value just when the ceilings add no less than the floor
takes off (`PriceRounds`); an amount too small to be worth one unit of value is
sold for nothing.
-/

namespace Flock

open Outcome MachineInt Rounding

variable {ch : Chain} {m : Pubkey} {w w' : World} {idx : Index} {sell buy : Component}

/-- The exact value of `x` base units, in USD-e9. -/
def Component.exact (c : Component) (x : ℚ) : ℚ := x * c.refPriceE9.toNat / 10 ^ c.decimals.toNat

/-- The ceilings of a price make good the floor under the value sold. -/
def PriceRounds (sell buy : Component) (marked x : Nat) : Prop :=
  x * sell.refPriceE9.toNat % 10 ^ sell.decimals.toNat * marked * 10 ^ buy.decimals.toNat ≤
    (slack bps (sell.value x * marked) * 10 ^ buy.decimals.toNat +
        bps * slack buy.refPriceE9.toNat
          ((sell.value x * marked) ⌈/⌉ bps * 10 ^ buy.decimals.toNat)) *
      10 ^ sell.decimals.toNat

instance (sell buy : Component) (marked x : Nat) : Decidable (PriceRounds sell buy marked x) :=
  inferInstanceAs (Decidable (_ ≤ _))

theorem Component.price_ge_iff (hprice : buy.refPriceE9.toNat ≠ 0) (marked x : Nat) :
    sell.exact x * marked / 10000 ≤ buy.exact (sell.price buy marked x) ↔
      PriceRounds sell buy marked x := by
  have hD' : (0 : ℚ) < 10 ^ sell.decimals.toNat := by positivity
  have hE' : (0 : ℚ) < 10 ^ buy.decimals.toNat := by positivity
  unfold PriceRounds Component.value
  rw [← Rounding.price_ge_iff (by decide : 0 < bps) (Nat.pos_of_ne_zero hprice)]
  show _ ↔ _ ≤ sell.price buy marked x * buy.refPriceE9.toNat * bps * 10 ^ sell.decimals.toNat
  unfold Component.exact bps
  rw [← Nat.cast_le (α := ℚ), div_mul_eq_mul_div, div_div, div_le_div_iff₀ (by positivity) hE']
  push_cast
  constructor
  · intro h
    linarith
  · intro h
    linarith

/-- What is positive is not paid for with nothing, where the price is in favour. -/
theorem Component.price_pos {marked x : Nat} (hsell : sell.refPriceE9.toNat ≠ 0)
    (hmarked : 0 < marked) (hx : 0 < x)
    (h : sell.exact x * marked / 10000 ≤ buy.exact (sell.price buy marked x)) :
    0 < sell.price buy marked x := by
  refine Nat.pos_of_ne_zero ?_
  intro hzero
  have hs : (0 : ℚ) < sell.refPriceE9.toNat := by exact_mod_cast Nat.pos_of_ne_zero hsell
  have hx' : (0 : ℚ) < x := by exact_mod_cast hx
  have hm' : (0 : ℚ) < marked := by exact_mod_cast hmarked
  have hpos : 0 < sell.exact x * marked / 10000 := by
    unfold Component.exact
    positivity
  have hnone : buy.exact ((0 : Nat) : ℚ) = 0 := by simp [Component.exact]
  rw [hzero, hnone] at h
  exact absurd hpos (not_lt.mpr h)

/-- A bid that is filled pays at least the marked value of what it takes, and never
nothing, exactly when its price rounds in the fund's favour. -/
theorem bid_covers_value_iff (h : Reachable ch w) {k : Pubkey} (hidx : w.index? k = some idx)
    {bidder indexInfo indexMintInfo bidderReceive bidderPay tokenProgram : AccountInfo}
    {vaults : List AccountInfo}
    (signable : Signable ch (bidder :: indexInfo :: indexMintInfo :: bidderReceive :: bidderPay ::
      tokenProgram :: vaults))
    (hm : indexMintInfo.key = idx.indexMint) {s b : UInt8} {sellAmount maxBuyAmount : UInt64}
    (done : process ch w (bidder :: indexInfo :: indexMintInfo :: bidderReceive :: bidderPay ::
      tokenProgram :: vaults) (.bid s b sellAmount maxBuyAmount) = .ok w')
    (hsell : idx.components[s.toNat]? = some sell) (hbuy : idx.components[b.toNat]? = some buy)
    {premium : Int32}
    (hprem : premiumAt idx.rebalance.startPremiumBps idx.rebalance.endPremiumBps
      idx.rebalance.startTs idx.rebalance.endTs w.clock = .ok premium) :
    (sell.exact sellAmount.toNat * (10000 - premium.toInt : Int) / 10000
        ≤ buy.exact (w'.vault ch idx.indexMint buy - w.vault ch idx.indexMint buy) ∧
      (0 < sellAmount.toNat → premium.toInt < 10000 →
        w'.vault ch idx.indexMint buy ≠ w.vault ch idx.indexMint buy)) ↔
    PriceRounds sell buy (10000 - premium.toInt).toNat sellAmount.toNat := by
  have hW : AllWf ch w := (reachable_wf h).1
  obtain ⟨rfl, hwf⟩ := hW hidx
  have horder := reachable_orderly h hwf.custody.inUse hidx
  rcases hW.call_cases hwf.custody.inUse signable done with heff | ⟨hne, -⟩
  swap
  · exact absurd (congrArg some hm) hne
  cases heff with
  | bid key before done =>
    obtain rfl := Option.some.inj (hidx.symm.trans before)
    obtain rfl := Option.some.inj (hsell.symm.trans done.sell_at)
    obtain rfl := Option.some.inj (hbuy.symm.trans done.buy_at)
    obtain rfl := Except.ok.inj (hprem.symm.trans done.premium_eq)
    have hinorder := horder done.active
    have hle := hinorder.premium_le (hinorder.premiumAt_agrees hprem)
    have hmarked : ((10000 - premium.toInt : Int) : ℚ) = ((10000 - premium.toInt).toNat : ℚ) := by
      have : (((10000 - premium.toInt).toNat : Nat) : Int) = 10000 - premium.toInt := by omega
      exact_mod_cast this.symm
    have hsells := hinorder.prices sell (List.mem_of_getElem? hsell)
    have hbuys := hinorder.prices buy (List.mem_of_getElem? hbuy)
    -- what is paid is the price
    have hbought := done.bought hwf.custody
    rw [bidPrice_eq done.sized.price] at hbought
    have hpaid : (w'.vault ch idx.indexMint buy : ℚ) - w.vault ch idx.indexMint buy
        = sell.price buy (10000 - premium.toInt).toNat sellAmount.toNat := by
      rw [hbought]
      push_cast
      ring
    rw [hpaid, hmarked, Component.price_ge_iff hbuys]
    constructor
    · intro h
      exact h.1
    · intro hrounds
      refine ⟨hrounds, ?_⟩
      intro hpos _
      have := Component.price_pos hsells (by omega) hpos
        ((Component.price_ge_iff hbuys _ _).mpr hrounds)
      omega

/-- The local auction at a price of `price₃` for component 3 and no premium. -/
def pricedAuction (price₃ : UInt64) : List Act :=
  openFund ⟨0, 0, 0, 100⟩ 2000000 333333333 ++
    [localIssue 5000000000, localPropose 2050000 330000000 1000000000 price₃ 0 0, .tick 300]

def atNoPremium (w : World) (idx : Index) : Bool :=
  decide (premiumAt idx.rebalance.startPremiumBps idx.rebalance.endPremiumBps
    idx.rebalance.startTs idx.rebalance.endTs w.clock = .ok 0)

/-- At thirty dollars a whole token nothing is lost by the floor. -/
theorem bid_covers_value_local : ∃ (w w' : World) (idx : Index) (sell buy : Component),
    Reachable localnet w ∧ w.index? localIndex = some idx ∧ idx.components = [buy, sell] ∧
    w.vault localnet idx.indexMint buy < w'.vault localnet idx.indexMint buy ∧
    sell.exact 5000000 * (10000 - (0 : Int32).toInt : Int) / 10000
      ≤ buy.exact (w'.vault localnet idx.indexMint buy - w.vault localnet idx.indexMint buy) := by
  obtain ⟨w, idx, hreach, hidx, hp⟩ := exists_of_run (pricedAuction 30000000000)
    (afterBid 5000000 fun w idx w' sell buy => atNoPremium w idx &&
      decide (w.vault localnet (addr 1) buy < w'.vault localnet (addr 1) buy) &&
      decide (PriceRounds sell buy 10000 5000000))
    (by decide +kernel)
  obtain ⟨hm, sell, buy, w', hcs, -, hdone, hp⟩ := afterBid_iff.mp hp
  simp only [atNoPremium, Bool.and_eq_true, decide_eq_true_eq] at hp
  obtain ⟨⟨hprem, hgrow⟩, hrounds⟩ := hp
  rw [← hm] at hgrow
  have hsell : idx.components[(1 : UInt8).toNat]? = some sell := by rw [hcs]; rfl
  have hbuy : idx.components[(0 : UInt8).toNat]? = some buy := by rw [hcs]; rfl
  have hiff := bid_covers_value_iff hreach hidx bid_signable hm.symm hdone hsell hbuy hprem
  exact ⟨w, w', idx, sell, buy, hreach, hidx, hcs, hgrow, (hiff.mpr hrounds).1⟩

/-- At ten cents a whole token five base units have no value in whole units of
USD-e9, and are sold for nothing. -/
theorem bid_takes_for_nothing : ∃ (w w' : World) (idx : Index) (sell buy : Component),
    Reachable localnet w ∧ w.index? localIndex = some idx ∧ idx.components = [buy, sell] ∧
    Signable localnet bidAccounts ∧
    process localnet w bidAccounts (.bid 1 0 5 10000000000) = .ok w' ∧
    premiumAt idx.rebalance.startPremiumBps idx.rebalance.endPremiumBps
      idx.rebalance.startTs idx.rebalance.endTs w.clock = .ok 0 ∧
    w'.vault localnet idx.indexMint sell + 5 = w.vault localnet idx.indexMint sell ∧
    w'.vault localnet idx.indexMint buy = w.vault localnet idx.indexMint buy ∧
    ¬ sell.exact 5 * (10000 - (0 : Int32).toInt : Int) / 10000
      ≤ buy.exact (w'.vault localnet idx.indexMint buy - w.vault localnet idx.indexMint buy) := by
  obtain ⟨w, idx, hreach, hidx, hp⟩ := exists_of_run (pricedAuction 100000000)
    (afterBid 5 fun w idx w' sell buy => atNoPremium w idx &&
      decide (w'.vault localnet (addr 1) sell + 5 = w.vault localnet (addr 1) sell) &&
      decide (w'.vault localnet (addr 1) buy = w.vault localnet (addr 1) buy) &&
      decide (sell.refPriceE9.toNat = 100000000) && decide (sell.decimals.toNat = 9))
    (by decide +kernel)
  obtain ⟨hm, sell, buy, w', hcs, -, hdone, hp⟩ := afterBid_iff.mp hp
  simp only [atNoPremium, Bool.and_eq_true, decide_eq_true_eq] at hp
  obtain ⟨⟨⟨⟨hprem, hsold⟩, hpaid⟩, hprice⟩, hdec⟩ := hp
  rw [← hm] at hsold hpaid
  refine ⟨w, w', idx, sell, buy, hreach, hidx, hcs, bid_signable, hdone, hprem, hsold, hpaid, ?_⟩
  have hnone : buy.exact (w'.vault localnet idx.indexMint buy - w.vault localnet idx.indexMint buy)
      = 0 := by
    rw [hpaid, sub_self]
    simp [Component.exact]
  have hzero : ((0 : Int32).toInt) = 0 := rfl
  rw [hnone, hzero, Component.exact, hprice, hdec]
  norm_num

end Flock
