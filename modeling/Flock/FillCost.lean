import Flock.NavLoss
import Mathlib.Data.Nat.ModEq
import Mathlib.Algebra.BigOperators.Ring.Finset

/-!
# What fills cost the fund

A fill moves six roundings at once: the value of what is sold is a floor, the
marked-up value a ceiling, what is paid for it a ceiling again, and the fund's
own value before and after is a sum of floors. All but one of them are in the
fund's favour. The one that is not is the floor under the sold leg's value,
which a fill can take one unit more from than the floor it was priced at.
-/

namespace Flock

open Outcome MachineInt FiniteSum

variable {ch : Chain} {m : Pubkey} {w w' w'' : World} {idx idx' : Index}

/-! ## One leg -/

/-- A delivery is worth no less in the vault than by itself. -/
theorem Component.value_add_ge (c : Component) (b y : Nat) :
    c.value b + c.value y ≤ c.value (b + y) := by
  unfold Component.value
  rw [Nat.add_mul]
  exact Nat.div_add_div_le_add_div

/-- What is taken was worth at most one unit more in the vault than by itself. -/
theorem Component.value_add_le (c : Component) (b x : Nat) :
    c.value (b + x) ≤ c.value b + c.value x + 1 := by
  unfold Component.value
  rw [Nat.add_mul]
  exact Nat.add_div_le_div_add_div_add_one _ _ _

/-- The price of a fill: what is paid in is worth at least the marked-up value. -/
theorem bidPrice_ok {sell buy : Component} {premium : Int32} {sellAmount buyAmount : UInt64}
    (h : bidPrice sell buy premium sellAmount = .ok buyAmount) :
    (sell.value sellAmount.toNat : ℤ) * (10000 - premium.toInt)
      ≤ buy.value buyAmount.toNat * 10000 := by
  simp only [bidPrice, bind_ok_iff, valueE9_ok_iff, mulDivCeil_ok_iff] at h
  obtain ⟨_, ⟨-, rfl⟩, marked, hmarked, valueIn, ⟨-, -, rfl⟩, hpay⟩ := h
  obtain ⟨hprice, hpay⟩ := amountFromValueCeil_ok hpay
  have hmarked' := toU128_ok hmarked
  -- the marked-up value, rounded up
  have hin : sell.value sellAmount.toNat * marked
      ≤ (sell.value sellAmount.toNat * marked) ⌈/⌉ 10000 * 10000 :=
    Rounding.le_ceilDiv_mul (by decide) _
  -- what buys that value, rounded up
  have hout : (sell.value sellAmount.toNat * marked) ⌈/⌉ 10000 ≤ buy.value buyAmount.toNat := by
    unfold Component.value
    rw [Nat.le_div_iff_mul_le (Nat.pow_pos (by decide)), hpay]
    exact Rounding.le_ceilDiv_mul (Nat.pos_of_ne_zero hprice) _
  have hle : sell.value sellAmount.toNat * marked ≤ buy.value buyAmount.toNat * 10000 :=
    hin.trans (Nat.mul_le_mul_right _ hout)
  calc (sell.value sellAmount.toNat : ℤ) * (10000 - premium.toInt)
      = sell.value sellAmount.toNat * marked := by rw [hmarked']; rfl
    _ ≤ buy.value buyAmount.toNat * 10000 := by exact_mod_cast hle

/-! ## One fill -/

section Filled

variable {s b : UInt8} {sellAmount maxBuyAmount buyAmount : UInt64}
  {bidderReceive bidderPay : Pubkey} {sell buy : Component} {mi : Mint} {premium : Int32}

/-- What a fill does to the value of each component. -/
theorem Filled.value_ge (h : Filled ch m idx w w' s b sellAmount maxBuyAmount bidderReceive
    bidderPay sell buy mi premium buyAmount) (hC : Custody ch m w idx) {c : Component}
    (hc : c ∈ idx.components) :
    (c.value (w.vault ch m c) : ℤ) +
        (if c.mint = buy.mint then (buy.value buyAmount.toNat : ℤ) else 0) ≤
      c.value (w'.vault ch m c) +
        (if c.mint = sell.mint then (sell.value sellAmount.toNat + 1 : ℤ) else 0) := by
  have hne := h.mint_ne hC
  by_cases hcb : c.mint = buy.mint
  · obtain rfl := hC.eq_of_mint hc (List.mem_of_getElem? h.buy_at) hcb
    rw [if_pos rfl, if_neg (Ne.symm hne), add_zero, h.bought hC]
    exact_mod_cast c.value_add_ge _ _
  rw [if_neg hcb, add_zero]
  by_cases hcs : c.mint = sell.mint
  · obtain rfl := hC.eq_of_mint hc (List.mem_of_getElem? h.sell_at) hcs
    rw [if_pos rfl]
    have hsold := h.sold hC
    have hle := taken_le ch m c bidderReceive sellAmount
    have hback : w.vault ch m c ≤ w'.vault ch m c + sellAmount.toNat := by omega
    have hmono : c.value (w.vault ch m c) ≤ c.value (w'.vault ch m c + sellAmount.toNat) :=
      Nat.div_le_div_right (Nat.mul_le_mul_right _ hback)
    have := hmono.trans (c.value_add_le _ _)
    omega
  · rw [if_neg hcs, add_zero]
    have hv := h.vault c hc
    rw [if_neg hcb, if_neg hcs] at hv
    have hstill : w'.vault ch m c = w.vault ch m c := by omega
    rw [hstill]

/-- The step lemma: a fill costs the fund its premium on what it sells, and one
unit. -/
theorem Filled.cost (h : Filled ch m idx w w' s b sellAmount maxBuyAmount bidderReceive
    bidderPay sell buy mi premium buyAmount) (hC : Custody ch m w idx) :
    (w.valueE9 ch m idx : ℤ) * 10000 -
        ((sell.value sellAmount.toNat : ℤ) * premium.toInt + 10000)
      ≤ w'.valueE9 ch m idx * 10000 := by
  have hsum := List.sum_le_sum fun c hc => h.value_ge hC (c := c) hc
  rw [List.sum_map_add, List.sum_map_add,
    sum_map_ite_key hC.nodup (List.mem_of_getElem? h.buy_at),
    sum_map_ite_key hC.nodup (List.mem_of_getElem? h.sell_at)] at hsum
  have hcast : ∀ v : World, (v.valueE9 ch m idx : ℤ)
      = (idx.components.map fun c => (c.value (v.vault ch m c) : ℤ)).sum := by
    intro v
    rw [World.valueE9, Nat.cast_list_sum, List.map_map]
    rfl
  rw [hcast, hcast]
  have hprice := bidPrice_ok h.sized.price
  linarith

end Filled

/-! ## A series of fills -/

/-- The value of the fund of `m` in USD-e9, as its record stands. -/
def valueAt (ch : Chain) (m : Pubkey) (w : World) : Nat :=
  match w.index? (ch.indexKey m) with
  | some idx => w.valueE9 ch m idx
  | none => 0

theorem valueAt_of_index? (h : w.index? (ch.indexKey m) = some idx) :
    valueAt ch m w = w.valueE9 ch m idx := by
  unfold valueAt
  rw [h]

/-- A series of fills, with the value each one sold and the premium it got.
Between two of them time may pass. -/
inductive FillRun (ch : Chain) (m : Pubkey) (w : World) : List (Nat × Int) → World → Prop where
  | start : FillRun ch m w [] w
  | tick {fills w'} {t : Int64} (run : FillRun ch m w fills w') (later : w'.clock ≤ t) :
      FillRun ch m w fills { w' with clock := t }
  | fill {fills w' w'' idx sell} {accounts : List AccountInfo} {s b : UInt8}
      {sellAmount maxBuyAmount : UInt64} {premium : Int32} (run : FillRun ch m w fills w')
      (signable : Signable ch accounts)
      (done : process ch w' accounts (.bid s b sellAmount maxBuyAmount) = .ok w'')
      (concerns : Concerns m accounts (.bid s b sellAmount maxBuyAmount))
      (record : w'.index? (ch.indexKey m) = some idx)
      (sell_at : idx.components[s.toNat]? = some sell)
      (premium_eq : premiumAt idx.rebalance.startPremiumBps idx.rebalance.endPremiumBps
        idx.rebalance.startTs idx.rebalance.endTs w'.clock = .ok premium) :
      FillRun ch m w (fills ++ [(sell.value sellAmount.toNat, premium.toInt)]) w''

/-- What the fills may have cost, in ten-thousandths of a USD-e9 unit. -/
def costBound (fills : List (Nat × Int)) : Int := (fills.map fun f => (f.1 : Int) * f.2 + 10000).sum

theorem costBound_concat (fills : List (Nat × Int)) (v : Nat) (p : Int) :
    costBound (fills ++ [(v, p)]) = costBound fills + (v * p + 10000) := by
  simp [costBound]

/-- The run lemma. -/
theorem FillRun.cost {fills : List (Nat × Int)} (h : FillRun ch m w fills w') (hW : AllWf ch w)
    (hm : ch.inUse m) (hidx : w.index? (ch.indexKey m) = some idx) :
    AllWf ch w' ∧ (∃ idx', w'.index? (ch.indexKey m) = some idx') ∧
      (valueAt ch m w : ℤ) * 10000 - costBound fills ≤ valueAt ch m w' * 10000 := by
  induction h with
  | start =>
    refine ⟨hW, ⟨idx, hidx⟩, ?_⟩
    show (valueAt ch m w : ℤ) * 10000 - 0 ≤ valueAt ch m w * 10000
    omega
  | tick _ later ih =>
    obtain ⟨hW', hrec, hcost⟩ := ih
    exact ⟨(Step.outside (Outside.tick later)).allWf hW', hrec, hcost⟩
  | @fill fills w₁ w₂ idx₁ sell accounts s b sellAmount maxBuyAmount premium _ signable done
      concerns record sell_at premium_eq ih =>
    obtain ⟨hW₁, -, hcost⟩ := ih
    have hC := (hW₁.wf hm record).custody
    rcases hW₁.call_cases hm signable done with heff | ⟨hne, -⟩
    swap
    · exact absurd concerns hne
    cases heff with
    | bid key before filled =>
      obtain rfl := Option.some.inj (record.symm.trans before)
      obtain rfl := Option.some.inj (sell_at.symm.trans filled.sell_at)
      obtain rfl := Except.ok.inj (premium_eq.symm.trans filled.premium_eq)
      refine ⟨(Step.call signable done).allWf hW₁, ⟨_, filled.record⟩, ?_⟩
      have hstep := filled.cost hC
      rw [costBound_concat, valueAt_of_index? filled.record, World.valueE9_synced]
      rw [valueAt_of_index? record] at hcost
      omega

/-- From any reachable world, a series of fills leaves the fund at least what it
was worth, less each fill's premium on the value it sold and one unit. -/
theorem fills_cost_bounded (h : Reachable ch w) {k : Pubkey} (hidx : w.index? k = some idx)
    {fills : List (Nat × Int)} (hrun : FillRun ch idx.indexMint w fills w') :
    (valueAt ch idx.indexMint w : ℤ) * 10000 - costBound fills
      ≤ valueAt ch idx.indexMint w' * 10000 := by
  have hW : AllWf ch w := (reachable_wf h).1
  obtain ⟨rfl, hwf⟩ := hW hidx
  exact (hrun.cost hW hwf.custody.inUse hidx).2.2

/-- The bid the local holder makes, and what its cost is counted at. -/
def localBid (p : World → Component → Int32 → World → Bool) (w : World) (idx : Index) : Bool :=
  endsIn (process localnet w bidAccounts (.bid 1 0 2000000 10000000000)) fun w' =>
    match idx.components[(1 : UInt8).toNat]?,
      premiumAt idx.rebalance.startPremiumBps idx.rebalance.endPremiumBps
        idx.rebalance.startTs idx.rebalance.endTs w.clock with
    | some sell, .ok premium => p w sell premium w'
    | _, _ => false

theorem localBid_run {p : World → Component → Int32 → World → Bool} {fills : List (Nat × Int)}
    {w₀ : World} (hrun : FillRun localnet (addr 1) w₀ fills w)
    (hidx : w.index? (localnet.indexKey (addr 1)) = some idx) (h : localBid p w idx = true) :
    ∃ sell premium w', FillRun localnet (addr 1) w₀
        (fills ++ [(sell.value (2000000 : UInt64).toNat, premium.toInt)]) w' ∧
      p w sell premium w' = true := by
  unfold localBid at h
  obtain ⟨w', hdone, h⟩ := endsIn_iff.mp h
  split at h
  next sell premium hsell hpremium =>
    exact ⟨sell, premium, w', hrun.fill bid_signable hdone rfl hidx hsell hpremium, h⟩
  next => cases h

/-- Two bids at a premium of one percent. -/
theorem fills_cost_bounded_local : ∃ (w w' : World) (idx : Index) (v v' : Nat),
    Reachable localnet w ∧ w.index? localIndex = some idx ∧ 0 < v ∧
    FillRun localnet idx.indexMint w [(v, 100), (v', 100)] w' ∧
    (valueAt localnet idx.indexMint w : ℤ) * 10000 - costBound [(v, 100), (v', 100)]
      ≤ valueAt localnet idx.indexMint w' * 10000 := by
  obtain ⟨w, idx, hreach, hidx, hp⟩ := exists_of_run
    (openFund ⟨0, 0, 0, 100⟩ 2000000 333333333 ++ [localIssue 5000000000,
      localPropose 2050000 330000000 1000000000 30000000000 100 100, .tick 300])
    (fun w idx => decide (idx.indexMint = addr 1) &&
      localBid (fun _ sell premium w₁ => decide (premium.toInt = 100) &&
        decide (0 < sell.value (2000000 : UInt64).toNat) &&
        indexPasses (localBid fun _ _ premium' _ => decide (premium'.toInt = 100)) w₁) w idx)
    (by decide +kernel)
  rw [Bool.and_eq_true, decide_eq_true_eq] at hp
  obtain ⟨hm, hp⟩ := hp
  obtain ⟨sell, premium, w₁, hrun, hp⟩ := localBid_run .start hidx hp
  simp only [Bool.and_eq_true, decide_eq_true_eq] at hp
  obtain ⟨⟨hpremium, hv⟩, hp⟩ := hp
  obtain ⟨idx₁, hidx₁, hp⟩ := indexPasses_iff.mp hp
  obtain ⟨sell', premium', w₂, hrun', hp⟩ := localBid_run hrun hidx₁ hp
  rw [hpremium, of_decide_eq_true hp, ← hm] at hrun'
  exact ⟨w, w₂, idx, _, _, hreach, hidx, hv, hrun', fills_cost_bounded hreach hidx hrun'⟩

end Flock
