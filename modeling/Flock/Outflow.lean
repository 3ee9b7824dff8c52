import Flock.Convergence
import Flock.Pools
import Flock.SelfListing
import Mathlib.GroupTheory.GroupAction.Ring

/-!
# What takes assets out

Only two instructions can leave a vault with less: a redemption, which burns
what it pays for, and a bid, which pays for what it takes. The accounts a caller
names make no difference. A vault is in custody, so nobody can burn or debit it
as their own; where index tokens are outstanding no vault holds them, so a fee
account cannot be one; and a caller who names a vault as the account to be paid
moves nothing.
-/

namespace Flock

open Outcome MachineInt

variable {ch : Chain} {m : Pubkey} {w w₁ w' : World} {idx : Index}

/-- A redemption. The accrual of this call took `w` to `w₁` and minted `owed`; there and
with the units refreshed, the token program burned `amount` of what lay in the account the
signing user named, which it lets the user burn from. That account ends with exactly that
much less, but for the fees if it is the fee account too, and no vault paid more than its
units are worth for the amount less the fee. -/
inductive BurnedFor (ch : Chain) (m : Pubkey) (idx : Index) (w w' : World) :
    List AccountInfo → FlockInstruction → Prop where
  | redeem {user indexInfo indexMintInfo userIndexAta feeAta tokenProgram : AccountInfo}
      {rest : List AccountInfo} {amount : UInt64} {minOut : List UInt64} {w₁ w₂ : World}
      {t : TokenAccount} {owed fee net : UInt64}
      (signed : user.isSigner = true)
      (account : w.token? userIndexAta.key = some t ∧ t.mint = m)
      (allowed : ch.token.mayBurn t user.key amount = true)
      (accrual : Accrual ch m idx w w₁ feeAta.key owed)
      (burned : ch.token.burn
        (w₁.setIndex (ch.indexKey m) (idx.refreshed ch m w₁ w.clock))
        userIndexAta.key m user.key amount = .ok w₂)
      (left : w'.amount userIndexAta.key + amount.toNat = w.amount userIndexAta.key +
        if userIndexAta.key = feeAta.key then owed.toNat + fee.toNat else 0)
      (fee_eq : fee.toNat = (amount.toNat * idx.redeemFeeBps.toNat) ⌈/⌉ 10000)
      (net_eq : net.toNat + fee.toNat = amount.toNat)
      (accrued : w₁.supply m = w.supply m + owed.toNat)
      (retired : w₂.supply m + amount.toNat = w₁.supply m)
      (minted : w'.supply m = w₂.supply m + fee.toNat)
      (paid : ∀ c ∈ idx.components, w.vault ch m c ≤ w'.vault ch m c +
        w.vault ch m c * 1000000000 / w₁.supply m * net.toNat / 1000000000) :
      BurnedFor ch m idx w w'
        (user :: indexInfo :: indexMintInfo :: userIndexAta :: feeAta :: tokenProgram :: rest)
        (.redeem amount minOut)

/-- A fill: inside the window of a live index one vault sold no more than the bid
asked for, one gained the price, and no other vault moved. -/
inductive PaidFor (ch : Chain) (m : Pubkey) (idx : Index) (w w' : World) :
    FlockInstruction → Prop where
  | bid {s b : UInt8} {sellAmount maxBuyAmount buyAmount : UInt64} {sell buy : Component}
      {mi : Mint} {premium : Int32}
      (live : idx.state = stateLive) (active : idx.rebalance.active ≠ 0)
      (opened : idx.rebalance.startTs ≤ w.clock) (notClosed : w.clock ≤ idx.rebalance.endTs)
      (sell_at : idx.components[s.toNat]? = some sell)
      (buy_at : idx.components[b.toNat]? = some buy)
      (mint : w.mint? m = some mi)
      (premium_eq : premiumAt idx.rebalance.startPremiumBps idx.rebalance.endPremiumBps
        idx.rebalance.startTs idx.rebalance.endTs w.clock = .ok premium)
      (computed : bidSizing sell buy idx.maxPremiumBps premium mi.supply
        (w.balance (ch.vaultKey m sell.mint)) (w.balance (ch.vaultKey m buy.mint)) sellAmount
        maxBuyAmount = .ok buyAmount)
      (sold : w.vault ch m sell ≤ w'.vault ch m sell + sellAmount.toNat)
      (bought : w'.vault ch m buy = w.vault ch m buy + buyAmount.toNat)
      (others : ∀ c ∈ idx.components, c ≠ sell → c ≠ buy → w'.vault ch m c = w.vault ch m c) :
      PaidFor ch m idx w w' (.bid s b sellAmount maxBuyAmount)

/-- The supply moved by what was burned, by a streaming fee that was due, and by
the fee of a redemption, which is at most one percent of its amount. -/
def SupplyAccounted (m : Pubkey) (idx : Index) (w w' : World) (ix : FlockInstruction) : Prop :=
  ∃ owed fee burned : UInt64,
    w'.supply m + burned.toNat = w.supply m + owed.toNat + fee.toNat ∧
    (owed.toNat ≠ 0 → ∃ mi, w.mint? m = some mi ∧ streamingFeeTokens mi.supply
      idx.streamingFeeBps (saturatingSub w.clock idx.lastFeeAccrual) = .ok owed) ∧
    (fee.toNat ≠ 0 → (∃ minOut, ix = .redeem burned minOut) ∧ fee.toNat ≤ burned.toNat ⌈/⌉ 100)

def FlockInstruction.isIssue : FlockInstruction → Bool
  | .issue .. => true
  | _ => false

theorem Leg.vault_still (h : Leg ch m w w' 0 0) (c : Component) :
    w'.vault ch m c = w.vault ch m c := by
  have hA := h.flow.amount (ch.vaultKey m c.mint)
  rw [Pi.zero_apply] at hA
  unfold World.vault
  omega

theorem Issued.vault_le {amount owed fee gross : UInt64} {maxIn : List UInt64}
    {userIndexAta feeAta : Pubkey}
    (h : Issued ch m idx w w₁ w' amount maxIn userIndexAta feeAta owed fee gross)
    {c : Component} (hc : c ∈ idx.components) : w.vault ch m c ≤ w'.vault ch m c := by
  obtain ⟨c₁, hc₁, he⟩ := Index.exists_refreshed ch m w₁ w.clock hc
  have hge := h.vault_ge hc₁
  rw [World.vault_congr he, World.vault_congr he] at hge
  have hle := h.accrual.vault_le c
  omega

/-- What there was to burn was outstanding before the accrual. -/
theorem Redeemed.supply_ne_zero {amount owed fee net : UInt64}
    {user userIndexAta feeAta : Pubkey} {payees : List (AccountInfo × AccountInfo)}
    (h : Redeemed ch m idx w w₁ w' amount user userIndexAta feeAta payees owed fee net) :
    w.supply m ≠ 0 := by
  intro h0
  have hsup := h.accrual.leg.supply
  rw [h.accrual.owed_zero h0, UInt64.toNat_zero] at hsup
  have := h.enough
  have := h.positive
  omega

/-- No vault pays more than its units are worth for the net amount. -/
theorem Redeemed.vault_fall {amount owed fee net : UInt64} {user userIndexAta feeAta : Pubkey}
    {payees : List (AccountInfo × AccountInfo)}
    (h : Redeemed ch m idx w w₁ w' amount user userIndexAta feeAta payees owed fee net)
    (hC : Custody ch m w idx) {c : Component} (hc : c ∈ idx.components) (hne : c.mint ≠ m) :
    w.vault ch m c ≤ w'.vault ch m c +
      w.vault ch m c * 1000000000 / w₁.supply m * net.toNat / 1000000000 := by
  have hS : w₁.supply m ≠ 0 := by
    have := h.enough
    have := h.positive
    omega
  obtain ⟨c₁, hc₁, he, hu⟩ := exists_refreshed w.clock hS h.fits hc
  obtain ⟨p, hp⟩ := h.exists_payee hc₁
  have hge : w₁.vault ch m c₁ ≤ w'.vault ch m c₁ + paidOut ch m net c₁ p.2 := h.vault_ge hp
  have hpay : paidOut ch m net c₁ p.2 ≤ c₁.units.toNat * net.toNat / 1000000000 :=
    paidOut_le ch m net c₁ p.2
  have hrate : c₁.units.toNat = w.vault ch m c * 1000000000 / w₁.supply m := by
    rw [hu, World.pool_congr he, ← h.accrual.vault_eq hC hc hne]
    rfl
  rw [hrate] at hpay
  rw [World.vault_congr he, World.vault_congr he, h.accrual.vault_eq hC hc hne] at hge
  omega

theorem Filled.paidFor {s b : UInt8} {sellAmount maxBuyAmount buyAmount : UInt64}
    {bidderReceive bidderPay : Pubkey} {sell buy : Component} {mi : Mint} {premium : Int32}
    (h : Filled ch m idx w w' s b sellAmount maxBuyAmount bidderReceive bidderPay sell buy mi premium
      buyAmount) (hC : Custody ch m w idx) :
    PaidFor ch m idx w w' (.bid s b sellAmount maxBuyAmount) := by
  obtain ⟨hopen, hclose, -⟩ := premiumAt_window h.premium_eq
  have hsell := List.mem_of_getElem? h.sell_at
  have hbuy := List.mem_of_getElem? h.buy_at
  refine .bid h.live h.active hopen hclose h.sell_at h.buy_at h.mint h.premium_eq h.sizing ?_
    (h.bought hC) fun c hc hns hnb => ?_
  · have hsold := h.sold hC
    have := taken_le ch m sell bidderReceive sellAmount
    omega
  · have hv := h.vault c hc
    rw [if_neg fun e => hnb (hC.eq_of_mint hc hbuy e),
      if_neg fun e => hns (hC.eq_of_mint hc hsell e)] at hv
    omega

theorem ceilDiv_percent_le {x f : Nat} (hf : f ≤ 100) : (x * f) ⌈/⌉ 10000 ≤ x ⌈/⌉ 100 := by
  have hx : x ≤ 100 • (x ⌈/⌉ 100) := le_smul_ceilDiv (by decide)
  rw [smul_eq_mul] at hx
  rw [ceilDiv_le_iff_le_mul (by decide)]
  calc x * f ≤ 100 * (x ⌈/⌉ 100) * 100 := Nat.mul_le_mul hx hf
    _ = 10000 * (x ⌈/⌉ 100) := by ring

theorem Redeemed.supply_accounted {amount owed fee net : UInt64}
    {user userIndexAta feeAta : Pubkey} {payees : List (AccountInfo × AccountInfo)}
    (h : Redeemed ch m idx w w₁ w' amount user userIndexAta feeAta payees owed fee net)
    (hfees : idx.redeemFeeBps.toNat ≤ 100) (minOut : List UInt64) :
    SupplyAccounted m idx w w' (.redeem amount minOut) := by
  obtain ⟨dA, hl⟩ := h.leg
  have hS₁ := h.accrual.leg.supply
  have hS := hl.supply
  have hnet := h.net_eq
  refine ⟨owed, fee, amount, by omega, fun _ => h.accrual.fee, fun _ => ⟨⟨minOut, rfl⟩, ?_⟩⟩
  rw [h.fee_eq]
  exact ceilDiv_percent_le hfees

/-- The step lemma: an effect that lowers a vault is a redemption or a fill. -/
theorem Effect.outflow {accounts : List AccountInfo} {ix : FlockInstruction}
    (h : Effect ch m w w' accounts ix) (hidx : w.index? (ch.indexKey m) = some idx)
    (hC : Custody ch m w idx)
    (hU : w.supply m ≠ 0 → ∀ c ∈ idx.components, c.mint ≠ m) {c : Component}
    (hc : c ∈ idx.components) (hfall : w'.vault ch m c < w.vault ch m c) :
    BurnedFor ch m idx w w' accounts ix ∨ PaidFor ch m idx w w' ix := by
  have hstill : ¬ w'.vault ch m c = w.vault ch m c := by omega
  have hrewrite : ∀ {idx₀ idx₁ : Index}, w.index? (ch.indexKey m) = some idx₀ →
      w' ≠ w.setIndex (ch.indexKey m) idx₁ := by
    intro idx₀ idx₁ before hw
    refine hstill ?_
    rw [hw, World.vault_setIndex before]
  cases h with
  | initIndex key done => exact absurd (done.leg.vault_still c) hstill
  | addComponent key signed before mint done => exact absurd (done.leg.vault_still c) hstill
  | sealIndex key signed before done => exact absurd done.world (hrewrite before)
  | issue key before done =>
    obtain rfl := Option.some.inj (hidx.symm.trans before)
    have := done.vault_le hc
    omega
  | redeem key signed before done =>
    obtain rfl := Option.some.inj (hidx.symm.trans before)
    have hself := hU done.supply_ne_zero
    obtain ⟨t, ht, htm, hmay⟩ := done.holder
    obtain ⟨w₂, hburn⟩ := done.burned
    have hflow := (burn_flow hburn).1.supply m
    rw [Pi.neg_apply, Pi.single_eq_same, World.supply_setIndex done.accrual.record] at hflow
    have hacc := done.accrual.leg.supply
    obtain ⟨dA, hl⟩ := done.leg
    have hlast := hl.supply
    have hnet := done.net_eq
    refine .inl (.redeem signed ⟨ht, htm⟩ hmay done.accrual hburn (done.left ?_) done.fee_eq hnet
      (by omega) (by omega) (by omega) fun c hc => done.vault_fall hC hc (hself c hc))
    intro hm
    obtain ⟨c, hc, he⟩ := List.mem_map.mp hm
    exact hself c hc he
  | accrueFees key before done =>
    have hle := done.accrual.vault_le c
    rw [done.world, World.vault_setIndex done.accrual.record] at hfall
    omega
  | proposeRebalance key signed before done => exact absurd done.world (hrewrite before)
  | bid key before done =>
    obtain rfl := Option.some.inj (hidx.symm.trans before)
    exact .inr (done.paidFor hC)
  | endRebalance key signed before done => exact absurd done.world (hrewrite before)
  | setParams key signed before fees governor_eq world => exact absurd world (hrewrite before)
  | setAuthority key signed before governor_eq world => exact absurd world (hrewrite before)
  | setPaused key signed before hsealed brake release world =>
    exact absurd world (hrewrite before)

/-- The step lemma for the supply. -/
theorem Effect.supply_accounted {accounts : List AccountInfo} {ix : FlockInstruction}
    (h : Effect ch m w w' accounts ix) (hidx : w.index? (ch.indexKey m) = some idx)
    (hfees : idx.redeemFeeBps.toNat ≤ 100) (hissue : ix.isIssue = false) :
    SupplyAccounted m idx w w' ix := by
  have hstill : w'.supply m = w.supply m → SupplyAccounted m idx w w' ix := by
    intro hS
    refine ⟨0, 0, 0, ?_, fun h0 => absurd UInt64.toNat_zero h0, fun h0 => absurd UInt64.toNat_zero h0⟩
    rw [hS, UInt64.toNat_zero]
  have hleg : ∀ {dA}, Leg ch m w w' 0 dA → SupplyAccounted m idx w w' ix := by
    intro dA hl
    have hS := hl.supply
    exact hstill (by omega)
  have hrewrite : ∀ {idx₀ idx₁ : Index}, w.index? (ch.indexKey m) = some idx₀ →
      w' = w.setIndex (ch.indexKey m) idx₁ → SupplyAccounted m idx w w' ix := by
    intro idx₀ idx₁ before hw
    exact hstill (by rw [hw, World.supply_setIndex before])
  cases h with
  | initIndex key done => exact hleg done.leg
  | addComponent key signed before mint done => exact hleg done.leg
  | sealIndex key signed before done => exact hrewrite before done.world
  | issue key before done => cases hissue
  | redeem key signed before done =>
    obtain rfl := Option.some.inj (hidx.symm.trans before)
    exact done.supply_accounted hfees _
  | accrueFees key before done =>
    obtain rfl := Option.some.inj (hidx.symm.trans before)
    have hS := done.leg.supply
    refine ⟨_, 0, 0, ?_, fun _ => done.accrual.fee, fun h0 => absurd UInt64.toNat_zero h0⟩
    rw [UInt64.toNat_zero]
    omega
  | proposeRebalance key signed before done => exact hrewrite before done.world
  | bid key before done =>
    obtain ⟨dA, hl⟩ := done.leg
    exact hleg hl
  | endRebalance key signed before done => exact hrewrite before done.world
  | setParams key signed before fees governor_eq world => exact hrewrite before world
  | setAuthority key signed before governor_eq world => exact hrewrite before world
  | setPaused key signed before hsealed brake release world => exact hrewrite before world

/-- From every reachable world, whatever instruction succeeds, whoever calls it and
whatever accounts it is given: if a vault of an index holds less afterwards, the
instruction was a redemption or a paid bid on that index. And the supply of an
index rises only by an issue, by a streaming fee that was due or by the fee of a
redemption. -/
theorem assets_leave_for_payment (h : Reachable ch w) {k : Pubkey} (hidx : w.index? k = some idx)
    {accounts : List AccountInfo} {ix : FlockInstruction} (signable : Signable ch accounts)
    (done : process ch w accounts ix = .ok w') :
    ((∃ c ∈ idx.components, w'.vault ch idx.indexMint c < w.vault ch idx.indexMint c) →
      Concerns idx.indexMint accounts ix ∧ (BurnedFor ch idx.indexMint idx w w' accounts ix ∨
        PaidFor ch idx.indexMint idx w w' ix)) ∧
    (w.supply idx.indexMint < w'.supply idx.indexMint →
      Concerns idx.indexMint accounts ix ∧
        (ix.isIssue = true ∨ SupplyAccounted idx.indexMint idx w w' ix)) := by
  have hW : AllWf ch w := (reachable_wf h).1
  obtain ⟨rfl, hwf⟩ := hW hidx
  have hC := hwf.custody
  rcases hW.call_cases hC.inUse signable done with heff | ⟨-, hun⟩
  · refine ⟨?_, fun _ => ⟨heff.concerns, ?_⟩⟩
    · rintro ⟨c, hc, hfall⟩
      exact ⟨heff.concerns, heff.outflow hidx hC (h.mint_ne hC.inUse hidx) hc hfall⟩
    · cases hissue : ix.isIssue with
      | true => exact .inl rfl
      | false => exact .inr (heff.supply_accounted hidx hwf.fees.redeem hissue)
  · refine ⟨?_, fun hrise => ?_⟩
    · rintro ⟨c, hc, hfall⟩
      have := hun.vault_le hC hc
      omega
    · have := hun.supply_le hC
      omega

/-- The local holder redeems four of five tokens, and both vaults fall. -/
theorem assets_leave_for_payment_local : ∃ (w w' : World) (idx : Index),
    Reachable localnet w ∧ w.index? localIndex = some idx ∧
    (∃ c ∈ idx.components, w'.vault localnet idx.indexMint c < w.vault localnet idx.indexMint c) ∧
    BurnedFor localnet idx.indexMint idx w w' tradeAccounts (.redeem 4000000000 [0, 0]) := by
  obtain ⟨w, idx, hreach, hidx, hp⟩ := exists_of_run
    (openFund ⟨100, 50, 50, 100⟩ 2000000 333333333 ++ [localIssue 5000000000, .tick 31536000])
    (fun w idx => decide (idx.indexMint = addr 1) &&
      endsIn (process localnet w tradeAccounts (.redeem 4000000000 [0, 0])) fun w' =>
        idx.components.any fun c =>
          decide (w'.vault localnet (addr 1) c < w.vault localnet (addr 1) c))
    (by decide +kernel)
  simp only [Bool.and_eq_true, decide_eq_true_eq, endsIn_iff, List.any_eq_true] at hp
  obtain ⟨hm, w', hdone, hfall⟩ := hp
  rw [← hm] at hfall
  obtain ⟨-, hburned | hpaid⟩ := (assets_leave_for_payment hreach hidx trade_signable hdone).1 hfall
  · exact ⟨w, w', idx, hreach, hidx, hfall, hburned⟩
  · cases hpaid

end Flock
