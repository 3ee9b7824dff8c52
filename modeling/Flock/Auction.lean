import Flock.Trades

/-!
# What the auction handlers do

`Proposed`, `Filled` and `Ended` say what a successful `ProposeRebalance`, `Bid`
and `EndRebalance` did. A proposal and a closing write the record only. A fill
moves two vaults: the bought leg rises by exactly what the bidder pays, the sold
leg falls by what the bidder takes, and every other vault stays, whatever
accounts the bidder named.

`World.nav` is the fund's value at the reference prices in the record, which is
what the floor of an auction is compared with.
-/

namespace Flock

open Outcome MachineInt

variable {ch : Chain} {m : Pubkey} {w w' : World} {idx : Index}

/-! ## Net asset value -/

/-- USD-e9 of `b` base units at the component's reference price: `value_e9`. -/
def Component.value (c : Component) (b : Nat) : Nat :=
  b * c.refPriceE9.toNat / 10 ^ c.decimals.toNat

/-- The fund's value in USD-e9. -/
def World.valueE9 (w : World) (ch : Chain) (m : Pubkey) (idx : Index) : Nat :=
  (idx.components.map fun c => c.value (w.vault ch m c)).sum

/-- The fund's value in USD-e6: what `nav_e6` returns. -/
def World.nav (w : World) (ch : Chain) (m : Pubkey) (idx : Index) : Nat :=
  w.valueE9 ch m idx / 1000

/-- The loop adds up the values. By induction on the table. -/
theorem navSum_ok {cs : List Component} {total t : Nat}
    (h : navSum cs (cs.map fun c => w.balance (ch.vaultKey m c.mint)) total = .ok t) :
    t = total + (cs.map fun c => c.value (w.vault ch m c)).sum := by
  induction cs generalizing total with
  | nil =>
    obtain rfl := Except.ok.inj h
    simp
  | cons c cs ih =>
    simp only [List.map_cons, navSum, bind_ok_iff, valueE9_ok_iff] at h
    obtain ⟨_, ⟨-, rfl⟩, -, -, h⟩ := h
    rw [ih h, List.map_cons, List.sum_cons, World.toNat_balance]
    simp only [Component.value, World.vault]
    omega

/-- `nav_e6` is the net asset value, cut to micro-dollars. -/
theorem navE6_ok {indexInfo : AccountInfo} {n : UInt64} {bs : List UInt64}
    (h : navE6 w indexInfo bs = .ok n) (hi : indexInfo.key = ch.indexKey m)
    (hidx : w.index? (ch.indexKey m) = some idx)
    (hbs : bs = idx.components.map fun c => w.balance (ch.vaultKey m c.mint)) :
    n.toNat = w.nav ch m idx := by
  simp only [navE6, bind_ok_iff, lift_ok_iff, indexRef_ok_iff, toU64_ok_iff] at h
  obtain ⟨idx', ⟨hidx', -⟩, t, hsum, hn⟩ := h
  rw [hi] at hidx'
  obtain rfl := Option.some.inj (hidx.symm.trans hidx')
  rw [hbs] at hsum
  rw [hn, navSum_ok hsum, zero_add]
  rfl

/-- The value of a fund reads prices, decimals and mints of the table, and the
vaults: not the units. -/
theorem World.valueE9_synced (w₀ : World) :
    w.valueE9 ch m (idx.synced ch m w₀) = w.valueE9 ch m idx := by
  unfold World.valueE9
  rw [Index.synced_map ch m w₀ idx (fun c => c.value (w.vault ch m c)) fun _ _ => rfl]

/-- Units do not enter the net asset value. -/
theorem World.nav_synced (w₀ : World) : w.nav ch m (idx.synced ch m w₀) = w.nav ch m idx := by
  rw [World.nav, World.valueE9_synced, World.nav]

/-- The net asset value is one of vaults, not of the record that is there. -/
theorem World.nav_setIndex {k : Pubkey} {i : Index} (h : w.index? k = some i) (i' : Index) :
    (w.setIndex k i').nav ch m idx = w.nav ch m idx := by
  simp only [World.nav, World.valueE9, World.vault_setIndex h]

/-! ## Proposing -/

structure Proposed (ch : Chain) (m : Pubkey) (idx : Index) (w w' : World)
    (targets prices : List UInt64) (p : AuctionParams) (manager : Pubkey) (nav navFloor : UInt64)
    (startTs endTs : Int64) : Prop where
  manager_eq : idx.manager = manager
  live : idx.state = stateLive
  inactive : idx.rebalance.active = 0
  targets_length : targets.length = idx.components.length
  prices_length : prices.length = idx.components.length
  duration : p.duration ≠ 0 ∧ ¬ p.duration > maxAuctionDuration
  band : ¬ p.startPremiumBps > p.endPremiumBps ∧
    ¬ p.endPremiumBps > idx.maxPremiumBps.toInt16 ∧
    ¬ p.startPremiumBps < -idx.maxPremiumBps.toInt16 ∧ ¬ p.maxNavLossBps > idx.maxPremiumBps
  prices_pos : ∀ x ∈ prices, x ≠ 0
  nav_eq : nav.toNat = w.nav ch m
    { idx with components := writeTargets idx.components targets prices }
  startTs_eq : startTs.toInt = w.clock.toInt + (Int64.ofNat idx.rebalanceDelay.toNat).toInt
  endTs_eq : endTs.toInt = startTs.toInt + (Int64.ofNat p.duration.toNat).toInt
  navFloor_eq : navFloor.toNat = nav.toNat * wrappingSub bps p.maxNavLossBps.toNat / bps
  world : w' = w.setIndex (ch.indexKey m) { idx with
    components := writeTargets idx.components targets prices
    rebalance :=
      { active := 1
        proposedAt := w.clock
        startTs := startTs
        endTs := endTs
        startPremiumBps := p.startPremiumBps
        endPremiumBps := p.endPremiumBps
        maxNavLossBps := p.maxNavLossBps
        navFloorE6 := navFloor
        proposer := manager } }

/-- Writing targets and prices keeps the mints, the decimals and the units. -/
theorem writeTargets_map {α : Type} (f : Component → α)
    (hf : ∀ c p t, f { c with refPriceE9 := p, targetUnits := t } = f c)
    (cs : List Component) (targets prices : List UInt64) :
    (writeTargets cs targets prices).map f = cs.map f := by
  fun_induction writeTargets cs targets prices with
  | case1 c cs target targets price prices ih => rw [List.map_cons, List.map_cons, ih, hf]
  | case2 => rfl

section Handlers

variable {indexInfo indexMintInfo : AccountInfo}

/-- What a `ProposeRebalance` that went through found and wrote. -/
theorem proposeRebalance_proposed {manager : AccountInfo} {vaults : List AccountInfo}
    {targets prices : List UInt64} {p : AuctionParams} (hm : indexMintInfo.key = m)
    (h : proposeRebalance ch w (manager :: indexInfo :: indexMintInfo :: vaults) targets prices p
      = .ok w')
    (hC : ∀ {idx}, w.index? (ch.indexKey m) = some idx → Custody ch m w idx) :
    manager.isSigner = true ∧ ∃ idx nav navFloor startTs endTs,
      w.index? (ch.indexKey m) = some idx ∧
      Proposed ch m idx w w' targets prices p manager.key nav navFloor startTs endTs := by
  subst hm
  simp only [proposeRebalance, bind_ok_iff, failIf_ok_iff, indexRef_ok_iff, requireSigner,
    Bool.not_eq_false, Index.isLive_ok_iff, lift_ok_iff, mulDivFloor_ok_iff, toU64_ok_iff,
    pure_ok_iff, not_or, not_not] at h
  obtain ⟨-, hsig, b, hpda, idx, ⟨hidx, -⟩, -, hman, -, hlive, -, hact, h⟩ := h
  obtain ⟨-, ⟨htl, hpl⟩, -, hdur, -, hband, -, hprices, bs, hver, nav, hnav, h⟩ := h
  obtain ⟨startTs, hst, endTs, hen, idx₂, ⟨hidx₂, -⟩, _, ⟨-, -, rfl⟩, navFloor, hfl, rfl⟩ := h
  have hi := checkIndexPda_ok hpda
  rw [hi] at hidx hidx₂ hnav ⊢
  obtain ⟨-, rfl⟩ := (verifyVaults_ok_iff (hC hidx) hi hidx).mp hver
  rw [World.index?_setIndex_self] at hidx₂
  obtain rfl := Option.some.inj hidx₂
  have hbs : idx.components.map (fun c => w.balance (ch.vaultKey indexMintInfo.key c.mint))
      = (writeTargets idx.components targets prices).map fun c =>
        (w.setIndex (ch.indexKey indexMintInfo.key) { idx with
          components := writeTargets idx.components targets prices }).balance
            (ch.vaultKey indexMintInfo.key c.mint) := by
    have ha := World.accounts_of_index? hidx
    have htok := World.token?_set_of_not (w := w) (k := ch.indexKey indexMintInfo.key)
      (a := .index { idx with components := writeTargets idx.components targets prices })
      (by simp) (by simp [ha])
    rw [writeTargets_map _ (fun _ _ _ => rfl)]
    simp only [World.balance, World.setIndex, htok]
  have hnav' := navE6_ok hnav hi (World.index?_setIndex_self _) hbs
  rw [World.nav_setIndex hidx] at hnav'
  have hpos : ∀ x ∈ prices, x ≠ 0 := by
    intro x hx h0
    exact hprices (List.any_eq_true.mpr ⟨x, hx, by simp [h0]⟩)
  refine ⟨hsig, idx, nav, navFloor, startTs, endTs, hidx, hman, hlive, hact, htl, hpl, hdur,
    hband, hpos, hnav', checkedAddI64_ok hst, checkedAddI64_ok hen, hfl, ?_⟩
  rw [World.setIndex_setIndex]
  rfl

end Handlers

/-! ## Filling -/

/-- Where a leg should stand at a supply: `legTarget`. -/
def Component.target (c : Component) (supply : Nat) : Nat :=
  c.targetUnits.toNat * supply / unitScale

/-- Where the bought leg must stop: `legCap`. -/
def Component.cap (c : Component) (supply : Nat) (maxPremiumBps : UInt16) : Nat :=
  c.target supply + c.target supply * maxPremiumBps.toNat / bps

/-- A fill the fund takes: the sold leg has the excess, the bought leg has the
room, and the bidder pays the price. -/
structure Sized (sell buy : Component) (maxPremiumBps : UInt16) (premium : Int32)
    (supply sellBalance buyBalance : Nat) (sellAmount buyAmount : UInt64) : Prop where
  excess : sell.target supply + sellAmount.toNat ≤ sellBalance
  above : sell.target supply < sellBalance
  below : buyBalance < buy.cap supply maxPremiumBps
  room : buyBalance + buyAmount.toNat ≤ buy.cap supply maxPremiumBps
  price : bidPrice sell buy premium sellAmount = .ok buyAmount

/-- The target of a leg is its share of the supply. -/
theorem legTarget_ok {c : Component} {supply x : UInt64} (h : legTarget c supply = .ok x) :
    x.toNat = c.target supply.toNat := by
  simp only [legTarget, bind_ok_iff, mulDivFloor_ok_iff, toU64_ok_iff] at h
  obtain ⟨_, ⟨-, -, rfl⟩, hx⟩ := h
  exact hx

/-- The cap of a leg is its target and the premium ceiling on it. -/
theorem legCap_ok {target x : UInt64} {maxPremiumBps : UInt16}
    (h : legCap target maxPremiumBps = .ok x) :
    x.toNat = target.toNat + target.toNat * maxPremiumBps.toNat / bps := by
  simp only [legCap, bind_ok_iff, mulDivFloor_ok_iff, toU64_ok_iff, checkedAdd] at h
  obtain ⟨_, ⟨-, -, rfl⟩, slack, hs, hx⟩ := h
  rw [hx, hs]

/-- What the sizing of a bid checked, and the price it came to. -/
theorem bidSizing_ok {sell buy : Component} {maxPremiumBps : UInt16} {premium : Int32}
    {supply sellBalance buyBalance sellAmount maxBuyAmount buyAmount : UInt64}
    (h : bidSizing sell buy maxPremiumBps premium supply sellBalance buyBalance sellAmount
      maxBuyAmount = .ok buyAmount) :
    buyAmount.toNat ≤ maxBuyAmount.toNat ∧
      Sized sell buy maxPremiumBps premium supply.toNat sellBalance.toNat buyBalance.toNat
        sellAmount buyAmount := by
  simp only [bidSizing, bind_ok_iff, failIf_ok_iff, UInt64.not_le, UInt64.not_lt, ge_iff_le,
    gt_iff_lt, pure_ok_iff] at h
  obtain ⟨st, hst, bt, hbt, cap, hcap, -, habove, -, hexcess, -, hbelow, _, hprice, -, hmax, -,
    hroom, rfl⟩ := h
  have hcap' := legCap_ok hcap
  rw [legTarget_ok hbt] at hcap'
  rw [UInt64.lt_iff_toNat_lt] at habove hbelow
  rw [UInt64.le_iff_toNat_le] at hexcess hroom hmax
  rw [UInt64.toNat_sub_of_le _ _ (UInt64.le_iff_toNat_le.mpr habove.le)] at hexcess
  rw [UInt64.toNat_sub_of_le _ _ (UInt64.le_iff_toNat_le.mpr hbelow.le)] at hroom
  have hst' := legTarget_ok hst
  refine ⟨hmax, ?_, by omega, ?_, ?_, hprice⟩
  · omega
  · rw [Component.cap, ← hcap']
    omega
  · rw [Component.cap, ← hcap']
    omega

/-- What a bidder takes of the sold leg. A bidder may name the vault itself as
the account to be paid, and then takes nothing. -/
def taken (ch : Chain) (m : Pubkey) (sell : Component) (bidderReceive : Pubkey)
    (sellAmount : UInt64) : Nat :=
  if bidderReceive = ch.vaultKey m sell.mint then 0 else sellAmount.toNat

structure Filled (ch : Chain) (m : Pubkey) (idx : Index) (w w' : World) (s b : UInt8)
    (sellAmount maxBuyAmount : UInt64) (bidderReceive bidderPay : Pubkey) (sell buy : Component)
    (mi : Mint) (premium : Int32) (buyAmount : UInt64) : Prop where
  live : idx.state = stateLive
  active : idx.rebalance.active ≠ 0
  premium_eq : premiumAt idx.rebalance.startPremiumBps idx.rebalance.endPremiumBps
    idx.rebalance.startTs idx.rebalance.endTs w.clock = .ok premium
  premium_le : premium.toInt ≤ idx.maxPremiumBps.toNat
  sell_at : idx.components[s.toNat]? = some sell
  buy_at : idx.components[b.toNat]? = some buy
  distinct : s ≠ b
  positive : sellAmount.toNat ≠ 0
  mint : w.mint? m = some mi
  supply : w.supply m ≠ 0
  sizing : bidSizing sell buy idx.maxPremiumBps premium mi.supply
    (w.balance (ch.vaultKey m sell.mint)) (w.balance (ch.vaultKey m buy.mint)) sellAmount
    maxBuyAmount = .ok buyAmount
  leg : ∃ dA, Leg ch m w w' 0 dA
  vault : ∀ c ∈ idx.components, (w'.vault ch m c : ℤ) = w.vault ch m c +
    (if c.mint = buy.mint then (buyAmount.toNat : ℤ) else 0) -
    (if c.mint = sell.mint then (taken ch m sell bidderReceive sellAmount : ℤ) else 0)
  navFloor : idx.rebalance.navFloorE6.toNat ≤ w'.nav ch m idx
  fits : UnitsFit ch m w' idx
  record : w'.index? (ch.indexKey m) = some (idx.synced ch m w')

/-- The account in a list of vaults that stands where a component stands. -/
theorem key_of_map_eq {vaults : List AccountInfo} {i : Nat} {v : AccountInfo} {c : Component}
    (h : vaults.map AccountInfo.key = idx.vaultKeys ch m) (hv : vaults[i]? = some v)
    (hc : idx.components[i]? = some c) : v.key = ch.vaultKey m c.mint := by
  have hi := congrArg (fun ks => ks[i]?) h
  simp only [Index.vaultKeys, List.getElem?_map, hv, hc, Option.map_some, Option.some.injEq] at hi
  exact hi

/-- Two entries have two mints. -/
theorem Custody.mint_ne_of_ne (hC : Custody ch m w idx) {i j : Nat} {c c' : Component}
    (hc : idx.components[i]? = some c) (hc' : idx.components[j]? = some c') (hij : i ≠ j) :
    c.mint ≠ c'.mint := by
  intro he
  have hi : (idx.components.map Component.mint)[i]? = some c.mint := by
    rw [List.getElem?_map, hc, Option.map_some]
  have hj : (idx.components.map Component.mint)[j]? = some c.mint := by
    rw [List.getElem?_map, hc', Option.map_some, he]
  obtain ⟨hi', -⟩ := List.getElem?_eq_some_iff.mp hi
  exact hij ((List.getElem?_inj hi' hC.nodup).mp (hi.trans hj.symm))

/-- Components of one table with one mint are one component. -/
theorem Custody.eq_of_mint (hC : Custody ch m w idx) {c c' : Component} (hc : c ∈ idx.components)
    (hc' : c' ∈ idx.components) (h : c.mint = c'.mint) : c = c' := by
  obtain ⟨i, hi, rfl⟩ := List.getElem_of_mem hc
  obtain ⟨j, hj, rfl⟩ := List.getElem_of_mem hc'
  by_cases hij : i = j
  · simp only [hij]
  · exact absurd h (hC.mint_ne_of_ne (List.getElem?_eq_getElem hi) (List.getElem?_eq_getElem hj) hij)

/-- A filled bid, transfer by transfer: what it passed, the payment, the delivery,
and the record synced behind them. -/
theorem bid_steps {bidder indexInfo indexMintInfo bidderReceive bidderPay tokenProgram : AccountInfo}
    {vaults : List AccountInfo} {s b : UInt8} {sellAmount maxBuyAmount : UInt64}
    (hm : indexMintInfo.key = m)
    (h : bid ch w (bidder :: indexInfo :: indexMintInfo :: bidderReceive :: bidderPay ::
      tokenProgram :: vaults) s b sellAmount maxBuyAmount = .ok w')
    (hu : bidder.isSigner = true → ch.Outsider bidder.key)
    (hC : ∀ {idx}, w.index? (ch.indexKey m) = some idx → Custody ch m w idx) :
    ∃ idx sell buy mi premium buyAmount, w.index? (ch.indexKey m) = some idx ∧
      idx.state = stateLive ∧ idx.rebalance.active ≠ 0 ∧
      premiumAt idx.rebalance.startPremiumBps idx.rebalance.endPremiumBps idx.rebalance.startTs
        idx.rebalance.endTs w.clock = .ok premium ∧
      premium.toInt ≤ idx.maxPremiumBps.toNat ∧
      idx.components[s.toNat]? = some sell ∧ idx.components[b.toNat]? = some buy ∧ s ≠ b ∧
      sellAmount ≠ 0 ∧ w.mint? m = some mi ∧ mi.supply ≠ 0 ∧
      (∃ t, w.token? bidderReceive.key = some t ∧ t.mint = sell.mint) ∧
      bidSizing sell buy idx.maxPremiumBps premium mi.supply
        (w.balance (ch.vaultKey m sell.mint)) (w.balance (ch.vaultKey m buy.mint)) sellAmount
        maxBuyAmount = .ok buyAmount ∧
      ∃ w₁ w₂,
        Leg ch m w w₁ 0 (Pi.single (ch.vaultKey m buy.mint) (buyAmount.toNat : ℤ) -
          Pi.single bidderPay.key (buyAmount.toNat : ℤ)) ∧
        buyAmount.toNat ≤ w.amount bidderPay.key ∧
        (∀ m', Custodied ch m' w bidderPay.key → buyAmount.toNat = 0) ∧
        Leg ch m w₁ w₂ 0 (Pi.single bidderReceive.key (sellAmount.toNat : ℤ) -
          Pi.single (ch.vaultKey m sell.mint) (sellAmount.toNat : ℤ)) ∧
        w₂.index? (ch.indexKey m) = some idx ∧
        idx.rebalance.navFloorE6.toNat ≤ w₂.nav ch m idx ∧
        (w₂.supply m = 0 ∨ UnitsFit ch m w₂ idx) ∧
        w' = w₂.setIndex (ch.indexKey m) (idx.synced ch m w₂) ∧ w.OpensNone w' := by
  subst hm
  simp only [bid, bind_ok_iff, failIf_ok_iff, indexRef_ok_iff, requireSigner,
    Bool.not_eq_false, Index.isLive_ok_iff, lift_ok_iff, Index.component_ok_iff, readMint_ok_iff,
    requireTokenAccountOfMint_ok_iff, nth_ok_iff, Int.not_lt] at h
  obtain ⟨-, hsig, -, -, bump, hpda, -, hsb, -, hpos, idx, ⟨hidx, -⟩, h⟩ := h
  obtain ⟨-, hlive, -, hact, premium, hprem, -, hple, sell, hsell, buy, hbuy, h⟩ := h
  obtain ⟨bs, hver, mi, hmi, -, hsup, tr, hrecv, tp, -, sellBal, hsb', buyBal, hbb, h⟩ := h
  obtain ⟨buyAmount, hsize, bv, hbv, sv, hsv, w₁, hpay, w₂, h⟩ := h
  obtain ⟨htake, bs₂, hver₂, nav, hnav, idx₂, ⟨hidx₂, -⟩, -, hfloor, hsync⟩ := h
  have hi := checkIndexPda_ok hpda
  rw [hi] at hidx hidx₂
  have hCw := hC hidx
  obtain ⟨hvk, rfl⟩ := (verifyVaults_ok_iff hCw hi hidx).mp hver
  rw [List.getElem?_map, hsell, Option.map_some, Option.some.injEq] at hsb'
  rw [List.getElem?_map, hbuy, Option.map_some, Option.some.injEq] at hbb
  subst hsb' hbb
  have hbvk := key_of_map_eq hvk hbv hbuy
  have hsvk := key_of_map_eq hvk hsv hsell
  obtain ⟨hL₁, hR₁, hM₁, hfree⟩ := transferFromUser_leg (m := indexMintInfo.key) hpay (hu hsig)
  obtain ⟨hL₂, hR₂, hM₂⟩ := transferFromVault_leg htake hCw.inUse hi
  rw [hbvk] at hL₁
  rw [hsvk] at hL₂
  have hR : w₂.index? (ch.indexKey indexMintInfo.key) = some idx := by rw [hR₂, hR₁, hidx]
  have hM : w₂.mint? indexMintInfo.key = some mi := by rw [hM₂, hM₁, hmi]
  obtain rfl := Option.some.inj (hR.symm.trans hidx₂)
  have hCw₂ := hCw.of_flow (hL₁.trans hL₂).flow
  obtain ⟨-, rfl⟩ := (verifyVaults_ok_iff hCw₂ hi hR).mp hver₂
  have hnav' := navE6_ok hnav hi hR rfl
  obtain ⟨hfit, hw'⟩ := (syncUnits_ok_iff hCw₂ hi hR hM).mp hsync
  refine ⟨idx, sell, buy, mi, premium, buyAmount, hidx, hlive, hact, hprem, hple, hsell, hbuy, hsb,
    hpos, hmi, hsup, ⟨tr, hrecv⟩, hsize, w₁, w₂, hL₁, transferFromUser_le hpay, hfree, hL₂, hR, ?_,
    hfit, hw', ?_⟩
  · rw [← hnav']
    exact UInt64.le_iff_toNat_le.mp (UInt64.not_lt.mp hfloor)
  · rw [hw']
    exact ((transferFromUser_opensNone hpay).trans (transferFromVault_opensNone htake)).trans
      (.setIndex hR _)

/-- What a `Bid` that went through found and left. -/
theorem bid_filled {bidder indexInfo indexMintInfo bidderReceive bidderPay tokenProgram : AccountInfo}
    {vaults : List AccountInfo} {s b : UInt8} {sellAmount maxBuyAmount : UInt64}
    (hm : indexMintInfo.key = m)
    (h : bid ch w (bidder :: indexInfo :: indexMintInfo :: bidderReceive :: bidderPay ::
      tokenProgram :: vaults) s b sellAmount maxBuyAmount = .ok w')
    (hu : bidder.isSigner = true → ch.Outsider bidder.key)
    (hC : ∀ {idx}, w.index? (ch.indexKey m) = some idx → Custody ch m w idx) :
    ∃ idx sell buy mi premium buyAmount, w.index? (ch.indexKey m) = some idx ∧
      Filled ch m idx w w' s b sellAmount maxBuyAmount bidderReceive.key bidderPay.key sell buy mi
        premium buyAmount := by
  obtain ⟨idx, sell, buy, mi, premium, buyAmount, hidx, hlive, hact, hprem, hple, hsell, hbuy, hsb,
    hpos, hmi, hsup, ⟨tr, htr, htrm⟩, hsize, w₁, w₂, hL₁, -, hfree, hL₂, hR, hnav, hfit, rfl, -⟩ :=
    bid_steps hm h hu hC
  have hCw := hC hidx
  have hsellmem := List.mem_of_getElem? hsell
  have hbuymem := List.mem_of_getElem? hbuy
  have hL := hL₁.trans hL₂
  have hsup' : w.supply m ≠ 0 := by
    rw [World.supply_of_mint? hmi, ← UInt64.toNat_zero]
    exact fun e => hsup (UInt64.toNat_inj.mp e)
  have hsup₂ : w₂.supply m ≠ 0 := by
    have := hL.supply
    omega
  have hpos' : sellAmount.toNat ≠ 0 := by
    rw [← UInt64.toNat_zero]
    exact fun e => hpos (UInt64.toNat_inj.mp e)
  have hL₃ := Leg.of_setIndex hR (idx.synced ch m w₂)
  refine ⟨idx, sell, buy, mi, premium, buyAmount, hidx, hlive, hact, hprem, hple, hsell, hbuy, hsb,
    hpos', hmi, hsup', hsize, ⟨_, (hL.trans hL₃).cast (by omega) rfl⟩, ?_, ?_, ?_, ?_⟩
  · intro c hc
    have hv := hL.flow.amount (ch.vaultKey m c.mint)
    obtain ⟨t, ht, htm, -⟩ := hCw.vaults c hc
    have hpayk : (Pi.single bidderPay.key (buyAmount.toNat : ℤ) : Pubkey → ℤ)
        (ch.vaultKey m c.mint) = 0 := by
      by_cases hk : ch.vaultKey m c.mint = bidderPay.key
      · rw [hfree m (hk ▸ hCw.custodied hc)]
        simp
      · exact Pi.single_eq_of_ne hk _
    have hbuyk : (Pi.single (ch.vaultKey m buy.mint) (buyAmount.toNat : ℤ) :
        Pubkey → ℤ) (ch.vaultKey m c.mint)
          = if c.mint = buy.mint then (buyAmount.toNat : ℤ) else 0 := by
      rw [Pi.single_apply]
      by_cases hcb : c.mint = buy.mint
      · rw [if_pos hcb, if_pos (by rw [hcb])]
      · rw [if_neg hcb, if_neg fun e => hcb (hCw.vaultKey_inj hc hbuymem e)]
    have hsellk : (Pi.single bidderReceive.key (sellAmount.toNat : ℤ) -
        Pi.single (ch.vaultKey m sell.mint) (sellAmount.toNat : ℤ) :
        Pubkey → ℤ) (ch.vaultKey m c.mint)
          = -(if c.mint = sell.mint then
              (taken ch m sell bidderReceive.key sellAmount : ℤ) else 0) := by
      rw [Pi.sub_apply]
      by_cases hcs : c.mint = sell.mint
      · rw [if_pos hcs, hcs, Pi.single_eq_same, taken]
        by_cases hr : bidderReceive.key = ch.vaultKey m sell.mint
        · rw [if_pos hr, hr, Pi.single_eq_same]
          simp
        · rw [if_neg hr, Pi.single_eq_of_ne (Ne.symm hr), zero_sub]
      · have hcr : ch.vaultKey m c.mint ≠ bidderReceive.key := by
          intro e
          rw [← e, ht, Option.some.injEq] at htr
          exact hcs (by rw [← htm, htr, htrm])
        rw [if_neg hcs, Pi.single_eq_of_ne hcr,
          Pi.single_eq_of_ne fun e => hcs (hCw.vaultKey_inj hc hsellmem e)]
        simp
    rw [World.vault_setIndex hR]
    unfold World.vault
    rw [hv, Pi.add_apply, hsellk, Pi.sub_apply, hbuyk, hpayk]
    omega
  · rw [World.nav_setIndex hR]
    exact hnav
  · exact (unitsFit_setIndex hR _).mpr (hfit.resolve_left hsup₂)
  · rw [World.index?_setIndex_self, Index.synced_setIndex hR]

/-! ## Closing -/

/-- The record after a closing: the targets are the units, and nothing of the
auction stays but who proposed it and when. -/
def Index.closed (idx : Index) : Index :=
  { idx with
    components := idx.components.map fun c => { c with targetUnits := c.units }
    rebalance := { Rebalance.default with
      proposer := idx.rebalance.proposer
      proposedAt := idx.rebalance.proposedAt } }

structure Ended (ch : Chain) (m : Pubkey) (idx : Index) (w w' : World) (caller : Pubkey) :
    Prop where
  active : idx.rebalance.active ≠ 0
  allowed : idx.rebalance.endTs < w.clock ∨ idx.manager = caller
  fits : w.supply m = 0 ∨ UnitsFit ch m w idx
  world : w' = w.setIndex (ch.indexKey m) (idx.synced ch m w).closed

/-- What an `EndRebalance` that went through found and wrote. -/
theorem endRebalance_ended {caller indexInfo indexMintInfo : AccountInfo}
    {vaults : List AccountInfo} (hm : indexMintInfo.key = m)
    (h : endRebalance ch w (caller :: indexInfo :: indexMintInfo :: vaults) = .ok w')
    (hC : ∀ {idx}, w.index? (ch.indexKey m) = some idx → Custody ch m w idx) :
    caller.isSigner = true ∧ ∃ idx, w.index? (ch.indexKey m) = some idx ∧
      Ended ch m idx w w' caller.key := by
  subst hm
  simp only [endRebalance, bind_ok_iff, failIf_ok_iff, indexRef_ok_iff, requireSigner,
    Bool.not_eq_false, pure_ok_iff, not_and, not_not] at h
  obtain ⟨-, hsig, b, hpda, idx, ⟨hidx, -⟩, -, hact, -, hwho, w₁, hsync, idx₂, ⟨hidx₂, -⟩, rfl⟩ := h
  have hi := checkIndexPda_ok hpda
  rw [hi] at hidx hidx₂ ⊢
  obtain ⟨-, hfit, rfl⟩ := (resync_ok_iff (hC hidx) hi rfl hidx).mp hsync
  rw [World.index?_setIndex_self] at hidx₂
  obtain rfl := Option.some.inj hidx₂
  refine ⟨hsig, idx, hidx, hact, ?_, hfit, World.setIndex_setIndex _ _ _ _⟩
  by_cases ht : w.clock ≤ idx.rebalance.endTs
  · exact .inr (hwho ht)
  · exact .inl (Int64.not_le.mp ht)

end Flock
