import Flock.Localnet
import Mathlib.Data.Nat.Dist

/-!
# Where a fill leaves the two legs

The two legs of a fill have different caps. The sold leg comes strictly closer
to its target and never passes it. The bought leg may be bought past its target
on purpose, so that a bidder who pays above the reference price can be filled;
what stops it is the cap, one premium ceiling above the target. So it comes no
farther from its target exactly when it was as far below as it ends above.
-/

namespace Flock

open Outcome MachineInt

variable {ch : Chain} {m : Pubkey} {w w₁ w' w'' : World} {idx : Index}

section Filled

variable {s b : UInt8} {sellAmount maxBuyAmount buyAmount : UInt64}
  {bidderReceive bidderPay : Pubkey} {sell buy : Component} {mi : Mint} {premium : Int32}

theorem Filled.sized (h : Filled ch m idx w w' s b sellAmount maxBuyAmount bidderReceive bidderPay
    sell buy mi premium buyAmount) :
    Sized sell buy idx.maxPremiumBps premium (w.supply m) (w.vault ch m sell) (w.vault ch m buy)
      sellAmount buyAmount := by
  have hs := (bidSizing_ok h.sizing).2
  rw [World.toNat_balance, World.toNat_balance, ← World.supply_of_mint? h.mint] at hs
  exact hs

theorem Filled.mint_ne (h : Filled ch m idx w w' s b sellAmount maxBuyAmount bidderReceive
    bidderPay sell buy mi premium buyAmount) (hC : Custody ch m w idx) : sell.mint ≠ buy.mint :=
  hC.mint_ne_of_ne h.sell_at h.buy_at fun e => h.distinct (UInt8.toNat_inj.mp e)

theorem taken_le (ch : Chain) (m : Pubkey) (sell : Component) (bidderReceive : Pubkey)
    (sellAmount : UInt64) : taken ch m sell bidderReceive sellAmount ≤ sellAmount.toNat := by
  unfold taken
  split <;> omega

/-- The bought leg rises by what the bidder pays. -/
theorem Filled.bought (h : Filled ch m idx w w' s b sellAmount maxBuyAmount bidderReceive
    bidderPay sell buy mi premium buyAmount) (hC : Custody ch m w idx) :
    w'.vault ch m buy = w.vault ch m buy + buyAmount.toNat := by
  have hv := h.vault buy (List.mem_of_getElem? h.buy_at)
  rw [if_pos rfl, if_neg (h.mint_ne hC).symm] at hv
  omega

/-- The sold leg falls by what the bidder takes. -/
theorem Filled.sold (h : Filled ch m idx w w' s b sellAmount maxBuyAmount bidderReceive
    bidderPay sell buy mi premium buyAmount) (hC : Custody ch m w idx) :
    (w'.vault ch m sell : ℤ) = w.vault ch m sell - taken ch m sell bidderReceive sellAmount := by
  have hv := h.vault sell (List.mem_of_getElem? h.sell_at)
  rw [if_pos rfl, if_neg (h.mint_ne hC)] at hv
  omega

end Filled

/-! ## Runs of fills -/

/-- Somebody's bid on the index of `m` is filled. -/
inductive Fill (ch : Chain) (m : Pubkey) (w w' : World) : Prop where
  | bid {accounts : List AccountInfo} {s b : UInt8} {sellAmount maxBuyAmount : UInt64}
      (signable : Signable ch accounts)
      (done : process ch w accounts (.bid s b sellAmount maxBuyAmount) = .ok w')
      (concerns : Concerns m accounts (.bid s b sellAmount maxBuyAmount))

theorem Fill.filled (h : Fill ch m w w') (hW : AllWf ch w) (hm : ch.inUse m)
    (hidx : w.index? (ch.indexKey m) = some idx) :
    ∃ s b sellAmount maxBuyAmount bidderReceive bidderPay sell buy mi premium buyAmount,
      Filled ch m idx w w' s b sellAmount maxBuyAmount bidderReceive bidderPay sell buy mi premium
        buyAmount := by
  obtain ⟨signable, hdone, concerns⟩ := h
  rcases hW.call_cases hm signable hdone with heff | ⟨hne, -⟩
  swap
  · exact absurd concerns hne
  cases heff with
  | bid key before done =>
    obtain rfl := Option.some.inj (hidx.symm.trans before)
    exact ⟨_, _, _, _, _, _, _, _, _, _, _, done⟩

/-- The plan of an auction: what its caps are computed from. -/
def Index.plan (idx : Index) : List (Pubkey × UInt64) × UInt16 :=
  (idx.components.map fun c => (c.mint, c.targetUnits), idx.maxPremiumBps)

/-- No leg fell below its target, or where it was if that is lower, and none
rose above its cap, or where it was if that is higher. -/
def InBand (ch : Chain) (m : Pubkey) (idx : Index) (w w' : World) : Prop :=
  ∀ c ∈ idx.components,
    min (w.vault ch m c) (c.target (w.supply m)) ≤ w'.vault ch m c ∧
    w'.vault ch m c ≤ max (w.vault ch m c) (c.cap (w.supply m) idx.maxPremiumBps)

theorem InBand.trans {idx' : Index} (h : InBand ch m idx w w') (h' : InBand ch m idx' w' w'')
    (hplan : idx'.plan = idx.plan) (hS : w'.supply m = w.supply m) : InBand ch m idx w w'' := by
  obtain ⟨hcomps, hprem⟩ := Prod.mk.inj hplan
  intro c hc
  have hmem : (c.mint, c.targetUnits) ∈ idx'.components.map fun c => (c.mint, c.targetUnits) := by
    rw [hcomps]
    exact List.mem_map_of_mem hc
  obtain ⟨c', hc', he⟩ := List.mem_map.mp hmem
  obtain ⟨hmint, htarget⟩ := Prod.mk.inj he
  have htgt : c'.target (w'.supply m) = c.target (w.supply m) := by
    rw [Component.target, htarget, hS, Component.target]
  have hcap : c'.cap (w'.supply m) idx'.maxPremiumBps
      = c.cap (w.supply m) idx.maxPremiumBps := by
    rw [Component.cap, htgt, hprem, Component.cap]
  obtain ⟨hlo, hhi⟩ := h c hc
  obtain ⟨hlo', hhi'⟩ := h' c' hc'
  rw [World.vault_congr hmint, World.vault_congr hmint, htgt] at hlo'
  rw [World.vault_congr hmint, World.vault_congr hmint, hcap] at hhi'
  omega

/-- The step lemma: the leg bought stops at its cap, the leg sold at its target,
and the others stand still. -/
theorem Fill.inBand (h : Fill ch m w w') (hW : AllWf ch w) (hm : ch.inUse m)
    (hidx : w.index? (ch.indexKey m) = some idx) :
    ∃ idx', w'.index? (ch.indexKey m) = some idx' ∧ idx'.plan = idx.plan ∧
      w'.supply m = w.supply m ∧ InBand ch m idx w w' := by
  obtain ⟨s, b, sellAmount, maxBuyAmount, recv, pay, sell, buy, mi, premium, buyAmount, done⟩ :=
    h.filled hW hm hidx
  have hC := (hW.wf hm hidx).custody
  obtain ⟨dA, hl⟩ := done.leg
  have hS := hl.supply
  have hplan : (idx.synced ch m w').plan = idx.plan := by
    have hs := Index.synced_eq ch m w' idx
    refine Prod.ext ?_ (by rw [hs]; rfl)
    exact Index.synced_map ch m w' idx (fun c => (c.mint, c.targetUnits)) fun _ _ => rfl
  refine ⟨_, done.record, hplan, by omega, fun c hc => ?_⟩
  have hsized := done.sized
  have hexcess := hsized.excess
  have hroom := hsized.room
  have hne := done.mint_ne hC
  have htaken := taken_le ch m sell recv sellAmount
  by_cases hcs : c.mint = sell.mint
  · obtain rfl := hC.eq_of_mint hc (List.mem_of_getElem? done.sell_at) hcs
    have hsold := done.sold hC
    omega
  by_cases hcb : c.mint = buy.mint
  · obtain rfl := hC.eq_of_mint hc (List.mem_of_getElem? done.buy_at) hcb
    have hbought := done.bought hC
    omega
  · have hv := done.vault c hc
    rw [if_neg hcs, if_neg hcb] at hv
    omega

/-- A bid is filled, or time passes. -/
inductive Filling (ch : Chain) (m : Pubkey) (w w' : World) : Prop where
  | fill (h : Fill ch m w w')
  | tick {t : Int64} (later : w.clock ≤ t) (passed : w' = { w with clock := t })

/-- The auction planned in `idx` is the one of the fund of `m`, at supply `S`. -/
structure OnPlan (ch : Chain) (m : Pubkey) (idx : Index) (S : Nat) (w : World) : Prop where
  wf : AllWf ch w
  record : ∃ idx', w.index? (ch.indexKey m) = some idx' ∧ idx'.plan = idx.plan
  supply : w.supply m = S

theorem InBand.refl (ch : Chain) (m : Pubkey) (idx : Index) (w : World) : InBand ch m idx w w :=
  fun _ _ => ⟨Nat.min_le_left _ _, Nat.le_max_left _ _⟩

/-- The band is that of any record with the same plan. -/
theorem InBand.of_plan {idx' : Index} (h : InBand ch m idx' w w') (hplan : idx'.plan = idx.plan) :
    InBand ch m idx w w' :=
  (InBand.refl ch m idx w).trans h hplan rfl

/-- The step lemma: a bid that is filled, or time that passes, keeps to the plan. -/
theorem Filling.inBand {S : Nat} (h : Filling ch m w w') (hm : ch.inUse m)
    (hon : OnPlan ch m idx S w) : OnPlan ch m idx S w' ∧ InBand ch m idx w w' := by
  obtain ⟨idx', hidx', hplan⟩ := hon.record
  rcases h with hfill | ⟨later, passed⟩
  · obtain ⟨idx'', hidx'', hplan', hS, hband⟩ := hfill.inBand hon.wf hm hidx'
    obtain ⟨signable, hdone, -⟩ := hfill
    exact ⟨⟨(Step.call signable hdone).allWf hon.wf, ⟨idx'', hidx'', hplan'.trans hplan⟩,
      hS.trans hon.supply⟩, hband.of_plan hplan⟩
  · subst passed
    refine ⟨⟨?_, ⟨idx', hidx', hplan⟩, hon.supply⟩, InBand.refl ch m idx w⟩
    exact (Step.outside (Outside.tick later)).allWf hon.wf

/-- The run lemma. -/
theorem inBand_of_run {S : Nat} (hrun : Relation.ReflTransGen (Filling ch m) w w')
    (hm : ch.inUse m) (hon : OnPlan ch m idx S w) :
    OnPlan ch m idx S w' ∧ InBand ch m idx w w' := by
  induction hrun with
  | refl => exact ⟨hon, InBand.refl ch m idx w⟩
  | tail _ hstep ih =>
    obtain ⟨hon', hband⟩ := ih
    obtain ⟨hon'', hband'⟩ := hstep.inBand hm hon'
    exact ⟨hon'', hband.trans hband' rfl (hon'.supply.trans hon.supply.symm)⟩

/-- From every reachable world, a fill whose bidder does not have itself paid
into the sold vault brings the sold leg strictly closer to its target and not
past it. The bought leg it leaves within its cap, and no farther from its target
exactly when nothing was paid or the leg was at least as far below before as it
is above after. And however many fills follow, whenever, no leg leaves the band
between its target and its cap, or the place it had if it was outside. -/
theorem fill_converges (h : Reachable ch w) {k : Pubkey} (hidx : w.index? k = some idx)
    {bidder indexInfo indexMintInfo bidderReceive bidderPay tokenProgram : AccountInfo}
    {vaults : List AccountInfo}
    (signable : Signable ch (bidder :: indexInfo :: indexMintInfo :: bidderReceive :: bidderPay ::
      tokenProgram :: vaults))
    (hm : indexMintInfo.key = idx.indexMint) {s b : UInt8} {sellAmount maxBuyAmount : UInt64}
    (done : process ch w (bidder :: indexInfo :: indexMintInfo :: bidderReceive :: bidderPay ::
      tokenProgram :: vaults) (.bid s b sellAmount maxBuyAmount) = .ok w')
    {sell buy : Component} (hsell : idx.components[s.toNat]? = some sell)
    (hbuy : idx.components[b.toNat]? = some buy)
    (hrecv : bidderReceive.key ≠ ch.vaultKey idx.indexMint sell.mint)
    (hrun : Relation.ReflTransGen (Filling ch idx.indexMint) w' w'') :
    (sell.target (w.supply idx.indexMint) ≤ w'.vault ch idx.indexMint sell ∧
      Nat.dist (w'.vault ch idx.indexMint sell) (sell.target (w.supply idx.indexMint))
        < Nat.dist (w.vault ch idx.indexMint sell) (sell.target (w.supply idx.indexMint))) ∧
    (w.vault ch idx.indexMint buy ≤ w'.vault ch idx.indexMint buy ∧
      w'.vault ch idx.indexMint buy
        ≤ buy.cap (w.supply idx.indexMint) idx.maxPremiumBps ∧
      (Nat.dist (w'.vault ch idx.indexMint buy) (buy.target (w.supply idx.indexMint))
          ≤ Nat.dist (w.vault ch idx.indexMint buy) (buy.target (w.supply idx.indexMint)) ↔
        w'.vault ch idx.indexMint buy = w.vault ch idx.indexMint buy ∨
          w.vault ch idx.indexMint buy + w'.vault ch idx.indexMint buy
            ≤ 2 * buy.target (w.supply idx.indexMint))) ∧
    InBand ch idx.indexMint idx w w'' := by
  have hW : AllWf ch w := (reachable_wf h).1
  obtain ⟨rfl, hwf⟩ := hW hidx
  have hfill : Fill ch idx.indexMint w w' := .bid signable done (congrArg some hm)
  have hon : OnPlan ch idx.indexMint idx (w.supply idx.indexMint) w := ⟨hW, ⟨idx, hidx, rfl⟩, rfl⟩
  obtain ⟨-, hband⟩ := inBand_of_run (.head (.fill hfill) hrun) hwf.custody.inUse hon
  rcases hW.call_cases hwf.custody.inUse signable done with heff | ⟨hne, -⟩
  swap
  · exact absurd (congrArg some hm) hne
  cases heff with
  | bid key before done =>
    obtain rfl := Option.some.inj (hidx.symm.trans before)
    obtain rfl := Option.some.inj (hsell.symm.trans done.sell_at)
    obtain rfl := Option.some.inj (hbuy.symm.trans done.buy_at)
    have hbought := done.bought hwf.custody
    have hsold := done.sold hwf.custody
    rw [taken, if_neg hrecv] at hsold
    have hexcess := done.sized.excess
    have hroom := done.sized.room
    have hpos := done.positive
    refine ⟨⟨by omega, ?_⟩, ⟨by omega, by omega, ?_⟩, hband⟩
    · unfold Nat.dist
      omega
    · unfold Nat.dist
      omega

/-- The local fund with an auction on: five tokens, component 3 to be sold down to
1650000000 and component 2 to be bought to what five times `target₂` gives. -/
def openAuction (target₂ : UInt64) : List Act :=
  openFund ⟨0, 0, 0, 100⟩ 2000000 333333333 ++
    [localIssue 5000000000, localPropose target₂ 330000000 1000000000 30000000000 0 0, .tick 300]

/-- Holder 40 takes component 3 and pays in component 2. -/
def afterBid (sellAmount : UInt64) (p : World → Index → World → Component → Component → Bool)
    (w : World) (idx : Index) : Bool :=
  decide (idx.indexMint = addr 1) && match idx.components with
    | [buy, sell] => decide (sell.mint = addr 3) &&
        endsIn (process localnet w bidAccounts (.bid 1 0 sellAmount 10000000000)) fun w' =>
          p w idx w' sell buy
    | _ => false

theorem afterBid_iff {sellAmount : UInt64}
    {p : World → Index → World → Component → Component → Bool} :
    afterBid sellAmount p w idx = true ↔ idx.indexMint = addr 1 ∧
      ∃ sell buy w', idx.components = [buy, sell] ∧ sell.mint = addr 3 ∧
        process localnet w bidAccounts (.bid 1 0 sellAmount 10000000000) = .ok w' ∧
        p w idx w' sell buy = true := by
  unfold afterBid
  rw [Bool.and_eq_true, decide_eq_true_eq]
  refine and_congr_right fun _ => ?_
  split
  next buy sell hc => simp [endsIn_iff, hc]
  next hc =>
    refine iff_of_false (by simp) ?_
    intro hex
    obtain ⟨sell, buy, w', he, -⟩ := hex
    exact hc buy sell he

/-- The same holder pays in component 3 and takes component 2. -/
def backAccounts : List AccountInfo :=
  [signer 40, indexAccount, account 1, account 21, account 22, account 7, account 1002, account 1003]

theorem back_signable : Signable localnet backAccounts := by
  have hp : (Act.call backAccounts .sealIndex).permitted = true := by decide +kernel
  exact Act.signable hp

/-- A minute later component 2 is sold again. -/
def thenBack (sellAmount : UInt64) (p : World → Bool) (w₁ : World) : Bool :=
  decide (w₁.clock ≤ w₁.clock + 60) &&
    endsIn (process localnet { w₁ with clock := w₁.clock + 60 } backAccounts
      (.bid 0 1 sellAmount 10000000000)) p

theorem thenBack_iff {sellAmount : UInt64} {p : World → Bool} (h : thenBack sellAmount p w₁ = true) :
    ∃ w₂ w₃, [w₁, w₂, w₃].IsChain (Filling localnet (addr 1)) ∧ p w₃ = true := by
  simp only [thenBack, Bool.and_eq_true, decide_eq_true_eq] at h
  obtain ⟨hlater, hdone⟩ := h
  obtain ⟨w₃, hback, hp⟩ := endsIn_iff.mp hdone
  refine ⟨{ w₁ with clock := w₁.clock + 60 }, w₃, ?_, hp⟩
  exact List.isChain_cons_cons.mpr ⟨.tick hlater rfl,
    List.isChain_pair.mpr (.fill (.bid back_signable hback rfl))⟩

/-- A bid for a leg below its target takes it to just above, and a minute later some of that
is sold again. -/
theorem fill_converges_local : ∃ (w w' w'' : World) (idx : Index) (buy : Component),
    Reachable localnet w ∧ w.index? localIndex = some idx ∧ buy ∈ idx.components ∧
    w.vault localnet idx.indexMint buy < w'.vault localnet idx.indexMint buy ∧
    Nat.dist (w'.vault localnet idx.indexMint buy) (buy.target (w.supply idx.indexMint))
      ≤ Nat.dist (w.vault localnet idx.indexMint buy) (buy.target (w.supply idx.indexMint)) ∧
    w''.vault localnet idx.indexMint buy < w'.vault localnet idx.indexMint buy ∧
    InBand localnet idx.indexMint idx w w'' := by
  obtain ⟨w, idx, hreach, hidx, hp⟩ := exists_of_run (openAuction 2005000)
    (afterBid 1000000 fun w idx w' _ buy =>
      decide (w.vault localnet (addr 1) buy < w'.vault localnet (addr 1) buy) &&
      decide (w.vault localnet (addr 1) buy + w'.vault localnet (addr 1) buy
        ≤ 2 * buy.target (w.supply (addr 1))) &&
      thenBack 4000 (fun w'' =>
        decide (w''.vault localnet (addr 1) buy < w'.vault localnet (addr 1) buy)) w')
    (by decide +kernel)
  obtain ⟨hm, sell, buy, w', hcs, hsell, hdone, hp⟩ := afterBid_iff.mp hp
  simp only [Bool.and_eq_true, decide_eq_true_eq] at hp
  obtain ⟨⟨hgrow, hbelow⟩, hback⟩ := hp
  obtain ⟨w₂, w₃, hchain, hp⟩ := thenBack_iff hback
  have hfell := of_decide_eq_true hp
  rw [← hm] at hgrow hbelow hfell hchain
  have hrecv : (account 22).key ≠ localnet.vaultKey idx.indexMint sell.mint := by
    rw [hm, hsell]
    decide +kernel
  have hsell' : idx.components[(1 : UInt8).toNat]? = some sell := by rw [hcs]; rfl
  have hbuy' : idx.components[(0 : UInt8).toNat]? = some buy := by rw [hcs]; rfl
  have hrun : Relation.ReflTransGen (Filling localnet idx.indexMint) w' w₃ := by
    obtain ⟨htick, hfill⟩ := List.isChain_cons_cons.mp hchain
    exact .tail (.single htick) (List.isChain_pair.mp hfill)
  obtain ⟨-, ⟨-, -, hiff⟩, hband⟩ :=
    fill_converges hreach hidx bid_signable hm.symm hdone hsell' hbuy' hrecv hrun
  exact ⟨w, w', w₃, idx, buy, hreach, hidx, by rw [hcs]; simp, hgrow, hiff.mpr (.inr hbelow),
    hfell, hband⟩

/-- The bought leg stands at its target of 10000000 and a bid takes it 90000 base
units past it. -/
theorem fill_passes_target : ∃ (w w' : World) (idx : Index) (sell buy : Component),
    Reachable localnet w ∧ w.index? localIndex = some idx ∧ idx.rebalance.active = 1 ∧
    idx.components = [buy, sell] ∧ 0 < w.supply idx.indexMint ∧
    Signable localnet bidAccounts ∧
    (∀ c ∈ idx.components, ∀ a ∈ [account 22, account 21],
      a.key ≠ localnet.vaultKey idx.indexMint c.mint) ∧
    process localnet w bidAccounts (.bid 1 0 3000000 10000000000) = .ok w' ∧
    buy.target (w.supply idx.indexMint) = 10000000 ∧
    w.vault localnet idx.indexMint buy = 10000000 ∧
    w'.vault localnet idx.indexMint buy = 10090000 ∧
    ¬ Nat.dist (w'.vault localnet idx.indexMint buy) (buy.target (w.supply idx.indexMint))
      ≤ Nat.dist (w.vault localnet idx.indexMint buy) (buy.target (w.supply idx.indexMint)) := by
  obtain ⟨w, idx, hreach, hidx, hp⟩ := exists_of_run (openAuction 2000000)
    (afterBid 3000000 fun w idx w' sell buy => decide (idx.rebalance.active = 1) &&
      decide (0 < w.supply (addr 1)) &&
      decide (∀ c ∈ idx.components, ∀ a ∈ [account 22, account 21],
        a.key ≠ localnet.vaultKey (addr 1) c.mint) &&
      decide (buy.target (w.supply (addr 1)) = 10000000) &&
      decide (w.vault localnet (addr 1) buy = 10000000) &&
      decide (w'.vault localnet (addr 1) buy = 10090000))
    (by decide +kernel)
  obtain ⟨hm, sell, buy, w', hcs, hsell, hdone, hp⟩ := afterBid_iff.mp hp
  simp only [Bool.and_eq_true, decide_eq_true_eq] at hp
  obtain ⟨⟨⟨⟨⟨hact, hS⟩, hkeys⟩, ht⟩, hB⟩, hB'⟩ := hp
  rw [← hm] at hS hkeys ht hB hB'
  refine ⟨w, w', idx, sell, buy, hreach, hidx, hact, hcs, hS, bid_signable, hkeys, hdone, ht, hB,
    hB', ?_⟩
  rw [ht, hB, hB']
  decide

end Flock
