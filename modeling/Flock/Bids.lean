import Flock.Orders

/-!
# A bid from the command line

`bid` takes a snapshot, works out by its own clock what the fill costs, shows that, and
sends the bid with just this price as the limit. There is no slippage on top, and the
bid lands some time later.

It needs none: the reference prices stand while an auction is on, and the premium rises
until it ends. As long as neither the governor nor the manager signs in between, and the
clock of the chain is not behind that of the bidder, the limit is never what a bid is
refused for (`bid_price_stands`). And if it lands, whoever signed what, the bidder has what
was shown for no more than was shown (`bid_trades_as_shown`), if no token account of the
bidder has a delegate who may spend from it meanwhile.
-/

namespace Flock

open Outcome MachineInt Graded

variable {ch : Chain} {client : Sdk.FlockClient} {ata : Keeper.AssociatedTokens}
  {payer m : Pubkey} {w w' w₀ w₁ w₂ : World} {idx idx' : Index} {snap : Sdk.IndexSnapshot}

/-! ## The price falls -/

/-- The premium rises through a window. -/
theorem Sdk.premiumAt_mono {startBps endBps startTs endTs now now' premium premium' : Int}
    (hrising : startBps ≤ endBps) (hlater : now ≤ now')
    (h : Sdk.premiumAt startBps endBps startTs endTs now = .ok premium)
    (h' : Sdk.premiumAt startBps endBps startTs endTs now' = .ok premium') :
    premium ≤ premium' := by
  obtain ⟨hopen, hclose⟩ := Sdk.premiumAt_window h
  obtain ⟨hopen', hclose'⟩ := Sdk.premiumAt_window h'
  unfold Sdk.premiumAt at h h'
  rw [if_neg (by omega)] at h h'
  by_cases hspan : endTs ≤ startTs
  · rw [if_pos hspan] at h
    cases h
  · rw [if_neg hspan] at h h'
    rw [← Except.ok.inj h, ← Except.ok.inj h']
    have hband : 0 ≤ endBps - startBps := by omega
    have hpast := Int.mul_nonneg hband (show 0 ≤ now - startTs by omega)
    have hpast' := Int.mul_nonneg hband (show 0 ≤ now' - startTs by omega)
    have hless : (endBps - startBps) * (now - startTs) ≤ (endBps - startBps) * (now' - startTs) :=
      Int.mul_le_mul_of_nonneg_left (by omega) hband
    rw [Int.tdiv_eq_ediv_of_nonneg hpast, Int.tdiv_eq_ediv_of_nonneg hpast']
    have hline := Int.ediv_le_ediv (show 0 < endTs - startTs by omega) hless
    omega

/-- A higher mark is a higher price. -/
theorem Component.price_mono (sell : Component) {buy : Component} (hprice : buy.refPriceE9.toNat ≠ 0)
    {marked marked' : Nat} (h : marked ≤ marked') (x : Nat) :
    sell.price buy marked x ≤ sell.price buy marked' x := by
  unfold Component.price
  apply Rounding.ceilDiv_le_ceilDiv (Nat.pos_of_ne_zero hprice)
  apply Nat.mul_le_mul_right
  apply Rounding.ceilDiv_le_ceilDiv (by decide)
  exact Nat.mul_le_mul_left _ h

/-! ## Nothing else answers `SlippageExceeded` -/

section Unslipped

variable {sell buy : Component}

/-- The premium answers otherwise. -/
theorem premiumAt_unslipped (startBps endBps : Int16) (startTs endTs now : Int64) :
    Only (fun e => e ≠ .slippageExceeded) (premiumAt startBps endBps startTs endTs now) := by
  refine bind_only (failIf_only fun _ => nofun) fun _ _ => ?_
  exact bind_only (failIf_only fun _ => nofun) fun _ _ => toI32_only nofun _

/-- The price answers otherwise. -/
theorem bidPrice_unslipped (premium : Int32) (x : UInt64) :
    Only (fun e => e ≠ .slippageExceeded) (bidPrice sell buy premium x) := by
  refine bind_only (valueE9_only nofun _ _ _) fun _ _ => ?_
  refine bind_only (toU128_only nofun _) fun _ _ => ?_
  refine bind_only (mulDivCeil_only nofun _ _ _) fun _ _ => ?_
  refine bind_only (failIf_only fun _ => nofun) fun _ _ => ?_
  refine bind_only (failIf_only fun _ => nofun) fun _ _ => ?_
  exact bind_only (mulDivCeil_only nofun _ _ _) fun _ _ => toU64_only nofun _

/-- The sizing of a bid whose price is within the limit. -/
theorem bidSizing_unslipped {maxPremiumBps : UInt16} {premium : Int32}
    {supply sellBalance buyBalance x limit : UInt64}
    (hprice : ∀ y, bidPrice sell buy premium x = .ok y → y ≤ limit) :
    Only (fun e => e ≠ .slippageExceeded)
      (bidSizing sell buy maxPremiumBps premium supply sellBalance buyBalance x limit) := by
  refine bind_only (legTarget_only nofun _ _) fun _ _ => ?_
  refine bind_only (legTarget_only nofun _ _) fun _ _ => ?_
  refine bind_only (legCap_only nofun _ _) fun _ _ => ?_
  refine bind_only (failIf_only fun _ => nofun) fun _ _ => ?_
  refine bind_only (failIf_only fun _ => nofun) fun _ _ => ?_
  refine bind_only (failIf_only fun _ => nofun) fun _ _ => ?_
  refine bind_only (bidPrice_unslipped premium x) fun y hy => ?_
  -- the comparison this is about
  refine bind_only (failIf_only fun hgt => ?_) fun _ _ => ?_
  · exact absurd (hprice y hy) (UInt64.not_le.mpr hgt)
  · exact bind_only (failIf_only fun _ => nofun) fun _ _ => only_ok _ _

/-- A missing entry answers otherwise. -/
theorem nth_unslipped {α : Type} (xs : List α) (i : Nat) : Only Unslipped (nth xs i) := by
  unfold nth
  split
  next => exact only_ok _ _
  next => exact only_error nofun

/-- A missing component answers otherwise. -/
theorem component_unslipped (idx : Index) (i : Nat) : Only Unslipped (idx.component i) := by
  unfold Index.component
  split
  next => exact only_ok _ _
  next => exact only_error nofun

/-- The check of the state answers otherwise. -/
theorem isLive_unslipped (idx : Index) : Only Unslipped idx.isLive := by
  unfold Index.isLive
  split
  next => exact only_ok _ _
  next => split <;> exact only_error nofun

/-- The check of the vaults answers otherwise. -/
theorem verifyVaults_unslipped (w : World) (info : AccountInfo) (mint : Pubkey)
    (vaults : List AccountInfo) : Only Unslipped (verifyVaults ch w info mint vaults) := by
  refine bind_only (indexRef_unslipped w info) fun idx _ => ?_
  refine bind_only (failIf_only fun _ => nofun) fun _ _ => ?_
  exact verifyEach_unslipped w _ _ _ vaults

/-- The NAV answers otherwise. -/
theorem navE6_unslipped (w : World) (info : AccountInfo) (balances : List UInt64) :
    Only Unslipped (navE6 w info balances) := by
  refine bind_only (indexRef_unslipped w info) fun idx _ => ?_
  refine bind_only (lift_unslipped (navSum_only nofun _ _ _)) fun total _ => ?_
  exact lift_unslipped (toU64_only nofun _)

/-- A payout answers otherwise. -/
theorem transferFromVault_unslipped (hcpi : ch.token.AnswersCpi) (w : World)
    (vault recipient authority : AccountInfo) (x : UInt64) :
    Only Unslipped (transferFromVault ch w vault recipient authority x) := by
  unfold transferFromVault
  split
  next => exact only_ok _ _
  next =>
    intro e he
    obtain ⟨code, rfl⟩ := hcpi.transfer he
    nofun

end Unslipped

/-- The limit of a bid holds against the record: at the time of the chain it costs no more. -/
def Covers (idx : Index) (now : Int64) (s b : UInt8) (x limit : UInt64) : Prop :=
  idx.rebalance.active ≠ 0 → ∀ (premium : Int32) (sell buy : Component) (y : UInt64),
    premiumAt idx.rebalance.startPremiumBps idx.rebalance.endPremiumBps idx.rebalance.startTs
      idx.rebalance.endTs now = .ok premium →
    idx.components[s.toNat]? = some sell → idx.components[b.toNat]? = some buy →
    bidPrice sell buy premium x = .ok y → y ≤ limit

section Handler

variable {bidder indexInfo indexMintInfo bidderReceive bidderPay tokenProgram : AccountInfo}
  {vaults : List AccountInfo} {s b : UInt8} {x limit : UInt64}

/-- `bid`, when the limit covers what it costs. -/
theorem bid_unslipped (hcpi : ch.token.AnswersCpi) (hm : indexMintInfo.key = m)
    (hidx : w.index? (ch.indexKey m) = some idx) (hcovers : Covers idx w.clock s b x limit) :
    Only Unslipped (bid ch w (bidder :: indexInfo :: indexMintInfo :: bidderReceive :: bidderPay ::
      tokenProgram :: vaults) s b x limit) := by
  subst hm
  refine bind_only (failIf_only fun _ => nofun) fun _ _ => ?_
  refine bind_only (failIf_only fun _ => nofun) fun _ _ => ?_
  refine bind_only (bind_only (failIf_only fun _ => nofun) fun _ _ => only_ok _ _) fun _ hpda => ?_
  have hi := checkIndexPda_ok hpda
  refine bind_only (failIf_only fun _ => nofun) fun _ _ => ?_
  refine bind_only (failIf_only fun _ => nofun) fun _ _ => ?_
  refine bind_only (indexRef_unslipped w indexInfo) fun i hread => ?_
  have hread := (indexRef_ok_iff.mp hread).1
  rw [hi] at hread
  obtain rfl := Option.some.inj (hidx.symm.trans hread)
  refine bind_only (isLive_unslipped idx) fun _ _ => ?_
  refine bind_only (failIf_only fun _ => nofun) fun _ hactive => ?_
  have hactive := failIf_ok_iff.mp hactive
  refine bind_only (lift_unslipped (premiumAt_unslipped _ _ _ _ _)) fun premium hpremium => ?_
  refine bind_only (failIf_only fun _ => nofun) fun _ _ => ?_
  refine bind_only (component_unslipped idx _) fun sell hsell => ?_
  refine bind_only (component_unslipped idx _) fun buy hbuy => ?_
  refine bind_only (verifyVaults_unslipped w indexInfo _ vaults) fun balances _ => ?_
  refine bind_only (readMint_unslipped w indexMintInfo) fun mint _ => ?_
  refine bind_only (failIf_only fun _ => nofun) fun _ _ => ?_
  refine bind_only (requireTokenAccountOfMint_unslipped w bidderReceive _) fun _ _ => ?_
  refine bind_only (requireTokenAccountOfMint_unslipped w bidderPay _) fun _ _ => ?_
  refine bind_only (nth_unslipped balances _) fun sellBalance _ => ?_
  refine bind_only (nth_unslipped balances _) fun buyBalance _ => ?_
  have hprice : ∀ y, bidPrice sell buy premium x = .ok y → y ≤ limit := by
    intro y hy
    exact hcovers hactive premium sell buy y (lift_ok_iff.mp hpremium)
      (Index.component_ok_iff.mp hsell) (Index.component_ok_iff.mp hbuy) hy
  refine bind_only (lift_unslipped (bidSizing_unslipped hprice)) fun buyAmount _ => ?_
  refine bind_only (nth_unslipped vaults _) fun buyVault _ => ?_
  refine bind_only (nth_unslipped vaults _) fun sellVault _ => ?_
  refine bind_only (transferFromUser_unslipped w hcpi bidderPay buyVault bidder _) fun w₁ _ => ?_
  refine bind_only (transferFromVault_unslipped hcpi w₁ _ _ _ _) fun w₂ _ => ?_
  refine bind_only (verifyVaults_unslipped w₂ indexInfo _ vaults) fun balances _ => ?_
  refine bind_only (navE6_unslipped w₂ indexInfo balances) fun nav _ => ?_
  refine bind_only (indexRef_unslipped w₂ indexInfo) fun _ _ => ?_
  refine bind_only (failIf_only fun _ => nofun) fun _ _ => ?_
  exact syncUnits_unslipped w₂ indexInfo balances _

end Handler

namespace Cli

open Sdk

/-! ## The command -/

inductive BidFailure where
  /-- `Component index out of range` -/
  | outOfRange
  /-- `No auction is running` -/
  | noAuction
  | client (e : ClientError)
  deriving DecidableEq

/-- What `bid` shows, and what it sends. -/
structure BidOrder where
  sell : ComponentAccount
  buy : ComponentAccount
  premiumBps : Int
  quote : BidQuote
  built : TransactionInstruction

def componentOf (snapshot : IndexSnapshot) (i : Nat) : Except BidFailure ComponentAccount :=
  match snapshot.account.components[i]? with
  | some component => .ok component
  | none => .error .outOfRange

/-- `bid`, up to where it sends; `now` is the clock of the machine it runs on. -/
def bidOrder (client : FlockClient) (payer : Pubkey) (snapshot : IndexSnapshot)
    (sellComponent buyComponent : Nat) (sellAmount now : Int) : Except BidFailure BidOrder := do
  let sell ← componentOf snapshot sellComponent
  let buy ← componentOf snapshot buyComponent
  let rebalance := snapshot.account.rebalance
  if ¬ rebalance.active then throw .noAuction
  let premiumBps ← (Sdk.premiumAt rebalance.startPremiumBps rebalance.endPremiumBps
    rebalance.startTs rebalance.endTs now).mapError fun e => .client (.quote e)
  let quote ← (bidCost sellAmount sell.decimals sell.refPriceE9 buy.decimals buy.refPriceE9
    premiumBps).mapError fun e => .client (.quote e)
  let bidderReceiveAccount ← (client.tokenAddress sell.mint payer false).mapError .client
  let bidderPayAccount ← (client.tokenAddress buy.mint payer false).mapError .client
  let built ← (Sdk.bid client.lib
    { programId := client.programId
      bidder := payer
      indexMint := snapshot.indexMint
      componentMints := snapshot.account.components.map ComponentAccount.mint
      bidderReceiveAccount, bidderPayAccount, sellComponent, buyComponent, sellAmount
      maxBuyAmount := quote.buyAmount }).mapError fun e => .client (.encode e)
  pure { sell, buy, premiumBps, quote, built }

/-- The transaction of `bid`: an account for what it buys, and the instruction. -/
def sendBid (ch : Chain) (ata : Keeper.AssociatedTokens) (payer : Pubkey) (order : BidOrder)
    (w : World) : Except Failure World := do
  let w ← (ata.createIdempotent w order.sell.mint payer).mapError .refused
  deliver ch [payer] w order.built

/-- A `bid` that was typed in `w₀` and has landed in `w'`. -/
structure Bids (ch : Chain) (client : FlockClient) (ata : Keeper.AssociatedTokens)
    (payer m : Pubkey) (w₀ : World) (sellComponent buyComponent : Nat) (sellAmount : Int)
    (order : BidOrder) (w' : World) : Prop where
  intro ::
  landed : ∃ w₁ w₂ asOf now snap, Keeper.Meanwhile ch payer w₀ w₁ ∧
    snapshotAcross ch w₀ w₁ m asOf = .ok snap ∧
    bidOrder client payer snap sellComponent buyComponent sellAmount now = .ok order ∧
    Keeper.Meanwhile ch payer w₁ w₂ ∧ sendBid ch ata payer order w₂ = .ok w'

/-! ## What is built -/

section Built

variable {signers : List Pubkey} {built : TransactionInstruction} {e : ProgramError}

/-- What was written as a `u8` is one. -/
theorem u8_ok {writer writer' : Writer} {value : Int} (h : writer.u8 value = .ok writer') :
    ∃ x : UInt8, value = x.toNat := by
  obtain ⟨x, hx, rfl, -⟩ := Writer.uint_ok_iff.mp h
  exact ⟨UInt8.ofNat x, by rw [UInt8.toNat_ofNat_of_lt' hx]⟩

/-- A bid that was built is the bid of a request. -/
theorem bid_request {lib : Library} {args : BidArgs} (h : Sdk.bid lib args = .ok built) :
    ∃ (s b : UInt8) (x limit : UInt64), args.sellComponent = s.toNat ∧
      args.buyComponent = b.toNat ∧ args.sellAmount = x.toNat ∧ args.maxBuyAmount = limit.toNat ∧
      (Request.bid args.bidder args.indexMint args.componentMints args.bidderReceiveAccount
        args.bidderPayAccount s b x limit).sdk lib args.programId = .ok built := by
  obtain ⟨_, -, h₁⟩ := bind_ok_iff.mp h
  obtain ⟨_, hs, h₂⟩ := bind_ok_iff.mp h₁
  obtain ⟨_, hb, h₃⟩ := bind_ok_iff.mp h₂
  obtain ⟨_, hx, h₄⟩ := bind_ok_iff.mp h₃
  obtain ⟨_, hlimit, -⟩ := bind_ok_iff.mp h₄
  obtain ⟨s, hs⟩ := u8_ok hs
  obtain ⟨b, hb⟩ := u8_ok hb
  obtain ⟨x, hx, -⟩ := Writer.u64_ok_iff.mp hx
  obtain ⟨limit, hlimit, -⟩ := Writer.u64_ok_iff.mp hlimit
  refine ⟨s, b, x, limit, hs, hb, hx, hlimit, ?_⟩
  rw [Request.sdk, ← hs, ← hb, ← hx, ← hlimit]
  exact h

/-- What is refused was refused by the program. -/
theorem deliver_refused {lib : Library} {r : Request}
    (hbuilt : r.sdk lib ch.programId = .ok built)
    (h : deliver ch signers w built = .error (.refused e)) :
    built.keys = (r.program lib ch.programId).accounts ∧
      process ch w (accountsOf signers built) r.instruction = .error e := by
  obtain ⟨built', hbuilt', -, hkeys, hdata⟩ := r.sdk_built lib ch.programId
  obtain rfl := Except.ok.inj (hbuilt.symm.trans hbuilt')
  refine ⟨hkeys, ?_⟩
  unfold deliver at h
  split at h
  next => cases h
  next =>
    rw [hdata, r.program_data, processData_serialize r.instruction_fits] at h
    rcases hprocess : process ch w (accountsOf signers built) r.instruction with e' | w'
    · rw [hprocess] at h
      rw [Failure.refused.inj (Except.error.inj h)]
    · rw [hprocess] at h
      cases h

end Built

/-- What an order says about the snapshot it was made from, in the program's terms. -/
structure Ordered (ch : Chain) (lib : Library) (ata : Keeper.AssociatedTokens) (payer : Pubkey)
    (snap : IndexSnapshot) (order : BidOrder) (s b : UInt8) (x limit : UInt64) (now : Int) :
    Prop where
  sell_at : snap.account.components[s.toNat]? = some order.sell
  buy_at : snap.account.components[b.toNat]? = some order.buy
  active : snap.account.rebalance.active = true
  premium : Sdk.premiumAt snap.account.rebalance.startPremiumBps
    snap.account.rebalance.endPremiumBps snap.account.rebalance.startTs
    snap.account.rebalance.endTs now = .ok order.premiumBps
  quote : Keeper.quotePair order.sell order.buy order.premiumBps x.toNat = .ok order.quote
  limit_eq : order.quote.buyAmount = limit.toNat
  request : (Request.bid payer snap.indexMint
    (snap.account.components.map ComponentAccount.mint) (ata.address order.sell.mint payer)
    (ata.address order.buy.mint payer) s b x limit).sdk lib ch.programId = .ok order.built

/-- A component of the snapshot is an entry of its table. -/
theorem componentOf_ok_iff {i : Nat} {c : ComponentAccount} :
    componentOf snap i = .ok c ↔ snap.account.components[i]? = some c := by
  unfold componentOf
  split <;> simp_all

/-- What the command orders is a bid of machine integers on the components it shows. -/
theorem Aligned.bidOrder (hA : Aligned ch client ata) {i j : Nat} {sellAmount now : Int}
    {order : BidOrder} (h : bidOrder client payer snap i j sellAmount now = .ok order) :
    ∃ (s b : UInt8) (x limit : UInt64), i = s.toNat ∧ j = b.toNat ∧ sellAmount = x.toNat ∧
      Ordered ch client.lib ata payer snap order s b x limit now := by
  obtain ⟨sell, hsell, h⟩ := bind_ok_iff.mp h
  obtain ⟨buy, hbuy, h⟩ := bind_ok_iff.mp h
  by_cases hactive : snap.account.rebalance.active = true
  swap
  · simp only [hactive] at h
    cases h
  · simp only [hactive] at h
    obtain ⟨premium, hpremium, h⟩ := bind_ok_iff.mp h
    obtain ⟨quote, hquote, h⟩ := bind_ok_iff.mp h
    obtain ⟨receive, hreceive, h⟩ := bind_ok_iff.mp h
    obtain ⟨pay, hpay, h⟩ := bind_ok_iff.mp h
    obtain ⟨built, hbuilt, h⟩ := bind_ok_iff.mp h
    obtain rfl := Except.ok.inj h
    obtain ⟨s, b, x, limit, hs, hb, hx, hlimit, hrequest⟩ := bid_request (mapError_ok_iff.mp hbuilt)
    have hs := Int.ofNat.inj hs
    have hb := Int.ofNat.inj hb
    rw [hA.tokenAddress (mapError_ok_iff.mp hreceive), hA.tokenAddress (mapError_ok_iff.mp hpay),
      hA.programId] at hrequest
    refine ⟨s, b, x, limit, hs, hb, hx, ?_, ?_, hactive, mapError_ok_iff.mp hpremium, ?_, hlimit,
      hrequest⟩
    · rw [← hs]
      exact componentOf_ok_iff.mp hsell
    · rw [← hb]
      exact componentOf_ok_iff.mp hbuy
    · rw [← show sellAmount = x.toNat from hx]
      exact mapError_ok_iff.mp hquote

/-! ## What lands -/

section Landing

variable {order : BidOrder} {s b : UInt8} {x limit : UInt64} {now : Int}
  (hO : Ordered ch client.lib ata payer snap order s b x limit now)
include hO

/-- The accounts that a bid names. -/
theorem Ordered.accounts (signers : List Pubkey) : ∃ index vaults,
    accountsOf signers order.built = [payer, index, snap.indexMint,
      ata.address order.sell.mint payer, ata.address order.buy.mint payer,
      client.lib.tokenProgramId].map (fun k => ⟨k, decide (k ∈ signers)⟩) ++ vaults := by
  obtain ⟨built, hbuilt, -, hkeys, -⟩ := Request.sdk_built client.lib ch.programId
    (.bid payer snap.indexMint (snap.account.components.map ComponentAccount.mint)
      (ata.address order.sell.mint payer) (ata.address order.buy.mint payer) s b x limit)
  obtain rfl := Except.ok.inj (hO.request.symm.trans hbuilt)
  rw [accountsOf, hkeys, Request.program, Builders.bid]
  dsimp only
  rw [Builders.pushVaults_eq, List.map_append]
  exact ⟨_, _, rfl⟩

/-- A bid that lands brings what was shown, and costs no more. -/
theorem bid_lands (hu : ch.Personal payer) (hm : ch.inUse snap.indexMint)
    (hbegins : snap.account.components.map ComponentAccount.mint
      <+: w.mints (ch.indexKey snap.indexMint))
    (hown : w.owns payer order.sell.mint (ata.address order.sell.mint payer) = true)
    (h : deliver ch [payer] w order.built = .ok w') :
    Gains payer (Pi.single order.sell.mint (x.toNat : ℤ)
      - Pi.single order.buy.mint order.quote.buyAmount) w w' := by
  obtain ⟨-, -, hdone⟩ := deliver_request hO.request h
  obtain ⟨index, vaults, haccounts⟩ := hO.accounts [payer]
  have hbid : bid ch w _ s b x limit = .ok w' := hdone
  rw [haccounts] at hbid
  -- the record that the instruction meets
  obtain ⟨_, -, h₁⟩ := bind_ok_iff.mp hbid
  obtain ⟨_, -, h₂⟩ := bind_ok_iff.mp h₁
  obtain ⟨_, hpda, -⟩ := bind_ok_iff.mp h₂
  have hindex : index = ch.indexKey snap.indexMint := checkIndexPda_ok hpda
  have hsold : (w.mints (ch.indexKey snap.indexMint))[s.toNat]? = some order.sell.mint := by
    apply mints_of_prefix hbegins
    rw [List.getElem?_map, hO.sell_at, Option.map_some]
  have hpaid : (w.mints (ch.indexKey snap.indexMint))[b.toNat]? = some order.buy.mint := by
    apply mints_of_prefix hbegins
    rw [List.getElem?_map, hO.buy_at, Option.map_some]
  refine (bid_earns hu ?_ w' hbid).weaken fun M => ?_
  · intro m' hc
    rw [← Option.some.inj (show some snap.indexMint = some m' from hc)]
    exact hm
  · rw [hO.limit_eq]
    simp only [settlement, receipts, stakes, calls, List.map_cons, List.cons_append, hindex, hsold,
      hpaid, hown, coins, decide_true, if_true, le_refl]

end Landing

/-! ## The limit stands -/

/-- Two components that weigh and cost the same. -/
structure SameTerms (c c' : Component) : Prop where
  decimals : c'.decimals = c.decimals
  price : c'.refPriceE9 = c.refPriceE9

/-- On the same terms an amount has the same price. -/
theorem SameTerms.price_eq {c c' d d' : Component} (hc : SameTerms c c') (hd : SameTerms d d') :
    c'.price d' = c.price d := by
  funext marked x
  unfold Component.price Component.value
  rw [hc.decimals, hc.price, hd.decimals, hd.price]

/-- While a mandate stands, so do the terms at every position of the table. -/
theorem sameTerms_of_mandate (hsame : SameMandate idx idx') (htable : idx'.table = idx.table)
    {i : Nat} {c c' : Component} (hc : idx.components[i]? = some c)
    (hc' : idx'.components[i]? = some c') : SameTerms c c' := by
  have hprices := congrArg (fun prices => prices[i]?) hsame.prices
  have hrows := congrArg (fun rows => rows[i]?) htable
  simp only [Index.prices, Index.table, List.getElem?_map, hc, hc', Option.map_some,
    Option.some.injEq, Prod.mk.injEq] at hprices hrows
  exact ⟨hrows.2.1, hprices⟩

section Limit

variable {order : BidOrder} {s b : UInt8} {x limit : UInt64} {now : Int}
  {st : IndexStateName} (haccount : snap.account = accountOf idx st)
  (hO : Ordered ch client.lib ata payer snap order s b x limit now)
include haccount hO

/-- The limit is the price at the premium that was shown. -/
theorem Ordered.limit_price (hin : AuctionInOrder idx) : ∃ sell buy,
    idx.components[s.toNat]? = some sell ∧ idx.components[b.toNat]? = some buy ∧
    order.sell.mint = sell.mint ∧ order.buy.mint = buy.mint ∧
    limit.toNat = sell.price buy (10000 - order.premiumBps).toNat x.toNat := by
  obtain ⟨hsell, hbuy, -, hpremium, hquote, hlimit, -⟩ := hO
  rw [haccount] at hsell hbuy hpremium
  obtain ⟨sell, hsell, hsell'⟩ := Option.map_eq_some_iff.mp (List.getElem?_map ▸ hsell)
  obtain ⟨buy, hbuy, hbuy'⟩ := Option.map_eq_some_iff.mp (List.getElem?_map ▸ hbuy)
  refine ⟨sell, buy, hsell, hbuy, by rw [← hsell']; rfl, by rw [← hbuy']; rfl, ?_⟩
  have hnonzero := hin.prices buy (List.mem_of_getElem? hbuy)
  rw [← hsell', ← hbuy', Sdk.quotePair_nat (hin.premium_le hpremium) hnonzero] at hquote
  rw [← Except.ok.inj hquote] at hlimit
  exact (Int.ofNat.inj hlimit).symm

/-- What was ordered was ordered in an auction. -/
theorem Ordered.active_ne : idx.rebalance.active ≠ 0 := by
  have hactive := hO.active
  rw [haccount] at hactive
  have hone : idx.rebalance.active = 1 := of_decide_eq_true hactive
  rw [hone]
  decide

/-- What the bid costs later, next to what was shown. -/
theorem Ordered.price_le (hin : AuctionInOrder idx) (hsame : SameMandate idx idx')
    (htable : idx'.table = idx.table) {clock : Int64} {premium : Int32} {sell buy : Component}
    {y : UInt64} (hlater : now ≤ clock.toInt)
    (hpremium : Flock.premiumAt idx'.rebalance.startPremiumBps idx'.rebalance.endPremiumBps
      idx'.rebalance.startTs idx'.rebalance.endTs clock = .ok premium)
    (hsell : idx'.components[s.toNat]? = some sell) (hbuy : idx'.components[b.toNat]? = some buy)
    (hprice : bidPrice sell buy premium x = .ok y) :
    y ≤ limit ∧ (now = clock.toInt → y = limit) := by
  obtain ⟨sell₀, buy₀, hsell₀, hbuy₀, -, -, hlimit⟩ := hO.limit_price haccount hin
  rw [hsame.rebalance] at hpremium
  have hshown := hO.premium
  rw [haccount] at hshown
  have hagrees := hin.premiumAt_agrees hpremium
  have hrises : order.premiumBps ≤ premium.toInt :=
    Sdk.premiumAt_mono hin.rising hlater hshown hagrees
  have hnonzero := hin.prices buy₀ (List.mem_of_getElem? hbuy₀)
  have hterms := SameTerms.price_eq (sameTerms_of_mandate hsame htable hsell₀ hsell)
    (sameTerms_of_mandate hsame htable hbuy₀ hbuy)
  have hy := bidPrice_eq hprice
  rw [hterms] at hy
  constructor
  · rw [UInt64.le_iff_toNat_le, hy, hlimit]
    exact Component.price_mono sell₀ hnonzero (by omega) x.toNat
  · intro hnow
    have hpremiums : order.premiumBps = premium.toInt := by
      rw [hnow] at hshown
      exact Except.ok.inj (hshown.symm.trans hagrees)
    rw [← UInt64.toNat_inj, hy, hlimit, hpremiums]

/-- Whatever is done without the two keys, the limit covers the bid from then on. -/
theorem Ordered.covers {w₂ : World} (horder : Orderly idx) (hleft : Untouched ch m w₀ w₂ idx idx')
    (htable : idx.state ≠ stateBootstrapping → idx'.table = idx.table) {clock : Int64}
    (hlater : now ≤ clock.toInt) : Covers idx' clock s b x limit := by
  intro hactive premium sell buy y hpremium hsell hbuy hprice
  have hin := horder (hO.active_ne haccount)
  rcases hleft.mandate with hsame | hclosed
  · exact (hO.price_le haccount hin hsame (htable hin.sealed) hlater hpremium hsell hbuy hprice).1
  · rw [hclosed.rebalance] at hactive
    exact absurd rfl hactive

end Limit

/-! ## The results -/

/-- Whatever happens before it lands: a `bid` adds the amount to the payer's purse of what it
takes and costs no more of the other component than was shown. -/
theorem bid_trades_as_shown (hA : Aligned ch client ata) (hu : ch.Personal payer)
    (hm : ch.inUse m) (hdel : w₀.Undelegated payer) {sellComponent buyComponent : Nat}
    {sellAmount : Int} {order : BidOrder}
    (h : Bids ch client ata payer m w₀ sellComponent buyComponent sellAmount order w')
    (M : Pubkey) : (w₀.purse payer M : ℤ) + (Pi.single order.sell.mint sellAmount
      - Pi.single order.buy.mint order.quote.buyAmount : Pubkey → ℤ) M ≤ w'.purse payer M := by
  obtain ⟨w₁, w₂, asOf, now, snap, hbefore, hsnap, hmade, hafter, hsent⟩ := h
  obtain ⟨s, b, x, limit, -, -, rfl, hO⟩ := hA.bidOrder hmade
  obtain ⟨rfl, htable, -⟩ := snapshotAcross_table hsnap
  obtain ⟨w₃, hw₃, hlanded⟩ := bind_ok_iff.mp hsent
  have hwaited := Keeper.Meanwhile.gains (hbefore.trans hafter) hu
  obtain ⟨hopen, hown⟩ := createIdempotent_gains (mapError_ok_iff.mp hw₃) (hwaited.undelegated hdel)
  have hready := (purses payer).trans hwaited hopen
  have hgains := bid_lands hO hu hm (htable ▸ hready.mints _) hown hlanded
  have hall := ((purses payer).trans hready hgains).purse M
  rw [zero_add, zero_add] at hall
  exact hall

/-- Without the governor and the manager, and once the clock of the chain has come to that of
the bidder: a bid is not refused with `SlippageExceeded`. If it goes through, the fund is paid
what was shown at most, and just that if the two clocks agree. -/
theorem bid_price_stands (hcpi : ch.token.AnswersCpi) (hA : Aligned ch client ata)
    (h : Reachable ch w₀) {k : Pubkey} (hidx : w₀.index? k = some idx)
    (hrun : Relation.ReflTransGen (StrangerStep ch idx.governor idx.manager) w₀ w) {asOf : Int}
    (hsnap : snapshotAcross ch w₀ w₁ idx.indexMint asOf = .ok snap)
    {sellComponent buyComponent : Nat} {sellAmount now : Int} {order : BidOrder}
    (hmade : bidOrder client payer snap sellComponent buyComponent sellAmount now = .ok order)
    (hlater : now ≤ w.clock.toInt) :
    deliver ch [payer] w order.built ≠ .error (.refused (.custom .slippageExceeded)) ∧
    ∀ w', Signable ch (accountsOf [payer] order.built) →
      deliver ch [payer] w order.built = .ok w' →
      ∃ paid : Nat, w'.amount (ch.vaultKey idx.indexMint order.buy.mint)
          = w.amount (ch.vaultKey idx.indexMint order.buy.mint) + paid ∧
        paid ≤ order.quote.buyAmount ∧ (now = w.clock.toInt → paid = order.quote.buyAmount) := by
  have hW : AllWf ch w₀ := (reachable_wf h).1
  obtain ⟨rfl, hwf⟩ := hW hidx
  have hm := hwf.custody.inUse
  obtain ⟨idx₀, st, hidx₀, haccount, hmint, -⟩ := snapshotAcross_account hsnap
  obtain rfl := Option.some.inj (hidx.symm.trans hidx₀)
  obtain ⟨s, b, x, limit, -, -, -, hO⟩ := hA.bidOrder hmade
  have horder := reachable_orderly h hm hidx
  have hin := horder (hO.active_ne haccount)
  obtain ⟨hW', idx', hidx', hleft⟩ := untouched_of_run hW hm hidx hrun
  obtain ⟨-, idx'', hidx'', hstays⟩ := staysSealed_of_run
    (Relation.ReflTransGen.mono (fun _ _ => StrangerStep.step) _ _ hrun) hW hm hidx hin.sealed
  obtain rfl := Option.some.inj (hidx'.symm.trans hidx'')
  obtain ⟨index, vaults, haccounts⟩ := hO.accounts [payer]
  constructor
  · intro hrefused
    obtain ⟨-, hrefused⟩ := deliver_refused hO.request hrefused
    have hbid : bid ch w _ s b x limit = .error (.custom .slippageExceeded) := hrefused
    rw [haccounts] at hbid
    exact bid_unslipped hcpi hmint hidx'
      (hO.covers haccount horder hleft (fun _ => hstays.table) hlater) _ hbid rfl
  · intro w' hsignable hlanded
    obtain ⟨-, -, hdone⟩ := deliver_request hO.request hlanded
    rw [haccounts] at hdone hsignable
    rcases hW'.call_cases hm hsignable hdone with heff | ⟨hconcerns, -⟩
    swap
    · exact absurd (congrArg some hmint) hconcerns
    cases heff with
    | @bid _ _ _ _ _ _ _ _ _ _ _ idx₂ sell buy mi premium paid key before done =>
      obtain rfl := Option.some.inj (hidx'.symm.trans before)
      have hcustody := (hW'.wf hm hidx').custody
      rcases hleft.mandate with hsame | hclosed
      swap
      · have hactive := done.active
        rw [hclosed.rebalance] at hactive
        exact absurd rfl hactive
      obtain ⟨hle, hexact⟩ := hO.price_le haccount hin hsame hstays.table hlater done.premium_eq
        done.sell_at done.buy_at done.sized.price
      obtain ⟨-, buy₀, -, hbuy₀, -, hbuymint, -⟩ := hO.limit_price haccount hin
      have hrows := congrArg (fun rows => rows[b.toNat]?) hstays.table
      simp only [Index.table, List.getElem?_map, hbuy₀, done.buy_at, Option.map_some,
        Option.some.injEq, Prod.mk.injEq] at hrows
      have hbought := done.bought hcustody
      rw [World.vault, World.vault, hrows.1, ← hbuymint] at hbought
      refine ⟨paid.toNat, hbought, ?_, ?_⟩
      · rw [hO.limit_eq]
        exact_mod_cast UInt64.le_iff_toNat_le.mp hle
      · intro hnow
        rw [hO.limit_eq, hexact hnow]

/-! ### On the local chain -/

/-- The local fund at the start of an auction from half a percent above the reference value
to one percent below it. -/
def localFalling : List Act :=
  openFund ⟨100, 0, 0, 100⟩ 2000000 333333333 ++ [localIssue 12500000000000,
    .call proposeAccounts (.proposeRebalance [2100000, 330000000] [1000000000, 30000000000] 3600
      (-50) 100 100), .tick 300]

/-- Holder 40 asks for 5000000 of component 3 when the auction opens. -/
def localBidOrder (sent : BidOrder → Bool) (w : World) : Bool :=
  okAnd (snapshotAcross localnet w w (addr 1) 300) fun snap =>
    okAnd (bidOrder localCommand (addr 40) snap 1 0 5000000 300) sent

/-- The test of the order, as a statement about it. -/
theorem localBidOrder_iff {sent : BidOrder → Bool} : localBidOrder sent w = true ↔
    ∃ snap order, snapshotAcross localnet w w (addr 1) 300 = .ok snap ∧
      bidOrder localCommand (addr 40) snap 1 0 5000000 300 = .ok order ∧ sent order = true := by
  simp only [localBidOrder, okAnd_iff]
  constructor
  · intro h
    obtain ⟨snap, hsnap, order, hmade, hsent⟩ := h
    exact ⟨snap, order, hsnap, hmade, hsent⟩
  · intro h
    obtain ⟨snap, order, hsnap, hmade, hsent⟩ := h
    exact ⟨snap, hsnap, order, hmade, hsent⟩

/-- Between the snapshot and the landing the governor raises the fees. -/
theorem bid_trades_as_shown_local : ∃ (w₀ w' : World) (order : BidOrder),
    Bids localnet localCommand localAssociated (addr 40) (addr 1) w₀ 1 0 5000000 order w' ∧
    ∀ M, (w₀.purse (addr 40) M : ℤ) + (Pi.single order.sell.mint 5000000
      - Pi.single order.buy.mint order.quote.buyAmount : Pubkey → ℤ) M
        ≤ w'.purse (addr 40) M := by
  have hrun : endsIn (perform (fun _ act => act.permitted) localWorld localFalling) (fun w =>
      localBidOrder (fun order =>
        okAnd (process localnet w [signer 60, indexAccount, account 1] localRaise) fun w₂ =>
          okAnd (sendBid localnet localAssociated (addr 40) order w₂) fun _ => true) w) = true := by
    decide +kernel
  obtain ⟨w, hw, hp⟩ := endsIn_iff.mp hrun
  obtain ⟨snap, order, hsnap, hmade, hsent⟩ := localBidOrder_iff.mp hp
  obtain ⟨w₂, hraised, hsent⟩ := okAnd_iff.mp hsent
  obtain ⟨w', hdone, -⟩ := okAnd_iff.mp hsent
  have hbids : Bids localnet localCommand localAssociated (addr 40) (addr 1) w 1 0 5000000 order w' :=
    ⟨w, w₂, 300, 300, snap, .refl, hsnap, hmade, localRaise_meanwhile hraised, hdone⟩
  exact ⟨w, w', order, hbids, bid_trades_as_shown localCommand_aligned
    (localnet_personal (by decide)) (show (addr 1).val.toNat < 2 * localBase by decide)
    (localRun_undelegated (by decide) hw) hbids⟩

/-- Half an hour after it was asked for, the fill costs less. -/
theorem bid_price_stands_local : ∃ (w₀ w w' : World) (idx : Index) (order : BidOrder) (paid : Nat),
    Reachable localnet w₀ ∧ w₀.index? localIndex = some idx ∧
    deliver localnet [addr 40] w order.built = .ok w' ∧
    w'.amount (localnet.vaultKey idx.indexMint order.buy.mint)
      = w.amount (localnet.vaultKey idx.indexMint order.buy.mint) + paid ∧
    paid ≤ order.quote.buyAmount ∧ order.quote.buyAmount = 150750 ∧ paid = 149625 := by
  obtain ⟨w₀, idx, hreach, hidx, hp⟩ := exists_of_run localFalling
    (fun w idx => decide (idx.governor = addr 60 ∧ idx.manager = addr 61 ∧
        idx.indexMint = addr 1) &&
      localBidOrder (fun order => decide (order.quote.buyAmount = 150750) &&
        (Act.call (accountsOf [addr 40] order.built) .sealIndex).permitted &&
        endsIn (perform strangerAct w [.tick 2100, localAccrue]) fun w₁ =>
          decide (w₁.clock = 2100) &&
          okAnd (deliver localnet [addr 40] w₁ order.built) fun w' =>
            decide (w'.amount (localnet.vaultKey (addr 1) order.buy.mint)
              = w₁.amount (localnet.vaultKey (addr 1) order.buy.mint) + 149625)) w)
    (by decide +kernel)
  simp only [Bool.and_eq_true, decide_eq_true_eq] at hp
  obtain ⟨⟨hgovernor, hmanager, hmint⟩, hp⟩ := hp
  obtain ⟨snap, order, hsnap, hmade, hp⟩ := localBidOrder_iff.mp hp
  simp only [Bool.and_eq_true, decide_eq_true_eq, endsIn_iff, okAnd_iff] at hp
  obtain ⟨⟨hquote, hpermitted⟩, w, hw, hclock, w', hdone, hamount⟩ := hp
  have hrun : Relation.ReflTransGen (StrangerStep localnet idx.governor idx.manager) w₀ w := by
    rw [hgovernor, hmanager]
    exact perform_run strangerAct_stranger hw
  rw [← hmint] at hsnap hamount
  obtain ⟨-, hpays⟩ := bid_price_stands (legacyToken_answersCpi 7) localCommand_aligned hreach hidx
    hrun hsnap hmade (by rw [hclock]; decide)
  obtain ⟨paid, hpaid, hle, -⟩ := hpays w' (Act.signable hpermitted) hdone
  refine ⟨w₀, w, w', idx, order, paid, hreach, hidx, hdone, hpaid, hle, hquote, ?_⟩
  rw [hpaid] at hamount
  exact Nat.add_left_cancel hamount

end Cli

end Flock
