import Flock.Lib.DoubleError
import Flock.Processor
import Flock.Sdk

/-!
# The keeper: `planner.ts`, and the sending side of its `index.ts`

`plan` decides from one snapshot, the market prices and the inventory what the
keeper sends: an accrual if the fee is worth it, then either the closing of an
expired auction or bids, one for every pair of components that is worth taking.
The two loops over the table are `planLeg` and `plan`; the body of the inner one
is `planPair`, cut where it decides on the size (`sizePair`) and on the market
(`judgePair`). A `throw` ends the whole plan.

Amounts and values are `bigint`s. The edge is compared as a `number`, so it is a
`Double` here. The other numbers of a plan, indices, times, the share and the floor
of a policy, are whole and small, and are integers; so is the premium (`Sdk.premiumAt`).

`send` is the transaction an action becomes. The associated token account program
is not part of this repository; `AssociatedTokens` says what is relied on.
-/

namespace Flock.Keeper

open Sdk

structure KeeperPolicy where
  /-- Do not pay a transaction fee to mint less than this many index base units. -/
  minAccrualTokens : Int
  /-- Do not bid unless the market edge covers this. A whole number. -/
  minEdgeBps : Int
  /-- Never take more than this share of a leg's remaining size in one bid. -/
  maxLegShareBps : Int
  deriving DecidableEq, Repr

/-- `DEFAULT_POLICY` -/
def defaultPolicy : KeeperPolicy where
  minAccrualTokens := 1000000
  minEdgeBps := 25
  maxLegShareBps := 10000

inductive Action where
  | accrue (pendingFee : Int)
  /-- `{ kind: "end"; reason: "expired" }` -/
  | endExpired
  | bid (sellComponent buyComponent : Nat) (sellAmount maxBuyAmount premiumBps : Int)
      (edgeBps : Double)
  deriving DecidableEq, Repr

/-- Why something was left out. -/
inductive Note where
  /-- `fee of ${pendingFee} is below the ${minAccrualTokens} floor` -/
  | feeBelowFloor (pendingFee minAccrualTokens : Int)
  /-- `auction opens in ${seconds}s` -/
  | auctionOpensIn (seconds : Int)
  /-- `no inventory to pay for leg ${buyIndex}` -/
  | noInventory (buyIndex : Nat)
  /-- `no market price for the ${sellIndex}/${buyIndex} pair` -/
  | noMarketPrice (sellIndex buyIndex : Nat)
  /-- `pair ${sellIndex}->${buyIndex} pays ${edgeBps} bps at a ${premiumBps} bps premium,
  under the ${minEdgeBps} bps floor` -/
  | underFloor (sellIndex buyIndex : Nat) (edgeBps : Double) (premiumBps minEdgeBps : Int)
  deriving DecidableEq, Repr

structure PlanInput where
  snapshot : IndexSnapshot
  /-- Live USD price per whole token, in table order. -/
  marketPricesE9 : List Int
  now : Int
  policy : KeeperPolicy
  /-- What the keeper actually holds, in table order. -/
  inventory : List Int
  deriving DecidableEq, Repr

structure Plan where
  actions : List Action
  notes : List Note
  deriving DecidableEq, Repr

namespace Plan

/-- `continue`. -/
def nothing : Plan := ⟨[], []⟩

def act (a : Action) : Plan := ⟨[a], []⟩

def note (n : Note) : Plan := ⟨[], [n]⟩

def append (p q : Plan) : Plan := ⟨p.actions ++ q.actions, p.notes ++ q.notes⟩

/-- The rounds of a loop, one after another. -/
def gather : List (Except SdkError Plan) → Except SdkError Plan
  | [] => pure nothing
  | round :: rounds => do
    let p ← round
    let q ← gather rounds
    pure (p.append q)

end Plan

/-! ## Sizing a pair -/

/-- `(targetUnits * supply) / UNIT_SCALE`. -/
def legTarget (snapshot : IndexSnapshot) (c : ComponentAccount) : Int :=
  (c.targetUnits * snapshot.supply).tdiv Sdk.unitScale

def legCap (snapshot : IndexSnapshot) (c : ComponentAccount) : Int :=
  legTarget snapshot c +
    (legTarget snapshot c * snapshot.account.maxPremiumBps).tdiv Sdk.bps

/-- What sizing a pair comes to. -/
inductive Sizing where
  | skip
  | noInventory
  | sized (sellAmount : Int) (quote : BidQuote)
  deriving DecidableEq, Repr

def quotePair (sell buy : ComponentAccount) (premiumBps sellAmount : Int) :
    Except SdkError BidQuote :=
  bidCost sellAmount sell.decimals sell.refPriceE9 buy.decimals buy.refPriceE9 premiumBps

/-- Scale the sell side down to the budget and quote again. A `bigint` division by
zero throws. -/
def trimPair (sell buy : ComponentAccount) (premiumBps sellAmount budget : Int)
    (quote : BidQuote) : Except SdkError Sizing := do
  let sellAmount ← Sdk.mulDivFloor sellAmount budget quote.buyAmount
  if sellAmount = 0 then return .skip
  let quote ← quotePair sell buy premiumBps sellAmount
  if quote.buyAmount > budget then return .skip
  return .sized sellAmount quote

/-- The lesser of what is held and what the leg still takes. -/
def budgetOf (held buyable : Int) : Int := if held < buyable then held else buyable

/-- Size the bid so that neither leg is pushed past what the program will accept,
then trim it to the inventory actually on hand and to the policy's per-bid share. -/
def sizePair (input : PlanInput) (premiumBps sellable : Int) (sell : ComponentAccount)
    (buyIndex : Nat) (buy : ComponentAccount) : Except SdkError Sizing := do
  let buyBalance := input.snapshot.balances.getD buyIndex 0
  if buyBalance ≥ legCap input.snapshot buy then return .skip
  let buyable := legCap input.snapshot buy - buyBalance
  let sellAmount := (sellable * input.policy.maxLegShareBps).tdiv Sdk.bps
  if sellAmount = 0 then return .skip
  let quote ← quotePair sell buy premiumBps sellAmount
  let budget := budgetOf (input.inventory.getD buyIndex 0) buyable
  if budget = 0 then return .noInventory
  if quote.buyAmount > budget then trimPair sell buy premiumBps sellAmount budget quote
  else return .sized sellAmount quote

/-! ## The plan -/

/-- Hold a sized pair to the market and to the edge the policy asks for. -/
def judgePair (input : PlanInput) (premiumBps : Int) (sellIndex : Nat) (sell : ComponentAccount)
    (buyIndex : Nat) (buy : ComponentAccount) (sellAmount : Int) (quote : BidQuote) : Plan :=
  let sellMarket := input.marketPricesE9.getD sellIndex 0
  let buyMarket := input.marketPricesE9.getD buyIndex 0
  if sellMarket = 0 ∨ buyMarket = 0 then .note (.noMarketPrice sellIndex buyIndex)
  else
    let outValue := (sellAmount * sellMarket).tdiv (10 ^ sell.decimals)
    let inValue := (quote.buyAmount * buyMarket).tdiv (10 ^ buy.decimals)
    if inValue = 0 then .nothing
    else
      let edgeBps := Double.ofBigInt (((outValue - inValue) * Sdk.bps).tdiv inValue)
      if edgeBps.lt (.finite input.policy.minEdgeBps) then
        .note (.underFloor sellIndex buyIndex edgeBps premiumBps input.policy.minEdgeBps)
      else .act (.bid sellIndex buyIndex sellAmount quote.buyAmount premiumBps edgeBps)

/-- The body of the inner loop. -/
def planPair (input : PlanInput) (premiumBps : Int) (sellIndex : Nat) (sell : ComponentAccount)
    (sellable : Int) (buyIndex : Nat) (buy : ComponentAccount) : Except SdkError Plan :=
  if buyIndex = sellIndex then pure .nothing
  else do
    match ← sizePair input premiumBps sellable sell buyIndex buy with
    | .skip => pure .nothing
    | .noInventory => pure (.note (.noInventory buyIndex))
    | .sized sellAmount quote =>
      pure (judgePair input premiumBps sellIndex sell buyIndex buy sellAmount quote)

/-- The body of the outer loop. -/
def planLeg (input : PlanInput) (premiumBps : Int) (sellIndex : Nat) (sell : ComponentAccount) :
    Except SdkError Plan :=
  let sellBalance := input.snapshot.balances.getD sellIndex 0
  let sellTarget := legTarget input.snapshot sell
  if sellBalance ≤ sellTarget then pure .nothing
  else Plan.gather (input.snapshot.account.components.zipIdx.map fun (buy, buyIndex) =>
    planPair input premiumBps sellIndex sell (sellBalance - sellTarget) buyIndex buy)

/-- Both loops, at a premium. -/
def planBids (input : PlanInput) (premiumBps : Int) : Except SdkError Plan :=
  Plan.gather (input.snapshot.account.components.zipIdx.map fun (sell, sellIndex) =>
    planLeg input premiumBps sellIndex sell)

def planAccrual (input : PlanInput) : Plan :=
  if input.snapshot.pendingFee ≥ input.policy.minAccrualTokens then
    .act (.accrue input.snapshot.pendingFee)
  else if input.snapshot.pendingFee > 0 then
    .note (.feeBelowFloor input.snapshot.pendingFee input.policy.minAccrualTokens)
  else .nothing

/-- What the plan does about the auction. -/
def planAuction (input : PlanInput) : Except SdkError Plan :=
  let rebalance := input.snapshot.account.rebalance
  if rebalance.active = true ∧ input.now > rebalance.endTs then pure (.act .endExpired)
  else if rebalance.active = false then pure .nothing
  else if input.now < rebalance.startTs then
    pure (.note (.auctionOpensIn (rebalance.startTs - input.now)))
  else do
    let premiumBps ← Sdk.premiumAt rebalance.startPremiumBps rebalance.endPremiumBps
      rebalance.startTs rebalance.endTs input.now
    planBids input premiumBps

def plan (input : PlanInput) : Except SdkError Plan := do
  let auction ← planAuction input
  pure ((planAccrual input).append auction)

/-! ## Sending it -/

/-- The accounts an index lists its vaults by. -/
def vaultAccounts (ch : Chain) (snapshot : IndexSnapshot) : List AccountInfo :=
  snapshot.account.components.map fun c => ⟨ch.vaultKey snapshot.indexMint c.mint, false⟩

/-- The associated token account program, and the addresses it derives. -/
structure AssociatedTokens where
  /-- `getAssociatedTokenAddressSync` -/
  address : (mint owner : Pubkey) → Pubkey
  /-- `createAssociatedTokenAccountIdempotentInstruction`: opens the account, unless
  it is open. -/
  createIdempotent : World → (mint owner : Pubkey) → Except ProgramError World
  create_ok : ∀ {w mint owner w'}, createIdempotent w mint owner = .ok w' →
    ((∃ t, w.token? (address mint owner) = some t ∧ t.mint = mint ∧ t.owner = owner) ∧ w' = w) ∨
      (w.accounts (address mint owner) = .empty ∧ w' = w.set (address mint owner)
        (.token { mint, owner, amount := 0, delegate := none, frozen := false }))
  create_accepts : ∀ {w mint owner},
    ((∃ t, w.token? (address mint owner) = some t ∧ t.mint = mint ∧ t.owner = owner) ∨
      (w.accounts (address mint owner) = .empty ∧ ∃ mi, w.mint? mint = some mi)) →
    Outcome.Succeeds (createIdempotent w mint owner)

/-- `snapshot.account.components[i]!.mint` -/
def mintAt (snapshot : IndexSnapshot) (i : Nat) : Pubkey :=
  match snapshot.account.components[i]? with
  | some c => c.mint
  | none => snapshot.indexMint

/-- The instruction an action becomes, and its accounts. -/
def submit (ch : Chain) (ata : AssociatedTokens) (signer : Pubkey) (snapshot : IndexSnapshot) :
    Action → List AccountInfo × FlockInstruction
  | .accrue _ =>
    (⟨ch.indexKey snapshot.indexMint, false⟩ :: ⟨snapshot.indexMint, false⟩ ::
      ⟨ata.address snapshot.indexMint snapshot.account.feeRecipient, false⟩ ::
      ⟨ch.token.id, false⟩ :: vaultAccounts ch snapshot, .accrueFees)
  | .endExpired =>
    (⟨signer, true⟩ :: ⟨ch.indexKey snapshot.indexMint, false⟩ :: ⟨snapshot.indexMint, false⟩ ::
      vaultAccounts ch snapshot, .endRebalance)
  | .bid sellComponent buyComponent sellAmount maxBuyAmount _ _ =>
    (⟨signer, true⟩ :: ⟨ch.indexKey snapshot.indexMint, false⟩ :: ⟨snapshot.indexMint, false⟩ ::
      ⟨ata.address (mintAt snapshot sellComponent) signer, false⟩ ::
      ⟨ata.address (mintAt snapshot buyComponent) signer, false⟩ :: ⟨ch.token.id, false⟩ ::
      vaultAccounts ch snapshot,
      .bid (UInt8.ofNat sellComponent) (UInt8.ofNat buyComponent) (UInt64.ofNat sellAmount.toNat)
        (UInt64.ofNat maxBuyAmount.toNat))

/-- The transaction: a bid first opens the account its tokens arrive in. -/
def send (ch : Chain) (ata : AssociatedTokens) (signer : Pubkey) (snapshot : IndexSnapshot)
    (w : World) (action : Action) : Except ProgramError World := do
  let (accounts, ix) := submit ch ata signer snapshot action
  match action with
  | .bid sellComponent _ _ _ _ _ =>
    let w ← ata.createIdempotent w (mintAt snapshot sellComponent) signer
    process ch w accounts ix
  | _ => process ch w accounts ix

end Flock.Keeper
