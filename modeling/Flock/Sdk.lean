import Flock.Chain

/-!
# The TypeScript SDK: `math.ts`, and the read side of `client.ts`

What a client computes before it sends anything. A `bigint` is an `Int`, and its
`/` truncates, hence `Int.tdiv`. A `number` that holds seconds, basis points or
decimals is an exact integer too: all of them stay far below `2 ^ 53`. A `throw`
is an `Except`, with the message as a constructor.

`decodeIndex` is the decoder of the record with the fields the quotes and the
keeper read, `snapshot` the one picture of the chain both start from.
-/

namespace Flock.Sdk

inductive SdkError where
  /-- `No index at ${address}` -/
  | noIndex (address : Pubkey)
  /-- `Account is not a Flock index (wrong tag)` -/
  | wrongTag
  /-- `Unknown index state ${value}` -/
  | unknownState (value : UInt8)
  /-- `index mint is missing` -/
  | indexMintMissing
  /-- `vault ${key} is missing` -/
  | vaultMissing (key : Pubkey)
  /-- `division by zero` -/
  | divisionByZero
  /-- `a price of zero cannot value anything` -/
  | zeroPrice
  /-- `fee period overflows` -/
  | feePeriodOverflows
  /-- `the auction is not open` -/
  | auctionNotOpen
  /-- `the auction window is inverted` -/
  | windowInverted
  /-- `cannot size units against an empty fund` -/
  | emptyFund
  /-- `component ${i} has no price` -/
  | noPrice (i : Nat)
  deriving DecidableEq, Repr

/-! ## `math.ts` -/

/-- `UNIT_SCALE`. -/
def unitScale : Int := 1000000000

/-- `BPS`. -/
def bps : Int := 10000

/-- `SECONDS_PER_YEAR`. -/
def secondsPerYear : Int := 31536000

def mulDivFloor (a b d : Int) : Except SdkError Int :=
  if d = 0 then .error .divisionByZero else .ok ((a * b).tdiv d)

def mulDivCeil (a b d : Int) : Except SdkError Int :=
  if d = 0 then .error .divisionByZero
  else
    let n := a * b
    .ok (if n = 0 then 0 else (n - 1).tdiv d + 1)

def unitsIn (units amount : Int) : Except SdkError Int := mulDivCeil units amount unitScale

def unitsOut (units amount : Int) : Except SdkError Int := mulDivFloor units amount unitScale

/-- What a component's units are, given what its vault holds right now. -/
def unitsFromBalance (balance supply : Int) : Except SdkError Int :=
  if supply = 0 then .ok 0 else mulDivFloor balance unitScale supply

def valueE9 (balance : Int) (decimals : Nat) (priceE9 : Int) : Except SdkError Int :=
  mulDivFloor balance priceE9 (10 ^ decimals)

def amountFromValueCeil (value : Int) (decimals : Nat) (priceE9 : Int) : Except SdkError Int :=
  if priceE9 = 0 then .error .zeroPrice else mulDivCeil value (10 ^ decimals) priceE9

def streamingFeeTokens (supply feeBps dtSeconds : Int) : Except SdkError Int :=
  if supply = 0 ∨ feeBps = 0 ∨ dtSeconds ≤ 0 then .ok 0
  else
    let num := feeBps * dtSeconds
    let den := bps * secondsPerYear
    if num ≥ den then .error .feePeriodOverflows else mulDivFloor supply num (den - num)

/-- The premium at `now`. The quotient is one of doubles in the source and one of integers
here: they are the same in any auction that is in order (`premiumAt_doubles`), and may not be
where the product passes 2 ^ 53. -/
def premiumAt (startBps endBps startTs endTs now : Int) : Except SdkError Int :=
  if now < startTs ∨ now > endTs then .error .auctionNotOpen
  else if endTs ≤ startTs then .error .windowInverted
  else
    let span := endTs - startTs
    let elapsed := now - startTs
    .ok (startBps + ((endBps - startBps) * elapsed).tdiv span)

structure BidQuote where
  valueOutE9 : Int
  valueInE9 : Int
  buyAmount : Int
  deriving DecidableEq, Repr

/-- What a bidder must pay to take `sellAmount` of one component out of the fund. -/
def bidCost (sellAmount : Int) (sellDecimals : Nat) (sellPriceE9 : Int) (buyDecimals : Nat)
    (buyPriceE9 premiumBps : Int) : Except SdkError BidQuote := do
  let valueOutE9 ← valueE9 sellAmount sellDecimals sellPriceE9
  let valueInE9 ← mulDivCeil valueOutE9 (bps - premiumBps) bps
  let buyAmount ← amountFromValueCeil valueInE9 buyDecimals buyPriceE9
  pure { valueOutE9, valueInE9, buyAmount }

structure FundWeights where
  navE9 : Int
  weights : List Int
  deriving DecidableEq, Repr

/-- Portfolio weights in bps, given balances and prices. -/
def weightsBps (balances : List Int) (decimals : List Nat) (pricesE9 : List Int) :
    Except SdkError FundWeights := do
  let values ← balances.zipIdx.mapM fun (balance, i) =>
    valueE9 balance (decimals.getD i 0) (pricesE9.getD i 0)
  let navE9 := values.foldl (· + ·) 0
  if navE9 = 0 then pure { navE9, weights := values.map fun _ => 0 }
  else pure { navE9, weights := values.map fun v => (v * bps).tdiv navE9 }

/-- Target units that put `weightsBps` on a fund of `navE9` with `supply`
outstanding. A weight is a `number` that `BigInt` takes, so an integer. -/
def unitsForWeights (weightsBps pricesE9 : List Int) (decimals : List Nat) (navE9 supply : Int) :
    Except SdkError (List Int) :=
  if supply = 0 then .error .emptyFund
  else weightsBps.zipIdx.mapM fun (weight, i) => do
    let price := pricesE9.getD i 0
    if price = 0 then throw (.noPrice i)
    let targetValueE9 ← mulDivFloor navE9 weight bps
    let targetAmount ← mulDivFloor targetValueE9 (10 ^ decimals.getD i 0) price
    mulDivFloor targetAmount unitScale supply

/-! ## `state.ts` -/

inductive IndexStateName where
  | bootstrapping
  | live
  | paused
  deriving DecidableEq, Repr

structure ComponentAccount where
  mint : Pubkey
  units : Int
  targetUnits : Int
  refPriceE9 : Int
  decimals : Nat
  deriving DecidableEq, Repr

structure RebalanceAccount where
  active : Bool
  startTs : Int
  endTs : Int
  startPremiumBps : Int
  endPremiumBps : Int
  deriving DecidableEq, Repr

structure IndexAccount where
  feeRecipient : Pubkey
  lastFeeAccrual : Int
  streamingFeeBps : Int
  issueFeeBps : Int
  redeemFeeBps : Int
  maxPremiumBps : Int
  state : IndexStateName
  components : List ComponentAccount
  rebalance : RebalanceAccount
  deriving DecidableEq, Repr

def stateName (value : UInt8) : Except SdkError IndexStateName :=
  if value = 0 then .ok .bootstrapping
  else if value = 1 then .ok .live
  else if value = 2 then .ok .paused
  else .error (.unknownState value)

def decodeComponent (c : Component) : ComponentAccount where
  mint := c.mint
  units := c.units.toNat
  targetUnits := c.targetUnits.toNat
  refPriceE9 := c.refPriceE9.toNat
  decimals := c.decimals.toNat

def decodeRebalance (r : Rebalance) : RebalanceAccount where
  active := r.active = 1
  startTs := r.startTs.toInt
  endTs := r.endTs.toInt
  startPremiumBps := r.startPremiumBps.toInt
  endPremiumBps := r.endPremiumBps.toInt

def decodeIndex (idx : Index) : Except SdkError IndexAccount := do
  if idx.tag ≠ 0xf1 then throw .wrongTag
  let state ← stateName idx.state
  pure
    { feeRecipient := idx.feeRecipient
      lastFeeAccrual := idx.lastFeeAccrual.toInt
      streamingFeeBps := idx.streamingFeeBps.toNat
      issueFeeBps := idx.issueFeeBps.toNat
      redeemFeeBps := idx.redeemFeeBps.toNat
      maxPremiumBps := idx.maxPremiumBps.toNat
      state := state
      components := idx.components.map decodeComponent
      rebalance := decodeRebalance idx.rebalance }

/-! ## `client.ts` -/

structure IndexSnapshot where
  indexMint : Pubkey
  account : IndexAccount
  supply : Int
  /-- Vault balances in table order. -/
  balances : List Int
  /-- Units as they stand right now, derived from the vaults. -/
  units : List Int
  /-- Fee owed but not yet minted, at `asOf`. -/
  pendingFee : Int
  asOf : Int
  deriving DecidableEq, Repr

/-- `unpackAccount(key, info).amount` of a vault. -/
def vaultAmount (w : World) (key : Pubkey) : Except SdkError Int :=
  match w.token? key with
  | some vault => .ok vault.amount.toNat
  | none => .error (.vaultMissing key)

/-- The index, its mint and every vault, as one world has them. -/
def snapshot (ch : Chain) (w : World) (indexMint : Pubkey) (asOf : Int) :
    Except SdkError IndexSnapshot := do
  let account ← match w.index? (ch.indexKey indexMint) with
    | some idx => decodeIndex idx
    | none => .error (.noIndex (ch.indexKey indexMint))
  let supply ← match w.mint? indexMint with
    | some mint => .ok (mint.supply.toNat : Int)
    | none => .error .indexMintMissing
  let balances ← account.components.mapM fun c => vaultAmount w (ch.vaultKey indexMint c.mint)
  -- before the first issuance the stored units are the seed recipe
  let units ← (if supply = 0 then .ok (account.components.map ComponentAccount.units)
    else balances.mapM fun balance => unitsFromBalance balance supply : Except SdkError (List Int))
  let pendingFee ← streamingFeeTokens supply account.streamingFeeBps (asOf - account.lastFeeAccrual)
  pure { indexMint, account, supply, balances, units, pendingFee, asOf }

/-- Units per index token at a given supply: derived from the vaults once there is
a supply to divide by, and the stored seed recipe before that. -/
def unitsAt (snapshot : IndexSnapshot) (supply : Int) : Except SdkError (List Int) :=
  if supply = 0 then .ok (snapshot.account.components.map ComponentAccount.units)
  else snapshot.balances.mapM fun balance => unitsFromBalance balance supply

structure IssueQuote where
  required : List Int
  feeTokens : Int
  deriving DecidableEq, Repr

structure RedeemQuote where
  payout : List Int
  feeTokens : Int
  deriving DecidableEq, Repr

/-- What issuing `amount` index base units costs, per component. -/
def quoteIssue (snapshot : IndexSnapshot) (amount : Int) : Except SdkError IssueQuote := do
  let supplyAfterFee := snapshot.supply + snapshot.pendingFee
  let units ← unitsAt snapshot supplyAfterFee
  let feeTokens ← mulDivCeil amount snapshot.account.issueFeeBps bps
  let gross := amount + feeTokens
  let required ← units.mapM fun u => unitsIn u gross
  pure { required, feeTokens }

def quoteRedeem (snapshot : IndexSnapshot) (amount : Int) : Except SdkError RedeemQuote := do
  let supplyAfterFee := snapshot.supply + snapshot.pendingFee
  let units ← unitsAt snapshot supplyAfterFee
  let feeTokens ← mulDivCeil amount snapshot.account.redeemFeeBps bps
  let net := amount - feeTokens
  let payout ← units.mapM fun u => unitsOut u net
  pure { payout, feeTokens }

/-- `FlockClient.weights`. -/
def weights (snapshot : IndexSnapshot) (pricesE9 : List Int) : Except SdkError FundWeights :=
  weightsBps snapshot.balances (snapshot.account.components.map ComponentAccount.decimals) pricesE9

end Flock.Sdk
