import Flock.Guards
import Flock.Instruction
import Flock.Math

/-!
# `processor.rs`: the handlers

Each handler takes the world before the instruction and returns the world
after it, or the error the instruction fails with; a failed instruction leaves
nothing behind. The checks stand in the order of the source, and a handler
that reads the record or a balance a second time after a step reads it from
the world that step left, as the source does.

`rest` is the tail of an account list that holds one pair of accounts per
component; `pairs` reads it as the source does with `rest[i * 2]` and
`rest[i * 2 + 1]`.
-/

namespace Flock

open Outcome MachineInt

/-! ## Shared helpers -/

def checkIndexPda (ch : Chain) (indexInfo : AccountInfo) (indexMint : Pubkey) :
    Except ProgramError UInt8 := do
  let (expected, bump) := ch.indexPda indexMint
  requireKey indexInfo expected
  pure bump

def checkFees (streaming issue redeem premium : UInt16) (delay : UInt32) :
    Except ProgramError Unit := do
  failIf (streaming > maxStreamingFeeBps ∨ issue > maxMintRedeemFeeBps ∨
    redeem > maxMintRedeemFeeBps ∨ premium > maxPremiumCeilingBps) FlockError.feeTooHigh
  failIf (delay < minRebalanceDelay) FlockError.timelockNotMet

/-- The walk of `verify_vaults` over the component table. -/
def verifyEach (ch : Chain) (w : World) (indexKey indexMint : Pubkey) :
    List Component → List AccountInfo → Except ProgramError (List UInt64)
  | c :: components, vault :: vaults => do
    requireKey vault (ch.vaultPda indexMint c.mint).1
    let acct ← requireTokenAccount w vault c.mint indexKey
    let balances ← verifyEach ch w indexKey indexMint components vaults
    pure (acct.amount :: balances)
  | _, _ => pure []

/-- Check every vault account against its address, its mint and its owner, and
return the balances in table order. -/
def verifyVaults (ch : Chain) (w : World) (indexInfo : AccountInfo) (indexMint : Pubkey)
    (vaults : List AccountInfo) : Except ProgramError (List UInt64) := do
  let idx ← indexRef w indexInfo
  failIf (vaults.length ≠ idx.components.length) FlockError.arityMismatch
  verifyEach ch w indexInfo.key indexMint idx.components vaults

/-- The loop of `sync_units`. -/
def syncEach (supply : UInt64) : List Component → List UInt64 → Except FlockError (List Component)
  | c :: components, balance :: balances => do
    let units ← unitsFromBalance balance supply
    let rest ← syncEach supply components balances
    pure ({ c with units := units } :: rest)
  | components, _ => pure components

/-- Refresh the cached units from what the vaults actually hold. -/
def syncUnits (w : World) (indexInfo : AccountInfo) (balances : List UInt64) (supply : UInt64) :
    Except ProgramError World :=
  if supply = 0 then pure w
  else do
    let idx ← indexRef w indexInfo
    let components ← syncEach supply idx.components balances
    pure (w.setIndex indexInfo.key { idx with components := components })

/-- The sum of `nav_e6`, in USD-e9. -/
def navSum : List Component → List UInt64 → Nat → Except FlockError Nat
  | c :: components, balance :: balances, total => do
    let value ← valueE9 balance c.decimals c.refPriceE9
    failIf (¬ total + value < 2 ^ 128) .mathOverflow
    navSum components balances (total + value)
  | _, _, total => pure total

def navE6 (w : World) (indexInfo : AccountInfo) (balances : List UInt64) :
    Except ProgramError UInt64 := do
  let idx ← indexRef w indexInfo
  let total ← navSum idx.components balances 0
  toU64 (total / 1000)

def componentAt (w : World) (indexInfo : AccountInfo) (i : Nat) :
    Except ProgramError Component := do
  (← indexRef w indexInfo).component i

def transferFromVault (ch : Chain) (w : World) (vault recipient indexAuthority : AccountInfo)
    (amount : UInt64) : Except ProgramError World :=
  if amount = 0 then pure w
  else ch.token.transfer w vault.key recipient.key indexAuthority.key amount

def transferFromUser (ch : Chain) (w : World) (source vault user : AccountInfo)
    (amount : UInt64) : Except ProgramError World :=
  if amount = 0 then pure w
  else ch.token.transfer w source.key vault.key user.key amount

def mintIndexTokens (ch : Chain) (w : World) (mint recipient indexAuthority : AccountInfo)
    (amount : UInt64) : Except ProgramError World :=
  if amount = 0 then pure w
  else ch.token.mintTo w mint.key recipient.key indexAuthority.key amount

def burnIndexTokens (ch : Chain) (w : World) (mint source user : AccountInfo)
    (amount : UInt64) : Except ProgramError World :=
  ch.token.burn w source.key mint.key user.key amount

/-- Mint the streaming fee owed since the last accrual, and return what was minted. -/
def accrue (ch : Chain) (w : World) (indexInfo indexMintInfo feeAta : AccountInfo)
    (now : Int64) : Except ProgramError (UInt64 × World) := do
  let idx ← indexRef w indexInfo
  let mint ← readMint w indexMintInfo
  let owed ← streamingFeeTokens mint.supply idx.streamingFeeBps
    (saturatingSub now idx.lastFeeAccrual)
  let w := w.setIndex indexInfo.key { idx with lastFeeAccrual := now }
  if owed = 0 then pure (0, w)
  else do
    let _ ← requireTokenAccount w feeAta indexMintInfo.key idx.feeRecipient
    let w ← mintIndexTokens ch w indexMintInfo feeAta indexInfo owed
    pure (owed, w)

def pairs : List AccountInfo → List (AccountInfo × AccountInfo)
  | a :: b :: rest => (a, b) :: pairs rest
  | _ => []

/-! ## Handlers -/

structure InitParams where
  name : Vector UInt8 32
  symbol : Vector UInt8 12
  streamingFeeBps : UInt16
  issueFeeBps : UInt16
  redeemFeeBps : UInt16
  maxPremiumBps : UInt16
  rebalanceDelay : UInt32

structure AuctionParams where
  duration : UInt32
  startPremiumBps : Int16
  endPremiumBps : Int16
  maxNavLossBps : UInt16

def initIndex (ch : Chain) (w : World) (accounts : List AccountInfo) (p : InitParams) :
    Except ProgramError World :=
  match accounts with
  | payer :: indexInfo :: indexMintInfo :: governor :: manager :: feeRecipient ::
      systemProgram :: _ => do
    requireSigner payer
    requireSystemProgram ch systemProgram
    checkFees p.streamingFeeBps p.issueFeeBps p.redeemFeeBps p.maxPremiumBps p.rebalanceDelay
    let (indexKey, bump) := ch.indexPda indexMintInfo.key
    requireKey indexInfo indexKey
    failIf (w.accounts indexInfo.key ≠ .empty) .accountAlreadyInitialized
    let mint ← readMint w indexMintInfo
    failIf (mint.decimals ≠ indexDecimals ∨ mint.supply ≠ 0 ∨ mint.freezeAuthority.isSome ∨
      mint.mintAuthority ≠ some indexKey) FlockError.invalidIndexMint
    let w ← ch.createAccount w payer.key indexKey ch.programId
    pure (w.setIndex indexInfo.key
      { indexMint := indexMintInfo.key
        governor := governor.key
        manager := manager.key
        feeRecipient := feeRecipient.key
        lastFeeAccrual := w.clock
        createdAt := w.clock
        rebalanceDelay := p.rebalanceDelay
        streamingFeeBps := p.streamingFeeBps
        issueFeeBps := p.issueFeeBps
        redeemFeeBps := p.redeemFeeBps
        maxPremiumBps := p.maxPremiumBps
        tag := accountTagIndex
        version := stateVersion
        bump := bump
        state := stateBootstrapping
        decimals := indexDecimals
        name := p.name
        symbol := p.symbol
        components := []
        rebalance := .default })
  | _ => .error .notEnoughAccountKeys

def addComponent (ch : Chain) (w : World) (accounts : List AccountInfo) (units : UInt64) :
    Except ProgramError World :=
  match accounts with
  | manager :: payer :: indexInfo :: indexMintInfo :: componentMintInfo :: vaultInfo ::
      systemProgram :: tokenProgram :: _ => do
    requireSigner manager
    requireSigner payer
    requireSystemProgram ch systemProgram
    requireTokenProgram ch tokenProgram
    let _ ← checkIndexPda ch indexInfo indexMintInfo.key
    failIf (units = 0) FlockError.zeroAmount
    let idx ← indexRef w indexInfo
    failIf (idx.manager ≠ manager.key) FlockError.notManager
    failIf (idx.state ≠ stateBootstrapping) FlockError.alreadySealed
    failIf (idx.components.length ≥ maxComponents) FlockError.tooManyComponents
    failIf (idx.findComponent componentMintInfo.key).isSome FlockError.duplicateComponent
    let componentDecimals := (← readMint w componentMintInfo).decimals
    let (vaultKey, vaultBump) := ch.vaultPda indexMintInfo.key componentMintInfo.key
    requireKey vaultInfo vaultKey
    let w ← ch.createAccount w payer.key vaultKey ch.token.id
    let w ← ch.token.initializeAccount3 w vaultKey componentMintInfo.key indexInfo.key
    let idx ← indexRef w indexInfo
    pure (w.setIndex indexInfo.key { idx with
      components := idx.components ++
        [{ mint := componentMintInfo.key
           units := units
           targetUnits := units
           refPriceE9 := 0
           decimals := componentDecimals
           vaultBump := vaultBump }] })
  | _ => .error .notEnoughAccountKeys

def sealIndex (ch : Chain) (w : World) (accounts : List AccountInfo) :
    Except ProgramError World :=
  match accounts with
  | manager :: indexInfo :: indexMintInfo :: _ => do
    requireSigner manager
    let _ ← checkIndexPda ch indexInfo indexMintInfo.key
    let idx ← indexRef w indexInfo
    failIf (idx.manager ≠ manager.key) FlockError.notManager
    failIf (idx.state ≠ stateBootstrapping) FlockError.alreadySealed
    failIf (idx.components.length = 0) FlockError.unknownComponent
    pure (w.setIndex indexInfo.key { idx with state := stateLive, lastFeeAccrual := w.clock })
  | _ => .error .notEnoughAccountKeys

/-- The delivery loop of `issue`, from component `i` on. -/
def issueLoop (ch : Chain) (user indexInfo : AccountInfo) (gross : UInt64) :
    World → Nat → List UInt64 → List (AccountInfo × AccountInfo) → Except ProgramError World
  | w, i, maxIn :: maxIns, (vault, source) :: rest => do
    let component ← componentAt w indexInfo i
    let required ← unitsIn component.units gross
    failIf (required > maxIn) FlockError.slippageExceeded
    let _ ← requireTokenAccountOfMint w source component.mint
    let w ← transferFromUser ch w source vault user required
    issueLoop ch user indexInfo gross w (i + 1) maxIns rest
  | w, _, _, _ => pure w

/-- The fee of `issue` and `redeem`, when there is one. -/
def mintFee (ch : Chain) (w : World) (indexInfo indexMintInfo feeAta : AccountInfo)
    (feeTokens : UInt64) : Except ProgramError World :=
  if feeTokens > 0 then do
    let feeRecipient := (← indexRef w indexInfo).feeRecipient
    let _ ← requireTokenAccount w feeAta indexMintInfo.key feeRecipient
    mintIndexTokens ch w indexMintInfo feeAta indexInfo feeTokens
  else pure w

/-- Read the vaults and the supply back and refresh the units: the last step of
every handler that moved tokens. -/
def resync (ch : Chain) (w : World) (indexInfo indexMintInfo : AccountInfo)
    (vaults : List AccountInfo) : Except ProgramError World := do
  let balances ← verifyVaults ch w indexInfo indexMintInfo.key vaults
  let supply := (← readMint w indexMintInfo).supply
  syncUnits w indexInfo balances supply

def issue (ch : Chain) (w : World) (accounts : List AccountInfo) (amount : UInt64)
    (maxIn : List UInt64) : Except ProgramError World :=
  match accounts with
  | user :: indexInfo :: indexMintInfo :: userIndexAta :: feeAta :: tokenProgram :: rest => do
    requireSigner user
    requireTokenProgram ch tokenProgram
    let _ ← checkIndexPda ch indexInfo indexMintInfo.key
    failIf (amount = 0) FlockError.zeroAmount
    let idx ← indexRef w indexInfo
    idx.isLive
    failIf (maxIn.length ≠ idx.components.length ∨ rest.length ≠ idx.components.length * 2)
      FlockError.arityMismatch
    let _ ← requireTokenAccountOfMint w userIndexAta indexMintInfo.key
    let (_, w) ← accrue ch w indexInfo indexMintInfo feeAta w.clock
    let vaults := (pairs rest).map Prod.fst
    let w ← resync ch w indexInfo indexMintInfo vaults
    let feeTokens ← toU64 (← mulDivCeil amount.toNat idx.issueFeeBps.toNat bps)
    let gross ← checkedAdd amount feeTokens
    let w ← issueLoop ch user indexInfo gross w 0 maxIn (pairs rest)
    let w ← mintIndexTokens ch w indexMintInfo userIndexAta indexInfo amount
    let w ← mintFee ch w indexInfo indexMintInfo feeAta feeTokens
    resync ch w indexInfo indexMintInfo vaults
  | _ => .error .notEnoughAccountKeys

/-- The payout loop of `redeem`, from component `i` on. -/
def redeemLoop (ch : Chain) (indexInfo : AccountInfo) (net : UInt64) :
    World → Nat → List UInt64 → List (AccountInfo × AccountInfo) → Except ProgramError World
  | w, i, minOut :: minOuts, (vault, recipient) :: rest => do
    let component ← componentAt w indexInfo i
    let payout ← unitsOut component.units net
    failIf (payout < minOut) FlockError.slippageExceeded
    let _ ← requireTokenAccountOfMint w recipient component.mint
    let w ← transferFromVault ch w vault recipient indexInfo payout
    redeemLoop ch indexInfo net w (i + 1) minOuts rest
  | w, _, _, _ => pure w

def redeem (ch : Chain) (w : World) (accounts : List AccountInfo) (amount : UInt64)
    (minOut : List UInt64) : Except ProgramError World :=
  match accounts with
  | user :: indexInfo :: indexMintInfo :: userIndexAta :: feeAta :: tokenProgram :: rest => do
    requireSigner user
    requireTokenProgram ch tokenProgram
    let _ ← checkIndexPda ch indexInfo indexMintInfo.key
    failIf (amount = 0) FlockError.zeroAmount
    let idx ← indexRef w indexInfo
    -- redemption is available while paused
    failIf (idx.state = stateBootstrapping) FlockError.notSealed
    failIf (minOut.length ≠ idx.components.length ∨ rest.length ≠ idx.components.length * 2)
      FlockError.arityMismatch
    let _ ← requireTokenAccountOfMint w userIndexAta indexMintInfo.key
    let (_, w) ← accrue ch w indexInfo indexMintInfo feeAta w.clock
    let vaults := (pairs rest).map Prod.fst
    let balances ← verifyVaults ch w indexInfo indexMintInfo.key vaults
    let supply := (← readMint w indexMintInfo).supply
    failIf (supply < amount) FlockError.supplyTooSmall
    let w ← syncUnits w indexInfo balances supply
    let feeTokens ← toU64 (← mulDivCeil amount.toNat idx.redeemFeeBps.toNat bps)
    let net ← checkedSub amount feeTokens
    let w ← burnIndexTokens ch w indexMintInfo userIndexAta user amount
    let w ← mintFee ch w indexInfo indexMintInfo feeAta feeTokens
    let w ← redeemLoop ch indexInfo net w 0 minOut (pairs rest)
    resync ch w indexInfo indexMintInfo vaults
  | _ => .error .notEnoughAccountKeys

def accrueFees (ch : Chain) (w : World) (accounts : List AccountInfo) :
    Except ProgramError World :=
  match accounts with
  | indexInfo :: indexMintInfo :: feeAta :: tokenProgram :: vaults => do
    requireTokenProgram ch tokenProgram
    let _ ← checkIndexPda ch indexInfo indexMintInfo.key
    let idx ← indexRef w indexInfo
    failIf (idx.state = stateBootstrapping) FlockError.notSealed
    let (_, w) ← accrue ch w indexInfo indexMintInfo feeAta w.clock
    resync ch w indexInfo indexMintInfo vaults
  | _ => .error .notEnoughAccountKeys

/-- The loop of `propose_rebalance` that writes targets and prices. -/
def writeTargets : List Component → List UInt64 → List UInt64 → List Component
  | c :: components, target :: targets, price :: prices =>
    { c with refPriceE9 := price, targetUnits := target } :: writeTargets components targets prices
  | components, _, _ => components

def proposeRebalance (ch : Chain) (w : World) (accounts : List AccountInfo)
    (targetUnits refPricesE9 : List UInt64) (p : AuctionParams) : Except ProgramError World :=
  match accounts with
  | manager :: indexInfo :: indexMintInfo :: vaults => do
    requireSigner manager
    let _ ← checkIndexPda ch indexInfo indexMintInfo.key
    let idx ← indexRef w indexInfo
    failIf (idx.manager ≠ manager.key) FlockError.notManager
    idx.isLive
    failIf (idx.rebalance.active ≠ 0) FlockError.rebalanceActive
    failIf (targetUnits.length ≠ idx.components.length ∨
      refPricesE9.length ≠ idx.components.length) FlockError.arityMismatch
    failIf (p.duration = 0 ∨ p.duration > maxAuctionDuration) FlockError.invalidPremium
    -- `max_premium_bps as i16` reinterprets the sixteen bits
    failIf (p.startPremiumBps > p.endPremiumBps ∨
      p.endPremiumBps > idx.maxPremiumBps.toInt16 ∨
      p.startPremiumBps < -idx.maxPremiumBps.toInt16 ∨
      p.maxNavLossBps > idx.maxPremiumBps) FlockError.invalidPremium
    failIf (refPricesE9.any (· = 0) = true) FlockError.invalidPrice
    let balances ← verifyVaults ch w indexInfo indexMintInfo.key vaults
    let w := w.setIndex indexInfo.key
      { idx with components := writeTargets idx.components targetUnits refPricesE9 }
    let nav ← navE6 w indexInfo balances
    let startTs ← checkedAddI64 w.clock (Int64.ofNat idx.rebalanceDelay.toNat)
    let endTs ← checkedAddI64 startTs (Int64.ofNat p.duration.toNat)
    let idx ← indexRef w indexInfo
    let navFloor ← toU64 (← mulDivFloor nav.toNat (wrappingSub bps p.maxNavLossBps.toNat) bps)
    pure (w.setIndex indexInfo.key { idx with
      rebalance :=
        { active := 1
          proposedAt := w.clock
          startTs := startTs
          endTs := endTs
          startPremiumBps := p.startPremiumBps
          endPremiumBps := p.endPremiumBps
          maxNavLossBps := p.maxNavLossBps
          navFloorE6 := navFloor
          proposer := manager.key } })
  | _ => .error .notEnoughAccountKeys

/-- `floor(target_units * supply / 1e9)`: where a leg should stand. -/
def legTarget (c : Component) (supply : UInt64) : Except FlockError UInt64 := do
  toU64 (← mulDivFloor c.targetUnits.toNat supply.toNat unitScale)

/-- Where the bought leg must stop: its target plus the premium ceiling. -/
def legCap (target : UInt64) (maxPremiumBps : UInt16) : Except FlockError UInt64 := do
  checkedAdd target (← toU64 (← mulDivFloor target.toNat maxPremiumBps.toNat bps))

/-- What a bidder pays for `sellAmount`: its value at the reference prices,
marked by the premium, in base units of the bought component. -/
def bidPrice (sell buy : Component) (premium : Int32) (sellAmount : UInt64) :
    Except FlockError UInt64 := do
  let valueOut ← valueE9 sellAmount sell.decimals sell.refPriceE9
  let marked ← toU128 ((bps : Int) - premium.toInt)
  let valueIn ← mulDivCeil valueOut marked bps
  amountFromValueCeil valueIn buy.decimals buy.refPriceE9

/-- The caps and the sizing of `bid`: what the bidder pays, if the fill is one
the fund takes. -/
def bidSizing (sell buy : Component) (maxPremiumBps : UInt16) (premium : Int32)
    (supply sellBalance buyBalance sellAmount maxBuyAmount : UInt64) :
    Except FlockError UInt64 := do
  let sellTarget ← legTarget sell supply
  let buyTarget ← legTarget buy supply
  let buyCap ← legCap buyTarget maxPremiumBps
  failIf (sellBalance ≤ sellTarget) .sellLegAtTarget
  failIf (sellAmount > sellBalance - sellTarget) .sellAmountExceedsExcess
  failIf (buyBalance ≥ buyCap) .buyLegAtCap
  let buyAmount ← bidPrice sell buy premium sellAmount
  failIf (buyAmount > maxBuyAmount) .slippageExceeded
  failIf (buyAmount > buyCap - buyBalance) .buyAmountExceedsCap
  pure buyAmount

/-- `xs[i]`. -/
def nth {α : Type} (xs : List α) (i : Nat) : Except ProgramError α :=
  match xs[i]? with
  | some x => .ok x
  | none => .error .panicked

theorem nth_ok_iff {α : Type} {xs : List α} {i : Nat} {x : α} :
    nth xs i = .ok x ↔ xs[i]? = some x := by
  unfold nth
  split <;> simp_all

def bid (ch : Chain) (w : World) (accounts : List AccountInfo)
    (sellComponent buyComponent : UInt8) (sellAmount maxBuyAmount : UInt64) :
    Except ProgramError World :=
  match accounts with
  | bidder :: indexInfo :: indexMintInfo :: bidderReceive :: bidderPay :: tokenProgram ::
      vaults => do
    requireSigner bidder
    requireTokenProgram ch tokenProgram
    let _ ← checkIndexPda ch indexInfo indexMintInfo.key
    failIf (sellComponent = buyComponent) FlockError.sameComponent
    failIf (sellAmount = 0) FlockError.zeroAmount
    let idx ← indexRef w indexInfo
    idx.isLive
    failIf (idx.rebalance.active = 0) FlockError.noRebalance
    let premium ← premiumAt idx.rebalance.startPremiumBps idx.rebalance.endPremiumBps
      idx.rebalance.startTs idx.rebalance.endTs w.clock
    failIf (premium.toInt > idx.maxPremiumBps.toNat) FlockError.invalidPremium
    let sell ← idx.component sellComponent.toNat
    let buy ← idx.component buyComponent.toNat
    let balances ← verifyVaults ch w indexInfo indexMintInfo.key vaults
    let supply := (← readMint w indexMintInfo).supply
    failIf (supply = 0) FlockError.supplyTooSmall
    let _ ← requireTokenAccountOfMint w bidderReceive sell.mint
    let _ ← requireTokenAccountOfMint w bidderPay buy.mint
    let sellBalance ← nth balances sellComponent.toNat
    let buyBalance ← nth balances buyComponent.toNat
    let buyAmount ← bidSizing sell buy idx.maxPremiumBps premium supply sellBalance buyBalance
      sellAmount maxBuyAmount
    let buyVault ← nth vaults buyComponent.toNat
    let sellVault ← nth vaults sellComponent.toNat
    let w ← transferFromUser ch w bidderPay buyVault bidder buyAmount
    let w ← transferFromVault ch w sellVault bidderReceive indexInfo sellAmount
    let balances ← verifyVaults ch w indexInfo indexMintInfo.key vaults
    let nav ← navE6 w indexInfo balances
    let idx ← indexRef w indexInfo
    failIf (nav < idx.rebalance.navFloorE6) FlockError.navFloorBreached
    syncUnits w indexInfo balances supply
  | _ => .error .notEnoughAccountKeys

def endRebalance (ch : Chain) (w : World) (accounts : List AccountInfo) :
    Except ProgramError World :=
  match accounts with
  | caller :: indexInfo :: indexMintInfo :: vaults => do
    requireSigner caller
    let _ ← checkIndexPda ch indexInfo indexMintInfo.key
    let idx ← indexRef w indexInfo
    failIf (idx.rebalance.active = 0) FlockError.noRebalance
    -- anyone may close an expired auction; only the manager may close a running one
    failIf (w.clock ≤ idx.rebalance.endTs ∧ idx.manager ≠ caller.key) FlockError.notManager
    let w ← resync ch w indexInfo indexMintInfo vaults
    let idx ← indexRef w indexInfo
    pure (w.setIndex indexInfo.key { idx with
      components := idx.components.map fun c => { c with targetUnits := c.units }
      rebalance := { Rebalance.default with
        proposer := idx.rebalance.proposer
        proposedAt := idx.rebalance.proposedAt } })
  | _ => .error .notEnoughAccountKeys

def setParams (ch : Chain) (w : World) (accounts : List AccountInfo)
    (streamingFeeBps issueFeeBps redeemFeeBps maxPremiumBps : UInt16) (rebalanceDelay : UInt32) :
    Except ProgramError World :=
  match accounts with
  | governor :: indexInfo :: indexMintInfo :: _ => do
    requireSigner governor
    let _ ← checkIndexPda ch indexInfo indexMintInfo.key
    checkFees streamingFeeBps issueFeeBps redeemFeeBps maxPremiumBps rebalanceDelay
    let idx ← indexRef w indexInfo
    failIf (idx.governor ≠ governor.key) FlockError.notGovernor
    pure (w.setIndex indexInfo.key { idx with
      lastFeeAccrual := if idx.state ≠ stateBootstrapping then w.clock else idx.lastFeeAccrual
      streamingFeeBps := streamingFeeBps
      issueFeeBps := issueFeeBps
      redeemFeeBps := redeemFeeBps
      maxPremiumBps := maxPremiumBps
      rebalanceDelay := rebalanceDelay })
  | _ => .error .notEnoughAccountKeys

def setAuthority (ch : Chain) (w : World) (accounts : List AccountInfo) (role : UInt8)
    (newAuthority : Pubkey) : Except ProgramError World :=
  match accounts with
  | governor :: indexInfo :: indexMintInfo :: _ => do
    requireSigner governor
    let _ ← checkIndexPda ch indexInfo indexMintInfo.key
    let idx ← indexRef w indexInfo
    failIf (idx.governor ≠ governor.key) FlockError.notGovernor
    if role = roleGovernor then
      pure (w.setIndex indexInfo.key { idx with governor := newAuthority })
    else if role = roleManager then
      pure (w.setIndex indexInfo.key { idx with manager := newAuthority })
    else if role = roleFeeRecipient then
      pure (w.setIndex indexInfo.key { idx with feeRecipient := newAuthority })
    else .error .invalidInstructionData
  | _ => .error .notEnoughAccountKeys

def setPaused (ch : Chain) (w : World) (accounts : List AccountInfo) (paused : Bool) :
    Except ProgramError World :=
  match accounts with
  | caller :: indexInfo :: indexMintInfo :: _ => do
    requireSigner caller
    let _ ← checkIndexPda ch indexInfo indexMintInfo.key
    let idx ← indexRef w indexInfo
    -- either authority can hit the brake; only the governor can release it
    failIf (paused = true ∧ idx.governor ≠ caller.key ∧ idx.manager ≠ caller.key)
      FlockError.notManager
    failIf (paused = false ∧ idx.governor ≠ caller.key) FlockError.notGovernor
    failIf (idx.state = stateBootstrapping) FlockError.notSealed
    pure (w.setIndex indexInfo.key { idx with state := if paused then statePaused else stateLive })
  | _ => .error .notEnoughAccountKeys

/-- `process`, after `try_from_slice`. -/
def process (ch : Chain) (w : World) (accounts : List AccountInfo) :
    FlockInstruction → Except ProgramError World
  | .initIndex name symbol streamingFeeBps issueFeeBps redeemFeeBps maxPremiumBps rebalanceDelay =>
    initIndex ch w accounts
      { name, symbol, streamingFeeBps, issueFeeBps, redeemFeeBps, maxPremiumBps, rebalanceDelay }
  | .addComponent units => addComponent ch w accounts units
  | .sealIndex => sealIndex ch w accounts
  | .issue amount maxIn => issue ch w accounts amount maxIn
  | .redeem amount minOut => redeem ch w accounts amount minOut
  | .accrueFees => accrueFees ch w accounts
  | .proposeRebalance targetUnits refPricesE9 duration startPremiumBps endPremiumBps
      maxNavLossBps =>
    proposeRebalance ch w accounts targetUnits refPricesE9
      { duration, startPremiumBps, endPremiumBps, maxNavLossBps }
  | .bid sellComponent buyComponent sellAmount maxBuyAmount =>
    bid ch w accounts sellComponent buyComponent sellAmount maxBuyAmount
  | .endRebalance => endRebalance ch w accounts
  | .setParams streamingFeeBps issueFeeBps redeemFeeBps maxPremiumBps rebalanceDelay =>
    setParams ch w accounts streamingFeeBps issueFeeBps redeemFeeBps maxPremiumBps rebalanceDelay
  | .setAuthority role newAuthority => setAuthority ch w accounts role newAuthority
  | .setPaused paused => setPaused ch w accounts paused

end Flock
