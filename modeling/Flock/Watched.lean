import Flock.Lib.Trap
import Flock.Processor

/-!
# The handlers, watched

`math.rs` and `processor.rs` once more, with every step that is not a `checked_` one
carried out by an operation that knows its range: subtractions, products and divisions,
the casts to `i16`, the indices into the table and into the account list, the count.
Where a step would leave its type or its array, the handler traps instead of going on.

The loops are those of the source, by index. A table has room for `MAX_COMPONENTS`
entries; reading past the ones in use traps here too. What neither computes nor indexes
is lifted as it stands.
-/

namespace Flock

open Outcome MachineInt Trap

/-- The answer of a watched handler. -/
abbrev Watched (α : Type) := Except (Trap ProgramError) α

namespace Watched

/-! ## `math.rs` -/

def mulDivFloor (a b d : Nat) : Watched Nat := do
  failIf (d = 0) FlockError.mathOverflow
  let x ← checkedMul a b
  divU128 x d

def mulDivCeil (a b d : Nat) : Watched Nat := do
  failIf (d = 0) FlockError.mathOverflow
  let n ← checkedMul a b
  -- `n.div_ceil(d)`
  let _ ← divU128 n d
  pure (n ⌈/⌉ d)

def unitsIn (units amount : UInt64) : Watched UInt64 := do
  toU64 (← mulDivCeil units.toNat amount.toNat unitScale)

def unitsOut (units amount : UInt64) : Watched UInt64 := do
  toU64 (← mulDivFloor units.toNat amount.toNat unitScale)

def unitsFromBalance (balance supply : UInt64) : Watched UInt64 := do
  failIf (supply = 0) FlockError.supplyTooSmall
  toU64 (← mulDivFloor balance.toNat unitScale supply.toNat)

def valueE9 (balance : UInt64) (decimals : UInt8) (priceE9 : UInt64) : Watched Nat := do
  failIf (¬ 10 ^ decimals.toNat < 2 ^ 128) FlockError.mathOverflow
  mulDivFloor balance.toNat priceE9.toNat (10 ^ decimals.toNat)

def amountFromValueCeil (value : Nat) (decimals : UInt8) (priceE9 : UInt64) :
    Watched UInt64 := do
  failIf (priceE9 = 0) FlockError.invalidPrice
  failIf (¬ 10 ^ decimals.toNat < 2 ^ 128) FlockError.mathOverflow
  toU64 (← mulDivCeil value (10 ^ decimals.toNat) priceE9.toNat)

def streamingFeeTokens (supply : UInt64) (feeBps : UInt16) (dt : Int64) : Watched UInt64 :=
  if supply = 0 ∨ feeBps = 0 ∨ dt ≤ 0 then pure 0
  else do
    -- `dt as u128`
    let num ← checkedMul feeBps.toNat (← given (0 ≤ dt.toInt) dt.toInt.toNat)
    let den ← checkedMul bps secondsPerYear
    failIf (num ≥ den) FlockError.mathOverflow
    toU64 (← mulDivFloor supply.toNat num (← subU128 den num))

def premiumAt (startBps endBps : Int16) (startTs endTs now : Int64) : Watched Int32 := do
  failIf (now < startTs ∨ now > endTs) FlockError.auctionClosed
  failIf (endTs ≤ startTs) FlockError.invalidPremium
  let span ← subI64 endTs startTs
  let elapsed ← subI64 now startTs
  let rise ← i128 (endBps.toInt - startBps.toInt)
  let delta ← divI128 (← i128 (rise * elapsed.toInt)) span.toInt
  toI32 (← i128 (startBps.toInt + delta))

/-! ## The table -/

/-- `table[i]`, where the first entries of `table` are in use. -/
def tableAt {α : Type} (table : List α) (i : Nat) : Watched α := do
  index table (← given (i < maxComponents) i)

/-- `for i in 0..n { idx.components[i] = f(i, idx.components[i]) }`, from `i` on. -/
def eachComponent (components : List Component) (f : Nat → Component → Watched Component) :
    (remaining i : Nat) → Watched (List Component)
  | 0, _ => pure []
  | remaining + 1, i => do
    let c ← f i (← tableAt components i)
    let rest ← eachComponent components f remaining (i + 1)
    pure (c :: rest)

/-- `idx.component(i)` -/
def component (idx : Index) (i : Nat) : Watched Component := do
  failIf (i ≥ idx.components.length) FlockError.unknownComponent
  tableAt idx.components i

/-- `idx.find_component(mint)`, over the slice `components[..component_count]`. -/
def findComponent (idx : Index) (mint : Pubkey) : Watched (Option Nat) := do
  let _ ← given (idx.components.length ≤ maxComponents) ()
  pure (idx.findComponent mint)

def verifyEach (ch : Chain) (w : World) (indexKey indexMint : Pubkey)
    (components : List Component) : (i : Nat) → List AccountInfo → Watched (List UInt64)
  | _, [] => pure []
  | i, vault :: vaults => do
    let mint := (← tableAt components i).mint
    requireKey vault (ch.vaultPda indexMint mint).1
    let acct ← requireTokenAccount w vault mint indexKey
    -- `balances[i] = acct.amount`
    let _ ← given (i < maxComponents) i
    let balances ← verifyEach ch w indexKey indexMint components (i + 1) vaults
    pure (acct.amount :: balances)

def verifyVaults (ch : Chain) (w : World) (indexInfo : AccountInfo) (indexMint : Pubkey)
    (vaults : List AccountInfo) : Watched (List UInt64) := do
  let idx ← indexRef w indexInfo
  failIf (vaults.length ≠ idx.components.length) FlockError.arityMismatch
  verifyEach ch w indexInfo.key indexMint idx.components 0 vaults

def syncUnits (w : World) (indexInfo : AccountInfo) (balances : List UInt64) (supply : UInt64) :
    Watched World :=
  if supply = 0 then pure w
  else do
    let idx ← indexRef w indexInfo
    let components ← eachComponent idx.components
      (fun i c => do pure { c with units := ← unitsFromBalance (← tableAt balances i) supply })
      idx.components.length 0
    pure (w.setIndex indexInfo.key { idx with components := components })

/-- The loop of `nav_e6`. -/
def navSum (components : List Component) (balances : List UInt64) :
    (remaining i total : Nat) → Watched Nat
  | 0, _, total => pure total
  | remaining + 1, i, total => do
    let c ← tableAt components i
    let value ← valueE9 (← tableAt balances i) c.decimals c.refPriceE9
    failIf (¬ total + value < 2 ^ 128) FlockError.mathOverflow
    navSum components balances remaining (i + 1) (total + value)

def navE6 (w : World) (indexInfo : AccountInfo) (balances : List UInt64) : Watched UInt64 := do
  let idx ← indexRef w indexInfo
  let total ← navSum idx.components balances idx.components.length 0 0
  toU64 (← divU128 total 1000)

def componentAt (w : World) (indexInfo : AccountInfo) (i : Nat) : Watched Component := do
  component (← indexRef w indexInfo) i

def accrue (ch : Chain) (w : World) (indexInfo indexMintInfo feeAta : AccountInfo)
    (now : Int64) : Watched (UInt64 × World) := do
  let idx ← indexRef w indexInfo
  let mint ← readMint w indexMintInfo
  let owed ← streamingFeeTokens mint.supply idx.streamingFeeBps
    (saturatingSub now idx.lastFeeAccrual)
  let w := w.setIndex indexInfo.key { idx with lastFeeAccrual := now }
  if owed = 0 then pure (0, w)
  else do
    let _ ← requireTokenAccount w feeAta indexMintInfo.key idx.feeRecipient
    let w ← mintIndexTokens ch w indexMintInfo feeAta indexInfo owed
    pure (owed, w)

def resync (ch : Chain) (w : World) (indexInfo indexMintInfo : AccountInfo)
    (vaults : List AccountInfo) : Watched World := do
  let balances ← verifyVaults ch w indexInfo indexMintInfo.key vaults
  let supply := (← readMint w indexMintInfo).supply
  syncUnits w indexInfo balances supply

/-! ## The account list -/

/-- `(0..n).map(|i| rest[i * 2])`, from `i` on. -/
def evenAccounts (rest : List AccountInfo) : (remaining i : Nat) → Watched (List AccountInfo)
  | 0, _ => pure []
  | remaining + 1, i => do
    let vault ← index rest (← usize (i * 2))
    let vaults ← evenAccounts rest remaining (i + 1)
    pure (vault :: vaults)

/-- `rest[i * 2 + 1]` -/
def oddAccount (rest : List AccountInfo) (i : Nat) : Watched AccountInfo := do
  index rest (← usize ((← usize (i * 2)) + 1))

/-- `xs.len() != n || rest.len() != n * 2` -/
def checkArity (xs : List UInt64) (rest : List AccountInfo) (n : Nat) : Watched Unit := do
  failIf (xs.length ≠ n) FlockError.arityMismatch
  let twice ← usize (n * 2)
  failIf (rest.length ≠ twice) FlockError.arityMismatch

/-! ## Handlers -/

def addComponent (ch : Chain) (w : World) (accounts : List AccountInfo) (units : UInt64) :
    Watched World :=
  match accounts with
  | manager :: payer :: indexInfo :: indexMintInfo :: componentMintInfo :: vaultInfo ::
      systemProgram :: tokenProgram :: _ => do
    requireSigner manager
    requireSigner payer
    requireSystemProgram ch systemProgram
    requireTokenProgram ch tokenProgram
    let _ ← checkIndexPda ch indexInfo indexMintInfo.key
    failIf (units = 0) FlockError.zeroAmount
    let idx ← indexRef w indexInfo
    failIf (idx.manager ≠ manager.key) FlockError.notManager
    failIf (idx.state ≠ stateBootstrapping) FlockError.alreadySealed
    failIf (idx.components.length ≥ maxComponents) FlockError.tooManyComponents
    failIf (← findComponent idx componentMintInfo.key).isSome FlockError.duplicateComponent
    let componentDecimals := (← readMint w componentMintInfo).decimals
    let (vaultKey, vaultBump) := ch.vaultPda indexMintInfo.key componentMintInfo.key
    requireKey vaultInfo vaultKey
    let w ← ch.createAccount w payer.key vaultKey ch.token.id
    let w ← ch.token.initializeAccount3 w vaultKey componentMintInfo.key indexInfo.key
    let idx ← indexRef w indexInfo
    -- `idx.components[slot] = ..` and `idx.component_count += 1`
    let slot ← given (idx.components.length < maxComponents) idx.components.length
    let _ ← u8 (slot + 1)
    pure (w.setIndex indexInfo.key { idx with
      components := idx.components ++
        [{ mint := componentMintInfo.key
           units := units
           targetUnits := units
           refPriceE9 := 0
           decimals := componentDecimals
           vaultBump := vaultBump }] })
  | _ => .error (.fails .notEnoughAccountKeys)

def issueLoop (ch : Chain) (user indexInfo : AccountInfo) (gross : UInt64) (maxIn : List UInt64)
    (rest vaults : List AccountInfo) : (remaining : Nat) → World → (i : Nat) → Watched World
  | 0, w, _ => pure w
  | remaining + 1, w, i => do
    let component ← componentAt w indexInfo i
    let required ← unitsIn component.units gross
    failIf (required > (← index maxIn i)) FlockError.slippageExceeded
    let _ ← requireTokenAccountOfMint w (← oddAccount rest i) component.mint
    let w ← transferFromUser ch w (← oddAccount rest i) (← index vaults i) user required
    issueLoop ch user indexInfo gross maxIn rest vaults remaining w (i + 1)

def issue (ch : Chain) (w : World) (accounts : List AccountInfo) (amount : UInt64)
    (maxIn : List UInt64) : Watched World :=
  match accounts with
  | user :: indexInfo :: indexMintInfo :: userIndexAta :: feeAta :: tokenProgram :: rest => do
    requireSigner user
    requireTokenProgram ch tokenProgram
    let _ ← checkIndexPda ch indexInfo indexMintInfo.key
    failIf (amount = 0) FlockError.zeroAmount
    let idx ← indexRef w indexInfo
    idx.isLive
    let n := idx.components.length
    checkArity maxIn rest n
    let _ ← requireTokenAccountOfMint w userIndexAta indexMintInfo.key
    let (_, w) ← accrue ch w indexInfo indexMintInfo feeAta w.clock
    let vaults ← evenAccounts rest n 0
    let w ← resync ch w indexInfo indexMintInfo vaults
    let feeTokens ← toU64 (← mulDivCeil amount.toNat idx.issueFeeBps.toNat bps)
    let gross ← checkedAdd amount feeTokens
    let w ← issueLoop ch user indexInfo gross maxIn rest vaults n w 0
    let w ← mintIndexTokens ch w indexMintInfo userIndexAta indexInfo amount
    let w ← mintFee ch w indexInfo indexMintInfo feeAta feeTokens
    resync ch w indexInfo indexMintInfo vaults
  | _ => .error (.fails .notEnoughAccountKeys)

def redeemLoop (ch : Chain) (indexInfo : AccountInfo) (net : UInt64) (minOut : List UInt64)
    (rest vaults : List AccountInfo) : (remaining : Nat) → World → (i : Nat) → Watched World
  | 0, w, _ => pure w
  | remaining + 1, w, i => do
    let component ← componentAt w indexInfo i
    let payout ← unitsOut component.units net
    failIf (payout < (← index minOut i)) FlockError.slippageExceeded
    let _ ← requireTokenAccountOfMint w (← oddAccount rest i) component.mint
    let w ← transferFromVault ch w (← index vaults i) (← oddAccount rest i) indexInfo payout
    redeemLoop ch indexInfo net minOut rest vaults remaining w (i + 1)

def redeem (ch : Chain) (w : World) (accounts : List AccountInfo) (amount : UInt64)
    (minOut : List UInt64) : Watched World :=
  match accounts with
  | user :: indexInfo :: indexMintInfo :: userIndexAta :: feeAta :: tokenProgram :: rest => do
    requireSigner user
    requireTokenProgram ch tokenProgram
    let _ ← checkIndexPda ch indexInfo indexMintInfo.key
    failIf (amount = 0) FlockError.zeroAmount
    let idx ← indexRef w indexInfo
    failIf (idx.state = stateBootstrapping) FlockError.notSealed
    let n := idx.components.length
    checkArity minOut rest n
    let _ ← requireTokenAccountOfMint w userIndexAta indexMintInfo.key
    let (_, w) ← accrue ch w indexInfo indexMintInfo feeAta w.clock
    let vaults ← evenAccounts rest n 0
    let balances ← verifyVaults ch w indexInfo indexMintInfo.key vaults
    let supply := (← readMint w indexMintInfo).supply
    failIf (supply < amount) FlockError.supplyTooSmall
    let w ← syncUnits w indexInfo balances supply
    let feeTokens ← toU64 (← mulDivCeil amount.toNat idx.redeemFeeBps.toNat bps)
    let net ← checkedSub amount feeTokens
    let w ← burnIndexTokens ch w indexMintInfo userIndexAta user amount
    let w ← mintFee ch w indexInfo indexMintInfo feeAta feeTokens
    let w ← redeemLoop ch indexInfo net minOut rest vaults n w 0
    resync ch w indexInfo indexMintInfo vaults
  | _ => .error (.fails .notEnoughAccountKeys)

def accrueFees (ch : Chain) (w : World) (accounts : List AccountInfo) : Watched World :=
  match accounts with
  | indexInfo :: indexMintInfo :: feeAta :: tokenProgram :: vaults => do
    requireTokenProgram ch tokenProgram
    let _ ← checkIndexPda ch indexInfo indexMintInfo.key
    let idx ← indexRef w indexInfo
    failIf (idx.state = stateBootstrapping) FlockError.notSealed
    let (_, w) ← accrue ch w indexInfo indexMintInfo feeAta w.clock
    resync ch w indexInfo indexMintInfo vaults
  | _ => .error (.fails .notEnoughAccountKeys)

/-- The bounds on the premiums and on the loss of a proposal, in the order of the
source. -/
def checkBand (maxPremiumBps : UInt16) (p : AuctionParams) : Watched Unit := do
  failIf (p.startPremiumBps > p.endPremiumBps) FlockError.invalidPremium
  failIf (p.endPremiumBps > (← asI16 maxPremiumBps)) FlockError.invalidPremium
  failIf (p.startPremiumBps < (← negI16 (← asI16 maxPremiumBps))) FlockError.invalidPremium
  failIf (p.maxNavLossBps > maxPremiumBps) FlockError.invalidPremium

def proposeRebalance (ch : Chain) (w : World) (accounts : List AccountInfo)
    (targetUnits refPricesE9 : List UInt64) (p : AuctionParams) : Watched World :=
  match accounts with
  | manager :: indexInfo :: indexMintInfo :: vaults => do
    requireSigner manager
    let _ ← checkIndexPda ch indexInfo indexMintInfo.key
    let idx ← indexRef w indexInfo
    failIf (idx.manager ≠ manager.key) FlockError.notManager
    idx.isLive
    failIf (idx.rebalance.active ≠ 0) FlockError.rebalanceActive
    let n := idx.components.length
    failIf (targetUnits.length ≠ n ∨ refPricesE9.length ≠ n) FlockError.arityMismatch
    failIf (p.duration = 0 ∨ p.duration > maxAuctionDuration) FlockError.invalidPremium
    checkBand idx.maxPremiumBps p
    failIf (refPricesE9.any (· = 0) = true) FlockError.invalidPrice
    let balances ← verifyVaults ch w indexInfo indexMintInfo.key vaults
    let components ← eachComponent idx.components
      (fun i c => do
        let refPriceE9 ← index refPricesE9 i
        let targetUnits ← index targetUnits i
        pure { c with refPriceE9, targetUnits })
      n 0
    let w := w.setIndex indexInfo.key { idx with components := components }
    let nav ← navE6 w indexInfo balances
    let startTs ← checkedAddI64 w.clock (Int64.ofNat idx.rebalanceDelay.toNat)
    let endTs ← checkedAddI64 startTs (Int64.ofNat p.duration.toNat)
    let idx ← indexRef w indexInfo
    let navFloor ← toU64 (← mulDivFloor nav.toNat (← subU128 bps p.maxNavLossBps.toNat) bps)
    pure (w.setIndex indexInfo.key { idx with
      rebalance :=
        { active := 1
          proposedAt := w.clock
          startTs := startTs
          endTs := endTs
          startPremiumBps := p.startPremiumBps
          endPremiumBps := p.endPremiumBps
          maxNavLossBps := p.maxNavLossBps
          navFloorE6 := navFloor
          proposer := manager.key } })
  | _ => .error (.fails .notEnoughAccountKeys)

def legTarget (c : Component) (supply : UInt64) : Watched UInt64 := do
  toU64 (← mulDivFloor c.targetUnits.toNat supply.toNat unitScale)

def legCap (target : UInt64) (maxPremiumBps : UInt16) : Watched UInt64 := do
  checkedAdd target (← toU64 (← mulDivFloor target.toNat maxPremiumBps.toNat bps))

def bidPrice (sell buy : Component) (premium : Int32) (sellAmount : UInt64) :
    Watched UInt64 := do
  let valueOut ← valueE9 sellAmount sell.decimals sell.refPriceE9
  let marked ← toU128 (← i128 ((bps : Int) - premium.toInt))
  let valueIn ← mulDivCeil valueOut marked bps
  amountFromValueCeil valueIn buy.decimals buy.refPriceE9

def bidSizing (sell buy : Component) (maxPremiumBps : UInt16) (premium : Int32)
    (supply : UInt64) (balances : List UInt64) (s b : Nat) (sellAmount maxBuyAmount : UInt64) :
    Watched UInt64 := do
  let sellTarget ← legTarget sell supply
  let buyTarget ← legTarget buy supply
  let buyCap ← legCap buyTarget maxPremiumBps
  failIf ((← tableAt balances s) ≤ sellTarget) FlockError.sellLegAtTarget
  failIf (sellAmount > (← subU64 (← tableAt balances s) sellTarget))
    FlockError.sellAmountExceedsExcess
  failIf ((← tableAt balances b) ≥ buyCap) FlockError.buyLegAtCap
  let buyAmount ← bidPrice sell buy premium sellAmount
  failIf (buyAmount > maxBuyAmount) FlockError.slippageExceeded
  failIf (buyAmount > (← subU64 buyCap (← tableAt balances b))) FlockError.buyAmountExceedsCap
  pure buyAmount

def bid (ch : Chain) (w : World) (accounts : List AccountInfo)
    (sellComponent buyComponent : UInt8) (sellAmount maxBuyAmount : UInt64) : Watched World :=
  match accounts with
  | bidder :: indexInfo :: indexMintInfo :: bidderReceive :: bidderPay :: tokenProgram ::
      vaults => do
    requireSigner bidder
    requireTokenProgram ch tokenProgram
    let _ ← checkIndexPda ch indexInfo indexMintInfo.key
    failIf (sellComponent = buyComponent) FlockError.sameComponent
    failIf (sellAmount = 0) FlockError.zeroAmount
    let idx ← indexRef w indexInfo
    idx.isLive
    failIf (idx.rebalance.active = 0) FlockError.noRebalance
    let premium ← premiumAt idx.rebalance.startPremiumBps idx.rebalance.endPremiumBps
      idx.rebalance.startTs idx.rebalance.endTs w.clock
    failIf (premium.toInt > idx.maxPremiumBps.toNat) FlockError.invalidPremium
    let sell ← component idx sellComponent.toNat
    let buy ← component idx buyComponent.toNat
    let balances ← verifyVaults ch w indexInfo indexMintInfo.key vaults
    let supply := (← readMint w indexMintInfo).supply
    failIf (supply = 0) FlockError.supplyTooSmall
    let _ ← requireTokenAccountOfMint w bidderReceive sell.mint
    let _ ← requireTokenAccountOfMint w bidderPay buy.mint
    let buyAmount ← bidSizing sell buy idx.maxPremiumBps premium supply balances
      sellComponent.toNat buyComponent.toNat sellAmount maxBuyAmount
    let w ← transferFromUser ch w bidderPay (← index vaults buyComponent.toNat) bidder buyAmount
    let w ← transferFromVault ch w (← index vaults sellComponent.toNat) bidderReceive indexInfo
      sellAmount
    let balances ← verifyVaults ch w indexInfo indexMintInfo.key vaults
    let nav ← navE6 w indexInfo balances
    let idx ← indexRef w indexInfo
    failIf (nav < idx.rebalance.navFloorE6) FlockError.navFloorBreached
    syncUnits w indexInfo balances supply
  | _ => .error (.fails .notEnoughAccountKeys)

def endRebalance (ch : Chain) (w : World) (accounts : List AccountInfo) : Watched World :=
  match accounts with
  | caller :: indexInfo :: indexMintInfo :: vaults => do
    requireSigner caller
    let _ ← checkIndexPda ch indexInfo indexMintInfo.key
    let idx ← indexRef w indexInfo
    failIf (idx.rebalance.active = 0) FlockError.noRebalance
    failIf (w.clock ≤ idx.rebalance.endTs ∧ idx.manager ≠ caller.key) FlockError.notManager
    let w ← resync ch w indexInfo indexMintInfo vaults
    let idx ← indexRef w indexInfo
    let components ← eachComponent idx.components (fun _ c => pure { c with targetUnits := c.units })
      idx.components.length 0
    pure (w.setIndex indexInfo.key { idx with
      components := components
      rebalance := { Rebalance.default with
        proposer := idx.rebalance.proposer
        proposedAt := idx.rebalance.proposedAt } })
  | _ => .error (.fails .notEnoughAccountKeys)

/-- `process`, watched. What is lifted has no arithmetic of its own. -/
def process (ch : Chain) (w : World) (accounts : List AccountInfo) :
    FlockInstruction → Watched World
  | .addComponent units => addComponent ch w accounts units
  | .issue amount maxIn => issue ch w accounts amount maxIn
  | .redeem amount minOut => redeem ch w accounts amount minOut
  | .accrueFees => accrueFees ch w accounts
  | .proposeRebalance targetUnits refPricesE9 duration startPremiumBps endPremiumBps
      maxNavLossBps =>
    proposeRebalance ch w accounts targetUnits refPricesE9
      { duration, startPremiumBps, endPremiumBps, maxNavLossBps }
  | .bid sellComponent buyComponent sellAmount maxBuyAmount =>
    bid ch w accounts sellComponent buyComponent sellAmount maxBuyAmount
  | .endRebalance => endRebalance ch w accounts
  | ix => Flock.process ch w accounts ix

end Watched

end Flock
