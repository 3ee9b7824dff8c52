import Flock.Builders
import Flock.Encode

/-!
# The SDK's instruction builders: `instructions.ts`

One builder for each instruction, with its arguments as one object. What a
builder can fail at is a number its width has no room for.
-/

namespace Flock.Sdk

open Outcome

/-- `TransactionInstruction` -/
structure TransactionInstruction where
  programId : Pubkey
  keys : List AccountMeta
  data : List UInt8
  deriving DecidableEq, Repr

/-- `VARIANT` -/
structure VariantTable where
  initIndex : Int := 0
  addComponent : Int := 1
  sealIndex : Int := 2
  issue : Int := 3
  redeem : Int := 4
  accrueFees : Int := 5
  proposeRebalance : Int := 6
  bid : Int := 7
  endRebalance : Int := 8
  setParams : Int := 9
  setAuthority : Int := 10
  setPaused : Int := 11

def variant : VariantTable := {}

def ro (pubkey : Pubkey) : AccountMeta := { pubkey, isSigner := false, isWritable := false }
def rw (pubkey : Pubkey) : AccountMeta := { pubkey, isSigner := false, isWritable := true }
def signerRo (pubkey : Pubkey) : AccountMeta := { pubkey, isSigner := true, isWritable := false }
def signerRw (pubkey : Pubkey) : AccountMeta := { pubkey, isSigner := true, isWritable := true }

section

variable (lib : Library)

def indexPda (program indexMint : Pubkey) : Pubkey × UInt8 :=
  lib.findProgramAddress [seedIndex, .key indexMint] program

def vaultPda (program indexMint componentMint : Pubkey) : Pubkey × UInt8 :=
  lib.findProgramAddress [seedVault, .key indexMint, .key componentMint] program

structure InitIndexArgs where
  programId : Pubkey
  payer : Pubkey
  indexMint : Pubkey
  governor : Pubkey
  manager : Pubkey
  feeRecipient : Pubkey
  name : JsString
  symbol : JsString
  streamingFeeBps : Int
  issueFeeBps : Int
  redeemFeeBps : Int
  maxPremiumBps : Int
  rebalanceDelay : Int

def initIndex (args : InitIndexArgs) : Except OutOfRange TransactionInstruction := do
  let (index, _) := indexPda lib args.programId args.indexMint
  let w ← Writer.new.u8 variant.initIndex
  let w := (w.fixed args.name 32).fixed args.symbol 12
  let w ← w.u16 args.streamingFeeBps
  let w ← w.u16 args.issueFeeBps
  let w ← w.u16 args.redeemFeeBps
  let w ← w.u16 args.maxPremiumBps
  let w ← w.u32 args.rebalanceDelay
  pure
    { programId := args.programId
      keys := [signerRw args.payer, rw index, ro args.indexMint, ro args.governor,
        ro args.manager, ro args.feeRecipient, ro lib.systemProgramId]
      data := w.toBuffer }

structure AddComponentArgs where
  programId : Pubkey
  manager : Pubkey
  payer : Pubkey
  indexMint : Pubkey
  componentMint : Pubkey
  units : Int

def addComponent (args : AddComponentArgs) : Except OutOfRange TransactionInstruction := do
  let (index, _) := indexPda lib args.programId args.indexMint
  let (vault, _) := vaultPda lib args.programId args.indexMint args.componentMint
  let w ← Writer.new.u8 variant.addComponent
  let w ← w.u64 args.units
  pure
    { programId := args.programId
      keys := [signerRo args.manager, signerRw args.payer, rw index, ro args.indexMint,
        ro args.componentMint, rw vault, ro lib.systemProgramId, ro lib.tokenProgramId]
      data := w.toBuffer }

structure SealIndexArgs where
  programId : Pubkey
  manager : Pubkey
  indexMint : Pubkey

def sealIndex (args : SealIndexArgs) : Except OutOfRange TransactionInstruction := do
  let (index, _) := indexPda lib args.programId args.indexMint
  let w ← Writer.new.u8 variant.sealIndex
  pure
    { programId := args.programId
      keys := [signerRo args.manager, rw index, ro args.indexMint]
      data := w.toBuffer }

/-- A component's mint and the caller's token account for it. -/
structure ComponentPair where
  mint : Pubkey
  tokenAccount : Pubkey
  deriving DecidableEq, Repr

def componentMetas (programId indexMint : Pubkey) (components : List ComponentPair) :
    List AccountMeta :=
  components.flatMap fun component =>
    [rw (vaultPda lib programId indexMint component.mint).1, rw component.tokenAccount]

structure IssueArgs where
  programId : Pubkey
  user : Pubkey
  indexMint : Pubkey
  userIndexAccount : Pubkey
  feeAccount : Pubkey
  components : List ComponentPair
  amount : Int
  maxIn : List Int

def issue (args : IssueArgs) : Except OutOfRange TransactionInstruction := do
  let (index, _) := indexPda lib args.programId args.indexMint
  let w ← Writer.new.u8 variant.issue
  let w ← w.u64 args.amount
  let w ← w.vecU64 args.maxIn
  pure
    { programId := args.programId
      keys := [signerRo args.user, rw index, rw args.indexMint, rw args.userIndexAccount,
        rw args.feeAccount, ro lib.tokenProgramId] ++
          componentMetas lib args.programId args.indexMint args.components
      data := w.toBuffer }

structure RedeemArgs where
  programId : Pubkey
  user : Pubkey
  indexMint : Pubkey
  userIndexAccount : Pubkey
  feeAccount : Pubkey
  components : List ComponentPair
  amount : Int
  minOut : List Int

def redeem (args : RedeemArgs) : Except OutOfRange TransactionInstruction := do
  let (index, _) := indexPda lib args.programId args.indexMint
  let w ← Writer.new.u8 variant.redeem
  let w ← w.u64 args.amount
  let w ← w.vecU64 args.minOut
  pure
    { programId := args.programId
      keys := [signerRo args.user, rw index, rw args.indexMint, rw args.userIndexAccount,
        rw args.feeAccount, ro lib.tokenProgramId] ++
          componentMetas lib args.programId args.indexMint args.components
      data := w.toBuffer }

structure AccrueFeesArgs where
  programId : Pubkey
  indexMint : Pubkey
  feeAccount : Pubkey
  componentMints : List Pubkey

def accrueFees (args : AccrueFeesArgs) : Except OutOfRange TransactionInstruction := do
  let (index, _) := indexPda lib args.programId args.indexMint
  let w ← Writer.new.u8 variant.accrueFees
  pure
    { programId := args.programId
      keys := [rw index, rw args.indexMint, rw args.feeAccount, ro lib.tokenProgramId] ++
        args.componentMints.map fun mint => ro (vaultPda lib args.programId args.indexMint mint).1
      data := w.toBuffer }

structure ProposeRebalanceArgs where
  programId : Pubkey
  manager : Pubkey
  indexMint : Pubkey
  componentMints : List Pubkey
  targetUnits : List Int
  refPricesE9 : List Int
  duration : Int
  startPremiumBps : Int
  endPremiumBps : Int
  maxNavLossBps : Int

def proposeRebalance (args : ProposeRebalanceArgs) :
    Except OutOfRange TransactionInstruction := do
  let (index, _) := indexPda lib args.programId args.indexMint
  let w ← Writer.new.u8 variant.proposeRebalance
  let w ← w.vecU64 args.targetUnits
  let w ← w.vecU64 args.refPricesE9
  let w ← w.u32 args.duration
  let w ← w.i16 args.startPremiumBps
  let w ← w.i16 args.endPremiumBps
  let w ← w.u16 args.maxNavLossBps
  pure
    { programId := args.programId
      keys := [signerRo args.manager, rw index, ro args.indexMint] ++
        args.componentMints.map fun mint => ro (vaultPda lib args.programId args.indexMint mint).1
      data := w.toBuffer }

structure BidArgs where
  programId : Pubkey
  bidder : Pubkey
  indexMint : Pubkey
  componentMints : List Pubkey
  bidderReceiveAccount : Pubkey
  bidderPayAccount : Pubkey
  sellComponent : Int
  buyComponent : Int
  sellAmount : Int
  maxBuyAmount : Int

def bid (args : BidArgs) : Except OutOfRange TransactionInstruction := do
  let (index, _) := indexPda lib args.programId args.indexMint
  let w ← Writer.new.u8 variant.bid
  let w ← w.u8 args.sellComponent
  let w ← w.u8 args.buyComponent
  let w ← w.u64 args.sellAmount
  let w ← w.u64 args.maxBuyAmount
  pure
    { programId := args.programId
      keys := [signerRo args.bidder, rw index, ro args.indexMint, rw args.bidderReceiveAccount,
        rw args.bidderPayAccount, ro lib.tokenProgramId] ++
        args.componentMints.map fun mint => rw (vaultPda lib args.programId args.indexMint mint).1
      data := w.toBuffer }

structure EndRebalanceArgs where
  programId : Pubkey
  caller : Pubkey
  indexMint : Pubkey
  componentMints : List Pubkey

def endRebalance (args : EndRebalanceArgs) : Except OutOfRange TransactionInstruction := do
  let (index, _) := indexPda lib args.programId args.indexMint
  let w ← Writer.new.u8 variant.endRebalance
  pure
    { programId := args.programId
      keys := [signerRo args.caller, rw index, ro args.indexMint] ++
        args.componentMints.map fun mint => ro (vaultPda lib args.programId args.indexMint mint).1
      data := w.toBuffer }

structure SetParamsArgs where
  programId : Pubkey
  governor : Pubkey
  indexMint : Pubkey
  streamingFeeBps : Int
  issueFeeBps : Int
  redeemFeeBps : Int
  maxPremiumBps : Int
  rebalanceDelay : Int

def setParams (args : SetParamsArgs) : Except OutOfRange TransactionInstruction := do
  let (index, _) := indexPda lib args.programId args.indexMint
  let w ← Writer.new.u8 variant.setParams
  let w ← w.u16 args.streamingFeeBps
  let w ← w.u16 args.issueFeeBps
  let w ← w.u16 args.redeemFeeBps
  let w ← w.u16 args.maxPremiumBps
  let w ← w.u32 args.rebalanceDelay
  pure
    { programId := args.programId
      keys := [signerRo args.governor, rw index, ro args.indexMint]
      data := w.toBuffer }

structure SetAuthorityArgs where
  programId : Pubkey
  governor : Pubkey
  indexMint : Pubkey
  role : Int
  newAuthority : Pubkey

def setAuthority (args : SetAuthorityArgs) : Except OutOfRange TransactionInstruction := do
  let (index, _) := indexPda lib args.programId args.indexMint
  let w ← Writer.new.u8 variant.setAuthority
  let w ← w.u8 args.role
  let w := w.bytes (Pubkey.codec.write args.newAuthority)
  pure
    { programId := args.programId
      keys := [signerRo args.governor, rw index, ro args.indexMint]
      data := w.toBuffer }

structure SetPausedArgs where
  programId : Pubkey
  caller : Pubkey
  indexMint : Pubkey
  paused : Bool

def setPaused (args : SetPausedArgs) : Except OutOfRange TransactionInstruction := do
  let (index, _) := indexPda lib args.programId args.indexMint
  let w ← Writer.new.u8 variant.setPaused
  let w ← w.u8 (if args.paused then 1 else 0)
  pure
    { programId := args.programId
      keys := [signerRo args.caller, rw index, ro args.indexMint]
      data := w.toBuffer }

/-! ## The builders with a vector

These are the two whose arguments a client computes. They build something just
when every number fits, and then what the program calls `serialize`. -/

/-- The writer behind the fields of `issue` and `redeem`. -/
def issueWriter (number : UInt8) (amount : UInt64) (xs : List UInt64) : Writer :=
  ⟨((Writer.new.push [number]).push (Codec.u64.write amount)).chunks ++
    leBytes 4 xs.length :: xs.map Codec.u64.write⟩

theorem toBuffer_issueWriter (number : UInt8) (amount : UInt64) (xs : List UInt64) :
    (issueWriter number amount xs).toBuffer
      = number :: FlockInstruction.issueFields.write (amount, xs) := by
  simp [issueWriter, Writer.toBuffer, Writer.push, Writer.new, FlockInstruction.issueFields,
    Codec.pair, Codec.vec, List.flatMap]

/-- The number of the variant is written, whatever follows; the rest is as far as the
numbers fit. -/
theorem bind_issueFields_ok_iff (number : UInt8) {amount : Int} {xs : List Int} {β : Type}
    {f : Writer → Except OutOfRange β} {b : β} :
    (do
      let w ← Writer.new.u8 number.toNat
      let w ← w.u64 amount
      let w ← w.vecU64 xs
      f w) = .ok b ↔
      ∃ (n : UInt64) (ns : List UInt64), amount = n.toNat ∧
        xs = ns.map (fun x => (x.toNat : Int)) ∧ ns.length < 2 ^ 32 ∧
        f (issueWriter number n ns) = .ok b := by
  have hnumber : Codec.u8.write number = [number] := congrArg (fun b => [b]) UInt8.ofNat_toNat
  rw [Writer.u8_toNat, ok_bind, hnumber, bind_ok_iff]
  constructor
  · rintro ⟨w₁, hw₁, h⟩
    obtain ⟨w₂, hw₂, h⟩ := bind_ok_iff.mp h
    obtain ⟨n, rfl, rfl⟩ := Writer.u64_ok_iff.mp hw₁
    obtain ⟨ns, rfl, hlen, rfl⟩ := Writer.vecU64_ok_iff.mp hw₂
    exact ⟨n, ns, rfl, rfl, hlen, h⟩
  · rintro ⟨n, ns, rfl, rfl, hlen, h⟩
    refine ⟨_, Writer.u64_ok_iff.mpr ⟨n, rfl, rfl⟩, bind_ok_iff.mpr ⟨_, ?_, h⟩⟩
    exact Writer.vecU64_ok_iff.mpr ⟨ns, rfl, hlen, rfl⟩

theorem issue_ok_iff {args : IssueArgs} {built : TransactionInstruction} :
    issue lib args = .ok built ↔ ∃ (amount : UInt64) (maxIn : List UInt64),
      args.amount = amount.toNat ∧ args.maxIn = maxIn.map (fun x => (x.toNat : Int)) ∧
      maxIn.length < 2 ^ 32 ∧ built =
        { programId := args.programId
          keys := [signerRo args.user, rw (indexPda lib args.programId args.indexMint).1,
            rw args.indexMint, rw args.userIndexAccount, rw args.feeAccount,
            ro lib.tokenProgramId] ++
              componentMetas lib args.programId args.indexMint args.components
          data := (FlockInstruction.issue amount maxIn).serialize } := by
  unfold issue
  refine (bind_issueFields_ok_iff 3).trans ?_
  constructor
  · rintro ⟨amount, maxIn, hamount, hvec, hlen, h⟩
    rw [toBuffer_issueWriter] at h
    exact ⟨amount, maxIn, hamount, hvec, hlen, (Except.ok.inj h).symm⟩
  · rintro ⟨amount, maxIn, hamount, hvec, hlen, rfl⟩
    refine ⟨amount, maxIn, hamount, hvec, hlen, ?_⟩
    rw [toBuffer_issueWriter]
    rfl

theorem redeem_ok_iff {args : RedeemArgs} {built : TransactionInstruction} :
    redeem lib args = .ok built ↔ ∃ (amount : UInt64) (minOut : List UInt64),
      args.amount = amount.toNat ∧ args.minOut = minOut.map (fun x => (x.toNat : Int)) ∧
      minOut.length < 2 ^ 32 ∧ built =
        { programId := args.programId
          keys := [signerRo args.user, rw (indexPda lib args.programId args.indexMint).1,
            rw args.indexMint, rw args.userIndexAccount, rw args.feeAccount,
            ro lib.tokenProgramId] ++
              componentMetas lib args.programId args.indexMint args.components
          data := (FlockInstruction.redeem amount minOut).serialize } := by
  unfold redeem
  refine (bind_issueFields_ok_iff 4).trans ?_
  constructor
  · rintro ⟨amount, minOut, hamount, hvec, hlen, h⟩
    rw [toBuffer_issueWriter] at h
    exact ⟨amount, minOut, hamount, hvec, hlen, (Except.ok.inj h).symm⟩
  · rintro ⟨amount, minOut, hamount, hvec, hlen, rfl⟩
    refine ⟨amount, minOut, hamount, hvec, hlen, ?_⟩
    rw [toBuffer_issueWriter]
    rfl

end

end Flock.Sdk
