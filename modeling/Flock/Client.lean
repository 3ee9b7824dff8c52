import Flock.Instructions
import Flock.Sdk

/-!
# The sending side of `client.ts`

`issueInstruction` quotes from a snapshot, puts the caller's slippage on top and
hands the numbers to the builder; `redeemInstruction` takes it off. The address
of an associated token account is the token library's.
-/

namespace Flock.Sdk

inductive ClientError where
  | quote (e : SdkError)
  | encode (e : OutOfRange)
  /-- `TokenOwnerOffCurveError` -/
  | tokenOwnerOffCurve (owner : Pubkey)
  deriving DecidableEq, Repr

structure FlockClient where
  lib : Library
  /-- `getAssociatedTokenAddressSync`; nothing where it throws. -/
  associatedTokenAddress : (mint owner : Pubkey) → (allowOwnerOffCurve : Bool) → Option Pubkey
  programId : Pubkey

namespace FlockClient

variable (client : FlockClient)

def tokenAddress (mint owner : Pubkey) (allowOwnerOffCurve : Bool) : Except ClientError Pubkey :=
  match client.associatedTokenAddress mint owner allowOwnerOffCurve with
  | some address => .ok address
  | none => .error (.tokenOwnerOffCurve owner)

/-- The components of a snapshot, with the user's token accounts for them. -/
def componentPairs (snapshot : IndexSnapshot) (user : Pubkey) :
    Except ClientError (List ComponentPair) :=
  snapshot.account.components.mapM fun component => do
    let tokenAccount ← client.tokenAddress component.mint user false
    pure { mint := component.mint, tokenAccount }

/-- `args.slippageBps ?? 50` -/
def slippageOf (slippageBps : Option Int) : Int := slippageBps.getD 50

/-- `value + (value * slippage) / BPS + 1n` -/
def withSlippage (slippage value : Int) : Int := value + (value * slippage).tdiv bps + 1

structure IssueInstructionArgs where
  snapshot : IndexSnapshot
  user : Pubkey
  amount : Int
  slippageBps : Option Int

def issueInstruction (args : IssueInstructionArgs) :
    Except ClientError TransactionInstruction := do
  let quote ← (quoteIssue args.snapshot args.amount).mapError .quote
  let maxIn := quote.required.map (withSlippage (slippageOf args.slippageBps))
  let userIndexAccount ← client.tokenAddress args.snapshot.indexMint args.user false
  let feeAccount ← client.tokenAddress args.snapshot.indexMint args.snapshot.account.feeRecipient
    true
  let components ← client.componentPairs args.snapshot args.user
  (issue client.lib
    { programId := client.programId
      user := args.user
      indexMint := args.snapshot.indexMint
      userIndexAccount, feeAccount, components
      amount := args.amount
      maxIn }).mapError .encode

/-- `value - (value * slippage) / BPS` -/
def lessSlippage (slippage value : Int) : Int := value - (value * slippage).tdiv bps

structure RedeemInstructionArgs where
  snapshot : IndexSnapshot
  user : Pubkey
  amount : Int
  slippageBps : Option Int
  feeAccount : Pubkey

def redeemInstruction (args : RedeemInstructionArgs) :
    Except ClientError TransactionInstruction := do
  let quote ← (quoteRedeem args.snapshot args.amount).mapError .quote
  let minOut := quote.payout.map (lessSlippage (slippageOf args.slippageBps))
  let userIndexAccount ← client.tokenAddress args.snapshot.indexMint args.user false
  let components ← client.componentPairs args.snapshot args.user
  (redeem client.lib
    { programId := client.programId
      user := args.user
      indexMint := args.snapshot.indexMint
      userIndexAccount
      feeAccount := args.feeAccount
      components
      amount := args.amount
      minOut }).mapError .encode

end FlockClient

end Flock.Sdk
