import Flock.State

/-!
# `instruction.rs`: the instruction set

The twelve variants with their arguments, each in the width it has in the source. The
account lists in the comments of the source are `FlockInstruction.writable`, the bytes
`FlockInstruction.codec`.
-/

namespace Flock

inductive FlockInstruction where
  | initIndex (name : Vector UInt8 32) (symbol : Vector UInt8 12)
      (streamingFeeBps issueFeeBps redeemFeeBps maxPremiumBps : UInt16) (rebalanceDelay : UInt32)
  | addComponent (units : UInt64)
  | sealIndex
  | issue (amount : UInt64) (maxIn : List UInt64)
  | redeem (amount : UInt64) (minOut : List UInt64)
  | accrueFees
  | proposeRebalance (targetUnits refPricesE9 : List UInt64) (duration : UInt32)
      (startPremiumBps endPremiumBps : Int16) (maxNavLossBps : UInt16)
  | bid (sellComponent buyComponent : UInt8) (sellAmount maxBuyAmount : UInt64)
  | endRebalance
  | setParams (streamingFeeBps issueFeeBps redeemFeeBps maxPremiumBps : UInt16)
      (rebalanceDelay : UInt32)
  | setAuthority (role : UInt8) (newAuthority : Pubkey)
  | setPaused (paused : Bool)
  deriving DecidableEq, Repr

def roleGovernor : UInt8 := 0
def roleManager : UInt8 := 1
def roleFeeRecipient : UInt8 := 2

end Flock
