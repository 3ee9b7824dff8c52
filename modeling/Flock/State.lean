import Flock.Error
import Mathlib.Data.Fintype.Basic
import Mathlib.Data.Fintype.EquivFin

/-!
# `state.rs`: the index record

One record per index. The source lays it out for zero-copy access and so keeps
a table of sixteen slots and a counter; here `components` is the list of the
slots in use and `component_count` is its length. The padding fields are left
out. Every integer keeps the width it has in the source.
-/

namespace Flock

open Outcome

/-- A 32-byte account address. -/
structure Pubkey where
  val : BitVec 256
  deriving DecidableEq, Repr

instance (n : Nat) : OfNat Pubkey n := ⟨⟨BitVec.ofNat 256 n⟩⟩

/-- There are finitely many addresses, so balances can be summed over all of
them. -/
noncomputable instance : Fintype Pubkey :=
  Fintype.ofInjective (fun k => k.val.toFin) (by
    rintro ⟨⟨a⟩⟩ ⟨⟨b⟩⟩ h
    exact congrArg (fun f => Pubkey.mk ⟨f⟩) h)

def maxComponents : Nat := 16
def indexDecimals : UInt8 := 9
def accountTagIndex : UInt8 := 0xF1
def stateVersion : UInt8 := 1

/-! Hard caps. Governance sets values inside these; nothing can set them outside. -/

def maxStreamingFeeBps : UInt16 := 500
def maxMintRedeemFeeBps : UInt16 := 100
def maxPremiumCeilingBps : UInt16 := 1000
def minRebalanceDelay : UInt32 := 300
def maxAuctionDuration : UInt32 := 7 * 86400

def stateBootstrapping : UInt8 := 0
def stateLive : UInt8 := 1
def statePaused : UInt8 := 2

structure Component where
  mint : Pubkey
  /-- Base units of this component backing one whole index token. -/
  units : UInt64
  /-- Where the running auction intends `units` to land. -/
  targetUnits : UInt64
  /-- USD per whole token, 1e9, as of the proposal that set `targetUnits`. -/
  refPriceE9 : UInt64
  decimals : UInt8
  vaultBump : UInt8
  deriving DecidableEq, Repr

structure Rebalance where
  proposer : Pubkey
  proposedAt : Int64
  startTs : Int64
  endTs : Int64
  /-- Fund NAV in USD micro-dollars that no bid may take the fund below. -/
  navFloorE6 : UInt64
  startPremiumBps : Int16
  endPremiumBps : Int16
  maxNavLossBps : UInt16
  active : UInt8
  deriving DecidableEq, Repr

/-- `Rebalance::default()`: all zeroes. -/
def Rebalance.default : Rebalance :=
  { proposer := 0, proposedAt := 0, startTs := 0, endTs := 0, navFloorE6 := 0,
    startPremiumBps := 0, endPremiumBps := 0, maxNavLossBps := 0, active := 0 }

structure Index where
  indexMint : Pubkey
  governor : Pubkey
  manager : Pubkey
  feeRecipient : Pubkey
  lastFeeAccrual : Int64
  createdAt : Int64
  rebalanceDelay : UInt32
  streamingFeeBps : UInt16
  issueFeeBps : UInt16
  redeemFeeBps : UInt16
  /-- Ceiling on the edge any auction may ever hand a bidder. -/
  maxPremiumBps : UInt16
  tag : UInt8
  version : UInt8
  bump : UInt8
  state : UInt8
  decimals : UInt8
  name : Vector UInt8 32
  symbol : Vector UInt8 12
  components : List Component
  rebalance : Rebalance
  deriving DecidableEq, Repr

namespace Index

def component (idx : Index) (i : Nat) : Except ProgramError Component :=
  match idx.components[i]? with
  | some c => .ok c
  | none => .error FlockError.unknownComponent

theorem component_ok_iff {idx : Index} {i : Nat} {c : Component} :
    idx.component i = .ok c ↔ idx.components[i]? = some c := by
  unfold component
  split <;> simp_all

def findComponent (idx : Index) (mint : Pubkey) : Option Nat :=
  idx.components.findIdx? (fun c => c.mint == mint)

theorem findComponent_eq_none_iff {idx : Index} {mint : Pubkey} :
    idx.findComponent mint = none ↔ ∀ c ∈ idx.components, c.mint ≠ mint := by
  simp [findComponent, List.findIdx?_eq_none_iff]

def isLive (idx : Index) : Except ProgramError Unit :=
  if idx.state = stateLive then .ok ()
  else if idx.state = statePaused then .error FlockError.paused
  else .error FlockError.notSealed

theorem isLive_ok_iff {idx : Index} {u : Unit} :
    idx.isLive = .ok u ↔ idx.state = stateLive := by
  unfold isLive
  split
  next h => simp [h]
  next h => split <;> simp [h]

end Index

end Flock
