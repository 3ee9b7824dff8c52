import Flock.Lib.Outcome

/-!
# `error.rs`: every failure mode of the program

`FlockError` is the program's own numbered list. `ProgramError` is the part of
the runtime's error type the program returns: the handful of generic errors
the handlers name, `custom` for a `FlockError`, and `cpi` for whatever code the
token or the system program answered a call with. `panicked` is an index out of
bounds, which aborts the instruction.
-/

namespace Flock

inductive FlockError where
  | invalidAccountOwner
  | seedsMismatch
  | missingSignature
  | notGovernor
  | notManager
  | alreadySealed
  | notSealed
  | paused
  | tooManyComponents
  | duplicateComponent
  | unknownComponent
  | invalidTokenAccount
  | invalidIndexMint
  | feeTooHigh
  | mathOverflow
  | zeroAmount
  | slippageExceeded
  | rebalanceActive
  | noRebalance
  | auctionClosed
  | sellLegAtTarget
  | navFloorBreached
  | invalidPremium
  | arityMismatch
  | invalidPrice
  | timelockNotMet
  | supplyTooSmall
  | staleProposal
  | sameComponent
  | sellAmountExceedsExcess
  | buyLegAtCap
  | buyAmountExceedsCap
  deriving DecidableEq, Repr

inductive ProgramError where
  | custom (e : FlockError)
  | invalidInstructionData
  | notEnoughAccountKeys
  | accountAlreadyInitialized
  | accountDataTooSmall
  | cpi (code : UInt32)
  | panicked
  deriving DecidableEq, Repr

/-- `impl From<FlockError> for ProgramError`. -/
instance : Coe FlockError ProgramError := ⟨.custom⟩

/-- `?` on a `Result<_, FlockError>` inside a handler. -/
instance : MonadLift (Except FlockError) (Except ProgramError) :=
  ⟨fun x => x.mapError .custom⟩

theorem lift_ok_iff {α : Type} {x : Except FlockError α} {a : α} :
    (liftM x : Except ProgramError α) = .ok a ↔ x = .ok a := by
  cases x <;> simp [liftM, monadLift, MonadLift.monadLift, Except.mapError]

end Flock
