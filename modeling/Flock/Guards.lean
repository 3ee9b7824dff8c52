import Flock.Chain

/-!
# `guards.rs`, and the borrows of `state.rs`

The account checks every handler funnels through. `indexRef` is the read the
source spells `index_ref` or `index_mut`; what a handler then writes goes back
with `World.setIndex`.
-/

namespace Flock

open Outcome

def requireSigner (info : AccountInfo) : Except ProgramError Unit :=
  failIf (info.isSigner = false) FlockError.missingSignature

def requireKey (info : AccountInfo) (expected : Pubkey) : Except ProgramError Unit :=
  failIf (info.key ≠ expected) FlockError.seedsMismatch

def requireTokenProgram (ch : Chain) (info : AccountInfo) : Except ProgramError Unit :=
  failIf (info.key ≠ ch.token.id) FlockError.invalidTokenAccount

def requireSystemProgram (ch : Chain) (info : AccountInfo) : Except ProgramError Unit :=
  failIf (info.key ≠ ch.systemProgramId) FlockError.invalidTokenAccount

def readMint (w : World) (info : AccountInfo) : Except ProgramError Mint :=
  match w.mint? info.key with
  | some m => .ok m
  | none => .error FlockError.invalidTokenAccount

def readTokenAccount (w : World) (info : AccountInfo) : Except ProgramError TokenAccount :=
  match w.token? info.key with
  | some t => .ok t
  | none => .error FlockError.invalidTokenAccount

/-- A token account that must belong to `owner` and hold `mint`. -/
def requireTokenAccount (w : World) (info : AccountInfo) (mint owner : Pubkey) :
    Except ProgramError TokenAccount := do
  let acct ← readTokenAccount w info
  failIf (acct.mint ≠ mint ∨ acct.owner ≠ owner) FlockError.invalidTokenAccount
  pure acct

/-- A token account that must hold `mint`, whoever owns it. -/
def requireTokenAccountOfMint (w : World) (info : AccountInfo) (mint : Pubkey) :
    Except ProgramError TokenAccount := do
  let acct ← readTokenAccount w info
  failIf (acct.mint ≠ mint) FlockError.invalidTokenAccount
  pure acct

/-- `index_ref` and `index_mut`: the record at `info`, if the program owns the
account and it carries the tag and the version. -/
def indexRef (w : World) (info : AccountInfo) : Except ProgramError Index :=
  match w.index? info.key with
  | some idx => do
    failIf (idx.tag ≠ accountTagIndex ∨ idx.version ≠ stateVersion) FlockError.invalidAccountOwner
    pure idx
  | none => .error FlockError.invalidAccountOwner

def World.setIndex (w : World) (k : Pubkey) (idx : Index) : World := w.set k (.index idx)

theorem readMint_ok_iff {w : World} {info : AccountInfo} {m : Mint} :
    readMint w info = .ok m ↔ w.mint? info.key = some m := by
  unfold readMint
  split <;> simp_all

theorem readTokenAccount_ok_iff {w : World} {info : AccountInfo} {t : TokenAccount} :
    readTokenAccount w info = .ok t ↔ w.token? info.key = some t := by
  unfold readTokenAccount
  split <;> simp_all

theorem requireTokenAccount_ok_iff {w : World} {info : AccountInfo} {mint owner : Pubkey}
    {t : TokenAccount} :
    requireTokenAccount w info mint owner = .ok t ↔
      w.token? info.key = some t ∧ t.mint = mint ∧ t.owner = owner := by
  simp only [requireTokenAccount, bind_ok_iff, readTokenAccount_ok_iff, failIf_ok_iff,
    pure_ok_iff, not_or, not_not]
  constructor
  · rintro ⟨_, ht, _, ⟨hm, ho⟩, rfl⟩
    exact ⟨ht, hm, ho⟩
  · rintro ⟨ht, hm, ho⟩
    exact ⟨t, ht, (), ⟨hm, ho⟩, rfl⟩

theorem requireTokenAccountOfMint_ok_iff {w : World} {info : AccountInfo} {mint : Pubkey}
    {t : TokenAccount} :
    requireTokenAccountOfMint w info mint = .ok t ↔
      w.token? info.key = some t ∧ t.mint = mint := by
  simp only [requireTokenAccountOfMint, bind_ok_iff, readTokenAccount_ok_iff, failIf_ok_iff,
    pure_ok_iff, not_not]
  constructor
  · rintro ⟨_, ht, _, hm, rfl⟩
    exact ⟨ht, hm⟩
  · rintro ⟨ht, hm⟩
    exact ⟨t, ht, (), hm, rfl⟩

theorem indexRef_ok_iff {w : World} {info : AccountInfo} {idx : Index} :
    indexRef w info = .ok idx ↔
      w.index? info.key = some idx ∧ idx.tag = accountTagIndex ∧ idx.version = stateVersion := by
  unfold indexRef
  split
  next i hi =>
    simp only [bind_ok_iff, failIf_ok_iff, pure_ok_iff, not_or, not_not, hi, Option.some.injEq]
    constructor
    · rintro ⟨_, ht, rfl⟩
      exact ⟨rfl, ht⟩
    · rintro ⟨rfl, ht⟩
      exact ⟨(), ht, rfl⟩
  next hi => simp [hi]

end Flock
