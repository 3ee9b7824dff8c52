import Flock.Borsh

/-!
# `builders.rs`: the program's own instruction builders

An instruction is the program it goes to, the accounts it names with what may be
done to them, and its data. What comes from the Solana libraries is `Library`:
the derivation of program addresses, which takes the seeds and the program, and
the addresses of the two programs that are called.
-/

namespace Flock

/-- What a builder takes from the Solana library it is linked with. -/
structure Library where
  /-- `find_program_address` -/
  findProgramAddress : List Seed → (program : Pubkey) → Pubkey × UInt8
  /-- `system_program::id()` -/
  systemProgramId : Pubkey
  /-- `spl_token::id()` -/
  tokenProgramId : Pubkey

structure AccountMeta where
  pubkey : Pubkey
  isSigner : Bool
  isWritable : Bool
  deriving DecidableEq, Repr

/-- `solana_program::instruction::Instruction` -/
structure Instruction where
  programId : Pubkey
  accounts : List AccountMeta
  data : List UInt8
  deriving DecidableEq, Repr

namespace Builders

def pack (ix : FlockInstruction) : List UInt8 := ix.serialize

def ro (key : Pubkey) : AccountMeta := ⟨key, false, false⟩
def rw (key : Pubkey) : AccountMeta := ⟨key, false, true⟩
def signerRo (key : Pubkey) : AccountMeta := ⟨key, true, false⟩
def signerRw (key : Pubkey) : AccountMeta := ⟨key, true, true⟩

/-- Pad a display string into the fixed field the account stores. A `&str` is a list of
characters, and `as_bytes` its UTF-8. -/
def fixed (width : Nat) (text : List Char) : Vector UInt8 width :=
  let bytes := text.flatMap String.utf8EncodeChar
  let n := min bytes.length width
  -- `out[..n].copy_from_slice(&bytes[..n])` on zeroes
  ⟨(bytes.take n ++ List.replicate (width - n) 0).toArray, by
    rw [List.size_toArray, List.length_append, List.length_take, List.length_replicate]
    omega⟩

section

variable (lib : Library) (programId : Pubkey)

/-- `index_pda` -/
def indexPda (indexMint : Pubkey) : Pubkey × UInt8 :=
  lib.findProgramAddress [seedIndex, .key indexMint] programId

/-- `vault_pda` -/
def vaultPda (indexMint componentMint : Pubkey) : Pubkey × UInt8 :=
  lib.findProgramAddress [seedVault, .key indexMint, .key componentMint] programId

structure InitArgs where
  name : Vector UInt8 32
  symbol : Vector UInt8 12
  streamingFeeBps : UInt16
  issueFeeBps : UInt16
  redeemFeeBps : UInt16
  maxPremiumBps : UInt16
  rebalanceDelay : UInt32

def initIndex (payer indexMint governor manager feeRecipient : Pubkey) (args : InitArgs) :
    Instruction :=
  let (index, _) := indexPda lib programId indexMint
  { programId
    accounts := [signerRw payer, rw index, ro indexMint, ro governor, ro manager, ro feeRecipient,
      ro lib.systemProgramId]
    data := pack (.initIndex args.name args.symbol args.streamingFeeBps args.issueFeeBps
      args.redeemFeeBps args.maxPremiumBps args.rebalanceDelay) }

def addComponent (manager payer indexMint componentMint : Pubkey) (units : UInt64) :
    Instruction :=
  let (index, _) := indexPda lib programId indexMint
  let (vault, _) := vaultPda lib programId indexMint componentMint
  { programId
    accounts := [signerRo manager, signerRw payer, rw index, ro indexMint, ro componentMint,
      rw vault, ro lib.systemProgramId, ro lib.tokenProgramId]
    data := pack (.addComponent units) }

def sealIndex (manager indexMint : Pubkey) : Instruction :=
  let (index, _) := indexPda lib programId indexMint
  { programId
    accounts := [signerRo manager, rw index, ro indexMint]
    data := pack .sealIndex }

/-- The loop of `issue` and `redeem` over the components, each with the caller's
account for it. -/
def pushPairs (indexMint : Pubkey) (accounts : List AccountMeta)
    (components : List (Pubkey × Pubkey)) : List AccountMeta :=
  components.foldl (fun accounts (mint, userAccount) =>
    (accounts ++ [rw (vaultPda lib programId indexMint mint).1]) ++ [rw userAccount]) accounts

def issue (user indexMint userIndexAta feeAta : Pubkey) (components : List (Pubkey × Pubkey))
    (amount : UInt64) (maxIn : List UInt64) : Instruction :=
  let (index, _) := indexPda lib programId indexMint
  { programId
    accounts := pushPairs lib programId indexMint [signerRo user, rw index, rw indexMint,
      rw userIndexAta, rw feeAta, ro lib.tokenProgramId] components
    data := pack (.issue amount maxIn) }

def redeem (user indexMint userIndexAta feeAta : Pubkey) (components : List (Pubkey × Pubkey))
    (amount : UInt64) (minOut : List UInt64) : Instruction :=
  let (index, _) := indexPda lib programId indexMint
  { programId
    accounts := pushPairs lib programId indexMint [signerRo user, rw index, rw indexMint,
      rw userIndexAta, rw feeAta, ro lib.tokenProgramId] components
    data := pack (.redeem amount minOut) }

/-- The loop over the vaults, which are read (`ro`) or written (`rw`). -/
def pushVaults (access : Pubkey → AccountMeta) (indexMint : Pubkey) (accounts : List AccountMeta)
    (componentMints : List Pubkey) : List AccountMeta :=
  componentMints.foldl (fun accounts mint =>
    accounts ++ [access (vaultPda lib programId indexMint mint).1]) accounts

def accrueFees (indexMint feeAta : Pubkey) (componentMints : List Pubkey) : Instruction :=
  let (index, _) := indexPda lib programId indexMint
  { programId
    accounts := pushVaults lib programId ro indexMint [rw index, rw indexMint, rw feeAta,
      ro lib.tokenProgramId] componentMints
    data := pack .accrueFees }

structure AuctionArgs where
  duration : UInt32
  startPremiumBps : Int16
  endPremiumBps : Int16
  maxNavLossBps : UInt16

def proposeRebalance (manager indexMint : Pubkey) (componentMints : List Pubkey)
    (targetUnits refPricesE9 : List UInt64) (args : AuctionArgs) : Instruction :=
  let (index, _) := indexPda lib programId indexMint
  { programId
    accounts := pushVaults lib programId ro indexMint [signerRo manager, rw index, ro indexMint]
      componentMints
    data := pack (.proposeRebalance targetUnits refPricesE9 args.duration args.startPremiumBps
      args.endPremiumBps args.maxNavLossBps) }

def bid (bidder indexMint : Pubkey) (componentMints : List Pubkey)
    (bidderReceive bidderPay : Pubkey) (sellComponent buyComponent : UInt8)
    (sellAmount maxBuyAmount : UInt64) : Instruction :=
  let (index, _) := indexPda lib programId indexMint
  { programId
    accounts := pushVaults lib programId rw indexMint [signerRo bidder, rw index, ro indexMint,
      rw bidderReceive, rw bidderPay, ro lib.tokenProgramId] componentMints
    data := pack (.bid sellComponent buyComponent sellAmount maxBuyAmount) }

def endRebalance (caller indexMint : Pubkey) (componentMints : List Pubkey) : Instruction :=
  let (index, _) := indexPda lib programId indexMint
  { programId
    accounts := pushVaults lib programId ro indexMint [signerRo caller, rw index, ro indexMint]
      componentMints
    data := pack .endRebalance }

def setParams (governor indexMint : Pubkey)
    (streamingFeeBps issueFeeBps redeemFeeBps maxPremiumBps : UInt16) (rebalanceDelay : UInt32) :
    Instruction :=
  let (index, _) := indexPda lib programId indexMint
  { programId
    accounts := [signerRo governor, rw index, ro indexMint]
    data := pack (.setParams streamingFeeBps issueFeeBps redeemFeeBps maxPremiumBps
      rebalanceDelay) }

def setAuthority (governor indexMint : Pubkey) (role : UInt8) (newAuthority : Pubkey) :
    Instruction :=
  let (index, _) := indexPda lib programId indexMint
  { programId
    accounts := [signerRo governor, rw index, ro indexMint]
    data := pack (.setAuthority role newAuthority) }

def setPaused (caller indexMint : Pubkey) (paused : Bool) : Instruction :=
  let (index, _) := indexPda lib programId indexMint
  { programId
    accounts := [signerRo caller, rw index, ro indexMint]
    data := pack (.setPaused paused) }

/-! ### What the loops append -/

theorem pushPairs_eq (indexMint : Pubkey) (accounts : List AccountMeta)
    (components : List (Pubkey × Pubkey)) :
    pushPairs lib programId indexMint accounts components
      = accounts ++ components.flatMap fun c =>
        [rw (vaultPda lib programId indexMint c.1).1, rw c.2] := by
  unfold pushPairs
  induction components generalizing accounts with
  | nil => exact (List.append_nil accounts).symm
  | cons c components ih =>
    rw [List.foldl_cons, ih, List.flatMap_cons, List.append_assoc, List.append_assoc]
    rfl

theorem pushVaults_eq (access : Pubkey → AccountMeta) (indexMint : Pubkey)
    (accounts : List AccountMeta) (componentMints : List Pubkey) :
    pushVaults lib programId access indexMint accounts componentMints
      = accounts ++ componentMints.map fun mint =>
        access (vaultPda lib programId indexMint mint).1 := by
  unfold pushVaults
  induction componentMints generalizing accounts with
  | nil => exact (List.append_nil accounts).symm
  | cons mint mints ih =>
    rw [List.foldl_cons, ih, List.map_cons, List.append_assoc]
    rfl

end

end Builders

end Flock
