import Flock.State
import Mathlib.Algebra.BigOperators.Group.Finset.Basic

/-!
# What the program runs on

A handler sees accounts by address, the clock, and two programs it calls. The
accounts and the clock are the `World`. The token program, the system program
and the derivation of program addresses are not part of this repository: they
are the fields of `TokenProgram` and `Chain`, and the laws those structures
carry are what the handlers rely on, no more:

* a transfer, a mint or a burn moves exactly its amount or fails, and touches
  only the accounts it names;
* an account that belongs to a program address and has no delegate obeys that
  address only, and a mint whose authority is a program address likewise;
* under the conditions listed in the `_accepts` laws the call goes through;
* program addresses are hashes, and among the addresses in use on the chain no
  two of them collide.
-/

namespace Flock

/-- `spl_token::state::Mint`, the fields the program reads. -/
structure Mint where
  mintAuthority : Option Pubkey
  supply : UInt64
  decimals : UInt8
  freezeAuthority : Option Pubkey
  deriving DecidableEq, Repr

/-- `spl_token::state::Account`, the fields the program or a law reads. -/
structure TokenAccount where
  mint : Pubkey
  owner : Pubkey
  amount : UInt64
  delegate : Option Pubkey
  frozen : Bool
  /-- What the delegate may still move. -/
  delegatedAmount : UInt64 := 0
  deriving DecidableEq, Repr

/-- What an address holds: nothing, space a program was just given, a mint, a
token account, an index record, or anything else. -/
inductive Account where
  | empty
  | allocated (owner : Pubkey)
  | mint (m : Mint)
  | token (t : TokenAccount)
  | index (i : Index)
  | foreign
  deriving DecidableEq, Repr

structure World where
  accounts : Pubkey → Account
  /-- `Clock::unix_timestamp`. -/
  clock : Int64

/-- One entry of an instruction's account list. -/
structure AccountInfo where
  key : Pubkey
  isSigner : Bool
  deriving DecidableEq, Repr

namespace World

def set (w : World) (k : Pubkey) (a : Account) : World :=
  { w with accounts := fun j => if j = k then a else w.accounts j }

def index? (w : World) (k : Pubkey) : Option Index :=
  match w.accounts k with
  | .index i => some i
  | _ => none

def mint? (w : World) (k : Pubkey) : Option Mint :=
  match w.accounts k with
  | .mint m => some m
  | _ => none

def token? (w : World) (k : Pubkey) : Option TokenAccount :=
  match w.accounts k with
  | .token t => some t
  | _ => none

/-- Tokens held at an address, zero where there is no token account. -/
def amount (w : World) (k : Pubkey) : Nat :=
  match w.token? k with
  | some t => t.amount.toNat
  | none => 0

/-- Supply of a mint, zero where there is no mint. -/
def supply (w : World) (m : Pubkey) : Nat :=
  match w.mint? m with
  | some mi => mi.supply.toNat
  | none => 0

/-- Tokens of mint `m` held at an address. -/
def held (w : World) (m k : Pubkey) : Nat :=
  match w.token? k with
  | some t => if t.mint = m then t.amount.toNat else 0
  | none => 0

/-- All the tokens of mint `m` there are in token accounts. -/
noncomputable def total (w : World) (m : Pubkey) : Nat := ∑ k, w.held m k

/-- What the token program maintains for every mint: the holdings of all its
accounts together fit a `u64`, and where the mint still has an authority they
do not exceed the recorded supply. -/
structure Sound (w : World) : Prop where
  fits : ∀ m, w.total m < 2 ^ 64
  minted : ∀ m mi, w.mint? m = some mi → mi.mintAuthority.isSome → w.total m ≤ mi.supply.toNat

end World

/-- The account after a debit left it with `n` tokens: nothing but the amount
changed, except that a delegate may have used of its allowance, or all of it. -/
structure TokenAccount.Becomes (t t' : TokenAccount) (n : Nat) : Prop where
  mint : t'.mint = t.mint
  owner : t'.owner = t.owner
  frozen : t'.frozen = t.frozen
  delegate : t.delegate = none → t'.delegate = none
  amount : t'.amount.toNat = n

/-- The token program, as the program calls it. `mayDebit t a x` says the token
program takes `a` as authority for moving `x` out of `t`, `mayBurn` likewise
for a burn. -/
structure TokenProgram where
  id : Pubkey
  transfer : World → (source destination authority : Pubkey) → UInt64 → Except ProgramError World
  mintTo : World → (mint destination authority : Pubkey) → UInt64 → Except ProgramError World
  burn : World → (account mint authority : Pubkey) → UInt64 → Except ProgramError World
  initializeAccount3 : World → (account mint owner : Pubkey) → Except ProgramError World
  mayDebit : TokenAccount → Pubkey → UInt64 → Bool
  mayBurn : TokenAccount → Pubkey → UInt64 → Bool
  transfer_ok : ∀ {w s d a x w'}, transfer w s d a x = .ok w' →
    ∃ ts td, w.token? s = some ts ∧ w.token? d = some td ∧ ts.mint = td.mint ∧
      mayDebit ts a x = true ∧ x.toNat ≤ ts.amount.toNat ∧
      (s = d → w' = w) ∧
      (s ≠ d → ∃ ts' n, ts.Becomes ts' (ts.amount.toNat - x.toNat) ∧
        n.toNat = td.amount.toNat + x.toNat ∧
        w' = (w.set s (.token ts')).set d (.token { td with amount := n }))
  mintTo_ok : ∀ {w m d a x w'}, mintTo w m d a x = .ok w' →
    ∃ mi t supply n, w.mint? m = some mi ∧ w.token? d = some t ∧ t.mint = m ∧
      mi.mintAuthority = some a ∧ supply.toNat = mi.supply.toNat + x.toNat ∧
      n.toNat = t.amount.toNat + x.toNat ∧
      w' = (w.set m (.mint { mi with supply := supply })).set d (.token { t with amount := n })
  burn_ok : ∀ {w s m a x w'}, burn w s m a x = .ok w' →
    ∃ mi t supply t', w.mint? m = some mi ∧ w.token? s = some t ∧ t.mint = m ∧
      mayBurn t a x = true ∧ x.toNat ≤ t.amount.toNat ∧
      supply.toNat + x.toNat = mi.supply.toNat ∧
      t.Becomes t' (t.amount.toNat - x.toNat) ∧
      w' = (w.set m (.mint { mi with supply := supply })).set s (.token t')
  initializeAccount3_ok : ∀ {w k m o w'}, initializeAccount3 w k m o = .ok w' →
    w.accounts k = .allocated id ∧ (∃ mi, w.mint? m = some mi) ∧
      w' = w.set k (.token { mint := m, owner := o, amount := 0, delegate := none, frozen := false })
  transfer_accepts : ∀ {w s d a} {x : UInt64} {ts td}, w.token? s = some ts →
    w.token? d = some td → ts.mint = td.mint → mayDebit ts a x = true → ts.frozen = false →
    td.frozen = false → x.toNat ≤ ts.amount.toNat →
    (s ≠ d → td.amount.toNat + x.toNat < 2 ^ 64) → Outcome.Succeeds (transfer w s d a x)
  mintTo_accepts : ∀ {w m d a} {x : UInt64} {mi t}, w.mint? m = some mi →
    w.token? d = some t → t.mint = m → mi.mintAuthority = some a → t.frozen = false →
    mi.supply.toNat + x.toNat < 2 ^ 64 → t.amount.toNat + x.toNat < 2 ^ 64 →
    Outcome.Succeeds (mintTo w m d a x)
  burn_accepts : ∀ {w s m a} {x : UInt64} {mi t}, w.mint? m = some mi →
    w.token? s = some t → t.mint = m → mayBurn t a x = true → t.frozen = false →
    x.toNat ≤ t.amount.toNat → x.toNat ≤ mi.supply.toNat → Outcome.Succeeds (burn w s m a x)
  /-- An owner needs nobody's leave, unless it made itself its own delegate. -/
  owner_mayDebit : ∀ {t x}, t.delegate ≠ some t.owner → mayDebit t t.owner x = true
  owner_mayBurn : ∀ {t x}, t.delegate ≠ some t.owner → mayBurn t t.owner x = true
  /-- Who may act on an account does not depend on what it holds. -/
  mayBurn_amount : ∀ {t a x n}, mayBurn { t with amount := n } a x = mayBurn t a x

/-- A seed of a program address: an ASCII label or the bytes of a key. -/
inductive Seed where
  | ascii (text : String)
  | key (k : Pubkey)
  deriving DecidableEq, Repr

def seedIndex : Seed := .ascii "index"
def seedVault : Seed := .ascii "vault"

/-- The chain a deployment of the program runs on. -/
structure Chain where
  token : TokenProgram
  systemProgramId : Pubkey
  /-- `Pubkey::find_program_address` for the deployed program id. -/
  findProgramAddress : List Seed → Pubkey × UInt8
  /-- `system_instruction::create_account`, granting the new account to `owner`. -/
  createAccount : World → (payer key owner : Pubkey) → Except ProgramError World
  programId : Pubkey
  /-- The addresses anybody has ever used. -/
  inUse : Pubkey → Prop
  createAccount_ok : ∀ {w p k o w'}, createAccount w p k o = .ok w' →
    w.accounts k = .empty ∧ w' = w.set k (.allocated o)
  /-- Index addresses of different mints in use do not collide. -/
  index_inj : ∀ {m m'}, inUse m → inUse m' → (findProgramAddress [seedIndex, .key m]).1 =
    (findProgramAddress [seedIndex, .key m']).1 → m = m'
  /-- The token program lets only the owner at an account that has no delegate
  and belongs to an index address. -/
  pda_debit : ∀ {m t a x}, inUse m → t.owner = (findProgramAddress [seedIndex, .key m]).1 →
    t.delegate = none → token.mayDebit t a x = true → a = t.owner
  pda_burn : ∀ {m t a x}, inUse m → t.owner = (findProgramAddress [seedIndex, .key m]).1 →
    t.delegate = none → token.mayBurn t a x = true → a = t.owner

namespace Chain

def indexPda (ch : Chain) (indexMint : Pubkey) : Pubkey × UInt8 :=
  ch.findProgramAddress [seedIndex, .key indexMint]

def vaultPda (ch : Chain) (indexMint componentMint : Pubkey) : Pubkey × UInt8 :=
  ch.findProgramAddress [seedVault, .key indexMint, .key componentMint]

/-- Address of the index record of a mint. -/
def indexKey (ch : Chain) (m : Pubkey) : Pubkey := (ch.indexPda m).1

/-- Address of the vault of a component. -/
def vaultKey (ch : Chain) (m c : Pubkey) : Pubkey := (ch.vaultPda m c).1

theorem indexKey_inj (ch : Chain) {m m' : Pubkey} (hm : ch.inUse m) (hm' : ch.inUse m')
    (h : ch.indexKey m = ch.indexKey m') : m = m' :=
  ch.index_inj hm hm' h

end Chain

end Flock
