import Flock.Create
import Flock.Lib.Footprint

/-!
# Transactions side by side

`instruction.rs` lists the accounts of every instruction and says which of them are writable;
the runtime lets transactions run side by side when neither writes an account of the other.
`FlockInstruction.writable` is the writable part of that list. A handler reads only accounts it
was passed and changes only accounts that are listed as writable (`process_together`), and both
sides' builders mark just those (`accounts_as_listed`).

So what is sent to the program for different funds, from different accounts, may be interleaved
in any way: everybody gets the answers and the accounts they would get alone
(`transactions_in_any_order`).

Notes on the source:
- The other programs are not in the repository. That they see no account they are not
  passed, and change none but those of the call, is `Chain.AnswersFrom` and a law of `Chain`.
- The runtime runs transactions side by side; here they take turns, in any order. A
  transaction that fails leaves the accounts as they were.
- A record changes hands as a value: a handler that borrows it twice in the source reads
  it twice here.
-/

namespace Flock

open Outcome Footprint

/-- The accounts `instruction.rs` lists as `[writable]`, by their position. -/
def FlockInstruction.writable : FlockInstruction → Nat → Bool
  | .initIndex .., i => i = 0 || i = 1
  | .addComponent _, i => i = 1 || i = 2 || i = 5
  | .sealIndex, i => i = 1
  | .issue .., i => 1 ≤ i && i ≤ 4 || 6 ≤ i
  | .redeem .., i => 1 ≤ i && i ≤ 4 || 6 ≤ i
  | .accrueFees, i => i ≤ 2
  | .proposeRebalance .., i => i = 1
  | .bid .., i => i = 1 || i = 3 || i = 4 || 6 ≤ i
  | .endRebalance, i => i = 1
  | .setParams .., i => i = 1
  | .setAuthority .., i => i = 1
  | .setPaused _, i => i = 1

/-- What is at the keys, in what a call returned. -/
def leftAt (keys : List Pubkey) (x : Except ProgramError World) :
    Except ProgramError (List Account) :=
  x.map fun w => keys.map w.accounts

/-- Nothing tells the two worlds apart for who sees the clock and the accounts of `R`. -/
def World.Matches (v : World) (R : Set Pubkey) (w : World) : Prop :=
  v.clock = w.clock ∧ Set.EqOn v.accounts w.accounts R

/-- What a call leaves at the accounts it may write is a matter of what stands in `R`, if the
accounts it is passed are in `R`. -/
structure Chain.AnswersFrom (ch : Chain) (R : Set Pubkey) : Prop where
  transfer : ∀ {w v : World} {s d a x}, v.Matches R w → s ∈ R → d ∈ R → a ∈ R →
    leftAt [s, d] (ch.token.transfer v s d a x) = leftAt [s, d] (ch.token.transfer w s d a x)
  mintTo : ∀ {w v : World} {m d a x}, v.Matches R w → m ∈ R → d ∈ R → a ∈ R →
    leftAt [m, d] (ch.token.mintTo v m d a x) = leftAt [m, d] (ch.token.mintTo w m d a x)
  burn : ∀ {w v : World} {s m a x}, v.Matches R w → s ∈ R → m ∈ R → a ∈ R →
    leftAt [m, s] (ch.token.burn v s m a x) = leftAt [m, s] (ch.token.burn w s m a x)
  initializeAccount3 : ∀ {w v : World} {k m o}, v.Matches R w → k ∈ R → m ∈ R →
    leftAt [k] (ch.token.initializeAccount3 v k m o)
      = leftAt [k] (ch.token.initializeAccount3 w k m o)
  createAccount : ∀ {w v : World} {p k o}, v.Matches R w → p ∈ R → k ∈ R →
    leftAt [k] (ch.createAccount v p k o) = leftAt [k] (ch.createAccount w p k o)

/-- The other programs see the accounts they are passed, and nothing else. -/
def Chain.Local (ch : Chain) : Prop := ∀ R, ch.AnswersFrom R

/-- `w` and `v` agree on `R`, and since `w₀` and `v₀` only keys of `W` were written. -/
structure Beside (R W : Set Pubkey) (w₀ v₀ w v : World) : Prop where
  clock : v.clock = w.clock
  agree : Set.EqOn v.accounts w.accounts R
  left : Set.EqOn w.accounts w₀.accounts Wᶜ
  right : Set.EqOn v.accounts v₀.accounts Wᶜ

section

variable {ch : Chain} {R W : Set Pubkey} {w₀ v₀ w v w' : World}

/-- What holds of both holds of each in the pair. -/
theorem forall_mem_pair {α : Type} {p : α → Prop} {a b : α} (ha : p a) (hb : p b) :
    ∀ k ∈ [a, b], p k :=
  List.forall_mem_cons.mpr ⟨ha, List.forall_mem_singleton.mpr hb⟩

/-! ## What stays -/

namespace World

/-- Of `w` nothing changed but the accounts at these keys. -/
def Off (w' : World) (keys : List Pubkey) (w : World) : Prop :=
  w'.clock = w.clock ∧ ∀ k ∉ keys, w'.accounts k = w.accounts k

/-- Writing one account leaves the others. -/
theorem off_set (w : World) (k : Pubkey) (a : Account) : (w.set k a).Off [k] w :=
  ⟨rfl, fun _ hj => if_neg fun he => hj (List.mem_singleton.mpr he)⟩

/-- Writing two accounts leaves the others. -/
theorem off_set_set (w : World) (j k : Pubkey) (a b : Account) :
    ((w.set j a).set k b).Off [j, k] w := by
  refine ⟨rfl, fun i hi => ?_⟩
  rw [List.mem_cons, List.mem_singleton, not_or] at hi
  exact (if_neg hi.2).trans (if_neg hi.1)

end World

/-- A transfer touches its two accounts only. -/
theorem transfer_off {s d a : Pubkey} {x : UInt64} (h : ch.token.transfer w s d a x = .ok w') :
    w'.Off [s, d] w := by
  obtain ⟨ts, td, -, -, -, -, -, hself, hmoved⟩ := ch.token.transfer_ok h
  by_cases hsd : s = d
  · rw [hself hsd]
    exact ⟨rfl, fun _ _ => rfl⟩
  · obtain ⟨ts', n, -, -, rfl⟩ := hmoved hsd
    exact w.off_set_set ..

/-- Minting touches the mint and the destination only. -/
theorem mintTo_off {m d a : Pubkey} {x : UInt64} (h : ch.token.mintTo w m d a x = .ok w') :
    w'.Off [m, d] w := by
  obtain ⟨mi, t, supply, n, -, -, -, -, -, -, rfl⟩ := ch.token.mintTo_ok h
  exact w.off_set_set ..

/-- Burning touches the mint and the source only. -/
theorem burn_off {s m a : Pubkey} {x : UInt64} (h : ch.token.burn w s m a x = .ok w') :
    w'.Off [m, s] w := by
  obtain ⟨mi, t, supply, t', -, -, -, -, -, -, -, rfl⟩ := ch.token.burn_ok h
  exact w.off_set_set ..

/-- Initialising touches the new account only. -/
theorem initializeAccount3_off {k m o : Pubkey}
    (h : ch.token.initializeAccount3 w k m o = .ok w') : w'.Off [k] w := by
  obtain ⟨-, -, rfl⟩ := ch.token.initializeAccount3_ok h
  exact w.off_set ..

/-- Creating touches the new account only, since lamports are left out. -/
theorem createAccount_off {p k o : Pubkey} (h : ch.createAccount w p k o = .ok w') :
    w'.Off [k] w := by
  obtain ⟨-, rfl⟩ := ch.createAccount_ok h
  exact w.off_set ..

/-- Who sees everything is told everything. -/
theorem Chain.answersFrom_univ (ch : Chain) : ch.AnswersFrom Set.univ := by
  have heq : ∀ {w v : World}, v.Matches Set.univ w → v = w := by
    intro w v h
    cases w
    cases v
    obtain ⟨hclock, haccounts⟩ := h
    rw [World.mk.injEq]
    exact ⟨funext fun k => haccounts (Set.mem_univ k), hclock⟩
  constructor
  case transfer => intro w v _ _ _ _ h _ _ _; rw [heq h]
  case mintTo => intro w v _ _ _ _ h _ _ _; rw [heq h]
  case burn => intro w v _ _ _ _ h _ _ _; rw [heq h]
  case initializeAccount3 => intro w v _ _ _ h _ _; rw [heq h]
  case createAccount => intro w v _ _ _ h _ _; rw [heq h]

/-! ## Reads -/

namespace Beside

variable {info : AccountInfo}

/-- Both sides see the same clock and the same accounts of `R`. -/
theorem same (h : Beside R W w₀ v₀ w v) : v.Matches R w := ⟨h.clock, h.agree⟩

/-- A record in `R` is read alike on both sides. -/
theorem index? (h : Beside R W w₀ v₀ w v) {k : Pubkey} (hk : k ∈ R) : v.index? k = w.index? k := by
  unfold World.index?
  rw [h.agree hk]

/-- A mint in `R` is read alike on both sides. -/
theorem mint? (h : Beside R W w₀ v₀ w v) {k : Pubkey} (hk : k ∈ R) : v.mint? k = w.mint? k := by
  unfold World.mint?
  rw [h.agree hk]

/-- A token account in `R` is read alike on both sides. -/
theorem token? (h : Beside R W w₀ v₀ w v) {k : Pubkey} (hk : k ∈ R) : v.token? k = w.token? k := by
  unfold World.token?
  rw [h.agree hk]

/-- `index_ref` finds the same, or refuses the same way. -/
theorem indexRef (h : Beside R W w₀ v₀ w v) (hk : info.key ∈ R) :
    indexRef v info = indexRef w info := by
  unfold Flock.indexRef
  rw [h.index? hk]

/-- `read_mint` finds the same, or refuses the same way. -/
theorem readMint (h : Beside R W w₀ v₀ w v) (hk : info.key ∈ R) :
    readMint v info = readMint w info := by
  unfold Flock.readMint
  rw [h.mint? hk]

/-- `require_token_account` sees the account only. -/
theorem requireTokenAccount (h : Beside R W w₀ v₀ w v) (hk : info.key ∈ R) (mint owner : Pubkey) :
    requireTokenAccount v info mint owner = requireTokenAccount w info mint owner := by
  unfold Flock.requireTokenAccount readTokenAccount
  rw [h.token? hk]

/-- The check of the mint alone sees the account only. -/
theorem requireTokenAccountOfMint (h : Beside R W w₀ v₀ w v) (hk : info.key ∈ R) (mint : Pubkey) :
    requireTokenAccountOfMint v info mint = requireTokenAccountOfMint w info mint := by
  unfold Flock.requireTokenAccountOfMint readTokenAccount
  rw [h.token? hk]

/-- Vault by vault the check sees the vaults only. -/
theorem verifyEach (h : Beside R W w₀ v₀ w v) (indexKey indexMint : Pubkey)
    (components : List Component) {vaults : List AccountInfo} (hvaults : ∀ a ∈ vaults, a.key ∈ R) :
    verifyEach ch v indexKey indexMint components vaults
      = verifyEach ch w indexKey indexMint components vaults := by
  induction components generalizing vaults with
  | nil => rfl
  | cons c components ih =>
    cases vaults with
    | nil => rfl
    | cons vault vaults =>
      unfold Flock.verifyEach
      rw [h.requireTokenAccount (hvaults _ (List.mem_cons_self ..)),
        ih fun a ha => hvaults a (List.mem_cons_of_mem _ ha)]

/-- `verify_vaults` sees the record and the vaults only. -/
theorem verifyVaults (h : Beside R W w₀ v₀ w v) (hk : info.key ∈ R) (indexMint : Pubkey)
    {vaults : List AccountInfo} (hvaults : ∀ a ∈ vaults, a.key ∈ R) :
    verifyVaults ch v info indexMint vaults = verifyVaults ch w info indexMint vaults := by
  unfold Flock.verifyVaults
  rw [h.indexRef hk]
  refine bind_congr fun idx => ?_
  rw [h.verifyEach _ _ _ hvaults]

/-- The NAV is one of the record and of the balances handed in. -/
theorem navE6 (h : Beside R W w₀ v₀ w v) (hk : info.key ∈ R) (balances : List UInt64) :
    navE6 v info balances = navE6 w info balances := by
  unfold Flock.navE6
  rw [h.indexRef hk]

/-- An entry of the table is one of the record. -/
theorem componentAt (h : Beside R W w₀ v₀ w v) (hk : info.key ∈ R) (i : Nat) :
    componentAt v info i = componentAt w info i := by
  unfold Flock.componentAt
  rw [h.indexRef hk]

/-! ## Writes -/

/-- Before anything is written, two sides that match stand beside each other. -/
theorem refl (h : v.Matches R w) : Beside R W w v w v :=
  ⟨h.1, h.2, Set.eqOn_refl _ _, Set.eqOn_refl _ _⟩

/-- Both worlds go on, and the same comes to stand at the keys they write. -/
theorem write (h : Beside R W w₀ v₀ w v) {w' v' : World} {keys : List Pubkey}
    (hkeys : ∀ k ∈ keys, k ∈ W) (hw : w'.Off keys w) (hv : v'.Off keys v)
    (hsame : ∀ k ∈ keys, v'.accounts k = w'.accounts k) : Beside R W w₀ v₀ w' v' where
  clock := hv.1.trans (h.clock.trans hw.1.symm)
  agree := by
    intro k hk
    by_cases hmem : k ∈ keys
    · exact hsame k hmem
    · exact (hv.2 k hmem).trans ((h.agree hk).trans (hw.2 k hmem).symm)
  left := by
    intro k hk
    exact (hw.2 k fun hmem => hk (hkeys k hmem)).trans (h.left hk)
  right := by
    intro k hk
    exact (hv.2 k fun hmem => hk (hkeys k hmem)).trans (h.right hk)

/-- The same record written to both sides keeps them beside each other. -/
theorem setIndex (h : Beside R W w₀ v₀ w v) {k : Pubkey} (hk : k ∈ W) (idx : Index) :
    Beside R W w₀ v₀ (w.setIndex k idx) (v.setIndex k idx) := by
  refine h.write (List.forall_mem_singleton.mpr hk) (World.off_set w _ _) (World.off_set v _ _) ?_
  refine List.forall_mem_singleton.mpr ?_
  exact (if_pos rfl).trans (if_pos rfl).symm

/-- A call of another program. -/
theorem call (h : Beside R W w₀ v₀ w v) {x y : Except ProgramError World} {keys : List Pubkey}
    (hkeys : ∀ k ∈ keys, k ∈ W) (hx : ∀ {w'}, x = .ok w' → w'.Off keys w)
    (hy : ∀ {v'}, y = .ok v' → v'.Off keys v) (hsame : leftAt keys y = leftAt keys x) :
    Together (Beside R W w₀ v₀) x y := by
  unfold leftAt at hsame
  cases x with
  | error e =>
    cases y with
    | error e' =>
      obtain rfl := Except.error.inj hsame
      exact .error e'
    | ok v' => cases hsame
  | ok w' =>
    cases y with
    | error e' => cases hsame
    | ok v' =>
      refine .ok (h.write hkeys (hx rfl) (hy rfl) ?_)
      exact List.map_inj_left.mp (Except.ok.inj hsame)

end Beside

/-! ## Calls of other programs -/

section Calls

variable (hl : ch.AnswersFrom R) (h : Beside R W w₀ v₀ w v)

include hl h

/-- The same transfer does the same on both sides: both fail alike, or both go on beside each
other. -/
theorem transfer_together {s d a : Pubkey} (x : UInt64) (hs : s ∈ R ∩ W) (hd : d ∈ R ∩ W)
    (ha : a ∈ R) :
    Together (Beside R W w₀ v₀) (ch.token.transfer w s d a x) (ch.token.transfer v s d a x) :=
  h.call (forall_mem_pair hs.2 hd.2) transfer_off transfer_off
    (hl.transfer h.same hs.1 hd.1 ha)

/-- The same minting does the same on both sides. -/
theorem mintTo_together {m d a : Pubkey} (x : UInt64) (hm : m ∈ R ∩ W) (hd : d ∈ R ∩ W)
    (ha : a ∈ R) :
    Together (Beside R W w₀ v₀) (ch.token.mintTo w m d a x) (ch.token.mintTo v m d a x) :=
  h.call (forall_mem_pair hm.2 hd.2) mintTo_off mintTo_off (hl.mintTo h.same hm.1 hd.1 ha)

/-- The same burning does the same on both sides. -/
theorem burn_together {s m a : Pubkey} (x : UInt64) (hs : s ∈ R ∩ W) (hm : m ∈ R ∩ W)
    (ha : a ∈ R) :
    Together (Beside R W w₀ v₀) (ch.token.burn w s m a x) (ch.token.burn v s m a x) :=
  h.call (forall_mem_pair hm.2 hs.2) burn_off burn_off (hl.burn h.same hs.1 hm.1 ha)

/-- The same initialising does the same on both sides. -/
theorem initializeAccount3_together {k m o : Pubkey} (hk : k ∈ R ∩ W) (hm : m ∈ R) :
    Together (Beside R W w₀ v₀) (ch.token.initializeAccount3 w k m o)
      (ch.token.initializeAccount3 v k m o) :=
  h.call (List.forall_mem_singleton.mpr hk.2) initializeAccount3_off initializeAccount3_off
    (hl.initializeAccount3 h.same hk.1 hm)

/-- The same creating does the same on both sides. -/
theorem createAccount_together {p k o : Pubkey} (hp : p ∈ R) (hk : k ∈ R ∩ W) :
    Together (Beside R W w₀ v₀) (ch.createAccount w p k o) (ch.createAccount v p k o) :=
  h.call (List.forall_mem_singleton.mpr hk.2) createAccount_off createAccount_off
    (hl.createAccount h.same hp hk.1)

/-! ## The shared helpers -/

variable {indexInfo indexMintInfo feeAta user : AccountInfo}

/-- Paying into a vault reads the user and writes the two accounts. -/
theorem transferFromUser_together {source vault : AccountInfo} (amount : UInt64)
    (hs : source.key ∈ R ∩ W) (hv : vault.key ∈ R ∩ W) (hu : user.key ∈ R) :
    Together (Beside R W w₀ v₀) (transferFromUser ch w source vault user amount)
      (transferFromUser ch v source vault user amount) :=
  .ite (fun _ => .pure h) fun _ => transfer_together hl h amount hs hv hu

/-- Paying out of a vault reads the index and writes the two accounts. -/
theorem transferFromVault_together {vault recipient : AccountInfo} (amount : UInt64)
    (hv : vault.key ∈ R ∩ W) (hr : recipient.key ∈ R ∩ W) (hi : indexInfo.key ∈ R) :
    Together (Beside R W w₀ v₀) (transferFromVault ch w vault recipient indexInfo amount)
      (transferFromVault ch v vault recipient indexInfo amount) :=
  .ite (fun _ => .pure h) fun _ => transfer_together hl h amount hv hr hi

/-- Index tokens are minted with the authority of the index and into one account. -/
theorem mintIndexTokens_together {recipient : AccountInfo} (amount : UInt64)
    (hm : indexMintInfo.key ∈ R ∩ W) (hr : recipient.key ∈ R ∩ W) (hi : indexInfo.key ∈ R) :
    Together (Beside R W w₀ v₀) (mintIndexTokens ch w indexMintInfo recipient indexInfo amount)
      (mintIndexTokens ch v indexMintInfo recipient indexInfo amount) :=
  .ite (fun _ => .pure h) fun _ => mintTo_together hl h amount hm hr hi

/-- An accrual owes the same fee on both sides and pays it alike. -/
theorem accrue_together (now : Int64) (hi : indexInfo.key ∈ R ∩ W)
    (hm : indexMintInfo.key ∈ R ∩ W) (hf : feeAta.key ∈ R ∩ W) :
    Together (fun p q => p.1 = q.1 ∧ Beside R W w₀ v₀ p.2 q.2)
      (accrue ch w indexInfo indexMintInfo feeAta now)
      (accrue ch v indexInfo indexMintInfo feeAta now) := by
  unfold accrue
  rw [h.indexRef hi.1]
  refine .read fun idx _ => ?_
  rw [h.readMint hm.1]
  refine .read fun mint _ => .read fun owed _ => ?_
  have h' := h.setIndex hi.2 { idx with lastFeeAccrual := now }
  refine .ite (fun _ => .pure ⟨rfl, h'⟩) fun _ => ?_
  rw [h'.requireTokenAccount hf.1]
  refine .read fun _ _ => ?_
  refine (mintIndexTokens_together hl h' owed hm hf hi.1).bind fun w₁ v₁ h₁ => ?_
  exact .pure ⟨rfl, h₁⟩

/-- A trade fee is minted alike, or there is none on either side. -/
theorem mintFee_together (feeTokens : UInt64) (hi : indexInfo.key ∈ R)
    (hm : indexMintInfo.key ∈ R ∩ W) (hf : feeAta.key ∈ R ∩ W) :
    Together (Beside R W w₀ v₀) (mintFee ch w indexInfo indexMintInfo feeAta feeTokens)
      (mintFee ch v indexInfo indexMintInfo feeAta feeTokens) := by
  refine .ite (fun _ => ?_) fun _ => .pure h
  rw [h.indexRef hi]
  refine .read fun idx _ => ?_
  dsimp only
  rw [h.requireTokenAccount hf.1]
  exact .read fun _ _ => mintIndexTokens_together hl h feeTokens hm hf hi

/-- The deliveries of an issue, by induction on the accounts that are left. -/
theorem issueLoop_together (gross : UInt64) (i : Nat) (maxIn : List UInt64)
    {accounts : List (AccountInfo × AccountInfo)} (hi : indexInfo.key ∈ R) (hu : user.key ∈ R)
    (hpairs : ∀ p ∈ accounts, p.1.key ∈ R ∩ W ∧ p.2.key ∈ R ∩ W) :
    Together (Beside R W w₀ v₀) (issueLoop ch user indexInfo gross w i maxIn accounts)
      (issueLoop ch user indexInfo gross v i maxIn accounts) := by
  induction maxIn generalizing w v i accounts with
  | nil => exact .pure h
  | cons limit maxIn ih =>
    cases accounts with
    | nil => exact .pure h
    | cons pair accounts =>
      obtain ⟨hv, hs⟩ := hpairs pair (List.mem_cons_self ..)
      unfold issueLoop
      rw [h.componentAt hi]
      refine .read fun component _ => .read fun required _ => .read fun _ _ => ?_
      rw [h.requireTokenAccountOfMint hs.1]
      refine .read fun _ _ => ?_
      refine (transferFromUser_together hl h required hs hv hu).bind fun w₁ v₁ h₁ => ?_
      exact ih h₁ _ fun p hp => hpairs p (List.mem_cons_of_mem _ hp)

/-- The payouts of a redemption, by induction on the accounts that are left. -/
theorem redeemLoop_together (net : UInt64) (i : Nat) (minOut : List UInt64)
    {accounts : List (AccountInfo × AccountInfo)} (hi : indexInfo.key ∈ R)
    (hpairs : ∀ p ∈ accounts, p.1.key ∈ R ∩ W ∧ p.2.key ∈ R ∩ W) :
    Together (Beside R W w₀ v₀) (redeemLoop ch indexInfo net w i minOut accounts)
      (redeemLoop ch indexInfo net v i minOut accounts) := by
  induction minOut generalizing w v i accounts with
  | nil => exact .pure h
  | cons limit minOut ih =>
    cases accounts with
    | nil => exact .pure h
    | cons pair accounts =>
      obtain ⟨hv, hr⟩ := hpairs pair (List.mem_cons_self ..)
      unfold redeemLoop
      rw [h.componentAt hi]
      refine .read fun component _ => .read fun payout _ => .read fun _ _ => ?_
      rw [h.requireTokenAccountOfMint hr.1]
      refine .read fun _ _ => ?_
      refine (transferFromVault_together hl h payout hv hr hi).bind fun w₁ v₁ h₁ => ?_
      exact ih h₁ _ fun p hp => hpairs p (List.mem_cons_of_mem _ hp)

end Calls

/-- The units are set from the balances handed in and the record. -/
theorem Beside.syncUnits {info : AccountInfo} (h : Beside R W w₀ v₀ w v) (hi : info.key ∈ R ∩ W)
    (balances : List UInt64) (supply : UInt64) :
    Together (Beside R W w₀ v₀) (syncUnits w info balances supply)
      (syncUnits v info balances supply) := by
  refine .ite (fun _ => .pure h) fun _ => ?_
  rw [h.indexRef hi.1]
  exact .read fun idx _ => .read fun components _ => .pure (h.setIndex hi.2 _)

/-- Balances and supply are read back, and the units set from them. -/
theorem Beside.resync {indexInfo indexMintInfo : AccountInfo} {vaults : List AccountInfo}
    (h : Beside R W w₀ v₀ w v) (hi : indexInfo.key ∈ R ∩ W) (hm : indexMintInfo.key ∈ R)
    (hvaults : ∀ a ∈ vaults, a.key ∈ R) :
    Together (Beside R W w₀ v₀) (resync ch w indexInfo indexMintInfo vaults)
      (resync ch v indexInfo indexMintInfo vaults) := by
  unfold Flock.resync
  rw [h.verifyVaults hi.1 _ hvaults]
  refine .read fun balances _ => ?_
  rw [h.readMint hm]
  exact .read fun mint _ => h.syncUnits hi balances _

/-! ## The handlers -/

/-- The accounts of an instruction are all read, and the writable ones written. -/
structure Passed (ix : FlockInstruction) (accounts : List AccountInfo) (R W : Set Pubkey) :
    Prop where
  reads : ∀ {a}, a ∈ accounts → a.key ∈ R
  writes : ∀ {i a}, accounts[i]? = some a → ix.writable i = true → a.key ∈ W

variable {accounts : List AccountInfo} {ix : FlockInstruction}

/-- An account that was passed may be read. -/
theorem Passed.read (h : Passed ix accounts R W) {i : Nat} {a : AccountInfo}
    (ha : accounts[i]? = some a) : a.key ∈ R := h.reads (List.mem_of_getElem? ha)

/-- An account at a position listed as writable may be written. -/
theorem Passed.write (h : Passed ix accounts R W) {i : Nat} {a : AccountInfo}
    (ha : accounts[i]? = some a) (hi : ix.writable i = true) : a.key ∈ R ∩ W :=
  ⟨h.read ha, h.writes ha hi⟩

/-- The accounts behind the fixed ones may be read. -/
theorem Passed.rest (h : Passed ix accounts R W) (n : Nat) : ∀ a ∈ accounts.drop n, a.key ∈ R :=
  fun _ ha => h.reads (List.mem_of_mem_drop ha)

/-- The accounts behind the fixed ones may be written, if their positions are listed. -/
theorem Passed.writeRest (h : Passed ix accounts R W) (n : Nat)
    (hw : ∀ i, ix.writable (n + i) = true) : ∀ a ∈ accounts.drop n, a.key ∈ R ∩ W := by
  intro a ha
  obtain ⟨i, hi⟩ := List.mem_iff_getElem?.mp ha
  rw [List.getElem?_drop] at hi
  exact h.write hi (hw i)

/-- Both accounts of a pair were passed. -/
theorem mem_of_mem_pairs {rest : List AccountInfo} {p : AccountInfo × AccountInfo}
    (h : p ∈ pairs rest) : p.1 ∈ rest ∧ p.2 ∈ rest := by
  fun_induction pairs rest with
  | case1 a b rest ih =>
    rcases List.mem_cons.mp h with rfl | h
    · exact ⟨List.mem_cons_self .., List.mem_cons_of_mem _ (List.mem_cons_self ..)⟩
    · obtain ⟨h1, h2⟩ := ih h
      exact ⟨List.mem_cons_of_mem _ (List.mem_cons_of_mem _ h1),
        List.mem_cons_of_mem _ (List.mem_cons_of_mem _ h2)⟩
  | case2 => cases h

/-- Pairs from the tail of the list, all of it writable. -/
theorem Passed.pairs (h : Passed ix accounts R W) (n : Nat)
    (hw : ∀ i, ix.writable (n + i) = true) :
    ∀ p ∈ pairs (accounts.drop n), p.1.key ∈ R ∩ W ∧ p.2.key ∈ R ∩ W := by
  intro p hp
  obtain ⟨h1, h2⟩ := mem_of_mem_pairs hp
  exact ⟨h.writeRest n hw _ h1, h.writeRest n hw _ h2⟩

/-- The vaults, first of each pair, may be read. -/
theorem Passed.vaults (h : Passed ix accounts R W) (n : Nat) :
    ∀ a ∈ (Flock.pairs (accounts.drop n)).map Prod.fst, a.key ∈ R := by
  intro a ha
  obtain ⟨p, hp, rfl⟩ := List.mem_map.mp ha
  exact h.rest n _ (mem_of_mem_pairs hp).1

section Handlers

variable (hl : ch.AnswersFrom R) (h : Beside R W w₀ v₀ w v)

include hl h

/-- `init_index` on both sides. -/
theorem initIndex_together {p : InitParams} (hp : Passed ix accounts R W)
    (hix : ix.writable 1 = true) :
    Together (Beside R W w₀ v₀) (initIndex ch w accounts p) (initIndex ch v accounts p) := by
  unfold initIndex
  split
  next payer indexInfo indexMintInfo governor manager feeRecipient systemProgram rest =>
    have hi := hp.write (i := 1) rfl hix
    have hm := hp.read (i := 2) rfl
    refine .read fun _ _ => .read fun _ _ => .read fun _ _ => ?_
    refine .read fun _ hkey => ?_
    have hcreated := hi
    rw [not_not.mp (failIf_ok_iff.mp hkey)] at hcreated
    rw [h.agree hi.1]
    refine .read fun _ _ => ?_
    rw [h.readMint hm]
    refine .read fun mint _ => .read fun _ _ => ?_
    refine (createAccount_together hl h (hp.read (i := 0) rfl) hcreated).bind fun w₁ v₁ h₁ => ?_
    rw [h₁.clock]
    exact .pure (h₁.setIndex hi.2 _)
  next => exact .error _

/-- `add_component` on both sides. -/
theorem addComponent_together {units : UInt64}
    (hp : Passed (.addComponent units) accounts R W) :
    Together (Beside R W w₀ v₀) (addComponent ch w accounts units)
      (addComponent ch v accounts units) := by
  unfold addComponent
  split
  next manager payer indexInfo indexMintInfo componentMintInfo vaultInfo systemProgram
      tokenProgram rest =>
    have hi := hp.write (i := 2) rfl rfl
    have hc := hp.read (i := 4) rfl
    have hvault := hp.write (i := 5) rfl rfl
    refine .read fun _ _ => .read fun _ _ => .read fun _ _ => .read fun _ _ => ?_
    refine .read fun _ _ => .read fun _ _ => ?_
    rw [h.indexRef hi.1]
    refine .read fun idx _ => .read fun _ _ => .read fun _ _ => .read fun _ _ => ?_
    refine .read fun _ _ => ?_
    rw [h.readMint hc]
    refine .read fun mint _ => .read fun _ hkey => ?_
    rw [not_not.mp (failIf_ok_iff.mp hkey)] at hvault
    refine (createAccount_together hl h (hp.read (i := 1) rfl) hvault).bind fun w₁ v₁ h₁ => ?_
    refine (initializeAccount3_together hl h₁ hvault hc).bind fun w₂ v₂ h₂ => ?_
    rw [h₂.indexRef hi.1]
    exact .read fun idx _ => .pure (h₂.setIndex hi.2 _)
  next => exact .error _

/-- `issue` on both sides: accrual, deliveries, minting, fee, new units. -/
theorem issue_together {amount : UInt64} {maxIn : List UInt64}
    (hp : Passed (.issue amount maxIn) accounts R W) :
    Together (Beside R W w₀ v₀) (issue ch w accounts amount maxIn)
      (issue ch v accounts amount maxIn) := by
  unfold issue
  split
  next user indexInfo indexMintInfo userIndexAta feeAta tokenProgram rest =>
    have hu := hp.read (i := 0) rfl
    have hi := hp.write (i := 1) rfl rfl
    have hm := hp.write (i := 2) rfl rfl
    have hata := hp.write (i := 3) rfl rfl
    have hf := hp.write (i := 4) rfl rfl
    refine .read fun _ _ => .read fun _ _ => .read fun _ _ => .read fun _ _ => ?_
    rw [h.indexRef hi.1]
    refine .read fun idx _ => .read fun _ _ => .read fun _ _ => ?_
    rw [h.requireTokenAccountOfMint hata.1]
    refine .read fun _ _ => ?_
    rw [h.clock]
    refine (accrue_together hl h w.clock hi hm hf).bind fun p q hpq => ?_
    obtain ⟨-, h₁⟩ := hpq
    refine (h₁.resync hi hm.1 (hp.vaults 6)).bind fun w₂ v₂ h₂ => ?_
    refine .read fun fee _ => .read fun feeTokens _ => .read fun gross _ => ?_
    refine (issueLoop_together hl h₂ gross 0 maxIn hi.1 hu (hp.pairs 6 fun i => ?_)).bind
      fun w₃ v₃ h₃ => ?_
    · simp [FlockInstruction.writable]
    refine (mintIndexTokens_together hl h₃ amount hm hata hi.1).bind fun w₄ v₄ h₄ => ?_
    refine (mintFee_together hl h₄ feeTokens hi.1 hm hf).bind fun w₅ v₅ h₅ => ?_
    exact h₅.resync hi hm.1 (hp.vaults 6)
  next => exact .error _

/-- `redeem` on both sides: accrual, fee, burning, payouts, new units. -/
theorem redeem_together {amount : UInt64} {minOut : List UInt64}
    (hp : Passed (.redeem amount minOut) accounts R W) :
    Together (Beside R W w₀ v₀) (redeem ch w accounts amount minOut)
      (redeem ch v accounts amount minOut) := by
  unfold redeem
  split
  next user indexInfo indexMintInfo userIndexAta feeAta tokenProgram rest =>
    have hu := hp.read (i := 0) rfl
    have hi := hp.write (i := 1) rfl rfl
    have hm := hp.write (i := 2) rfl rfl
    have hata := hp.write (i := 3) rfl rfl
    have hf := hp.write (i := 4) rfl rfl
    have hvaults : ∀ a ∈ (pairs rest).map Prod.fst, a.key ∈ R := hp.vaults 6
    refine .read fun _ _ => .read fun _ _ => .read fun _ _ => .read fun _ _ => ?_
    rw [h.indexRef hi.1]
    refine .read fun idx _ => .read fun _ _ => .read fun _ _ => ?_
    rw [h.requireTokenAccountOfMint hata.1]
    refine .read fun _ _ => ?_
    rw [h.clock]
    refine (accrue_together hl h w.clock hi hm hf).bind fun p q hpq => ?_
    obtain ⟨-, h₁⟩ := hpq
    dsimp only
    rw [h₁.verifyVaults hi.1 _ hvaults]
    refine .read fun balances _ => ?_
    rw [h₁.readMint hm.1]
    refine .read fun mint _ => .read fun _ _ => ?_
    refine (h₁.syncUnits hi balances _).bind fun w₂ v₂ h₂ => ?_
    refine .read fun fee _ => .read fun feeTokens _ => .read fun net _ => ?_
    refine (burn_together hl h₂ amount hata hm hu).bind fun w₃ v₃ h₃ => ?_
    refine (mintFee_together hl h₃ feeTokens hi.1 hm hf).bind fun w₄ v₄ h₄ => ?_
    refine (redeemLoop_together hl h₄ net 0 minOut hi.1 (hp.pairs 6 fun i => ?_)).bind
      fun w₅ v₅ h₅ => ?_
    · simp [FlockInstruction.writable]
    exact h₅.resync hi hm.1 hvaults
  next => exact .error _

/-- `accrue_fees` on both sides. -/
theorem accrueFees_together (hp : Passed .accrueFees accounts R W) :
    Together (Beside R W w₀ v₀) (accrueFees ch w accounts) (accrueFees ch v accounts) := by
  unfold accrueFees
  split
  next indexInfo indexMintInfo feeAta tokenProgram vaults =>
    have hi := hp.write (i := 0) rfl rfl
    have hm := hp.write (i := 1) rfl rfl
    have hf := hp.write (i := 2) rfl rfl
    refine .read fun _ _ => .read fun _ _ => ?_
    rw [h.indexRef hi.1]
    refine .read fun idx _ => .read fun _ _ => ?_
    rw [h.clock]
    refine (accrue_together hl h w.clock hi hm hf).bind fun p q hpq => ?_
    exact hpq.2.resync hi hm.1 (hp.rest 4)
  next => exact .error _

/-- `bid` on both sides: the check of the vaults, two transfers, the NAV of what is left. -/
theorem bid_together {sellComponent buyComponent : UInt8} {sellAmount maxBuyAmount : UInt64}
    (hp : Passed (.bid sellComponent buyComponent sellAmount maxBuyAmount) accounts R W) :
    Together (Beside R W w₀ v₀)
      (bid ch w accounts sellComponent buyComponent sellAmount maxBuyAmount)
      (bid ch v accounts sellComponent buyComponent sellAmount maxBuyAmount) := by
  unfold bid
  split
  next bidder indexInfo indexMintInfo bidderReceive bidderPay tokenProgram vaults =>
    have hbidder := hp.read (i := 0) rfl
    have hi := hp.write (i := 1) rfl rfl
    have hm := hp.read (i := 2) rfl
    have hrecv := hp.write (i := 3) rfl rfl
    have hpay := hp.write (i := 4) rfl rfl
    have hvaults : ∀ a ∈ vaults, a.key ∈ R ∩ W :=
      hp.writeRest 6 (by simp [FlockInstruction.writable])
    have hread : ∀ a ∈ vaults, a.key ∈ R := hp.rest 6
    refine .read fun _ _ => .read fun _ _ => .read fun _ _ => .read fun _ _ => ?_
    refine .read fun _ _ => ?_
    rw [h.indexRef hi.1]
    refine .read fun idx _ => .read fun _ _ => .read fun _ _ => ?_
    rw [h.clock]
    refine .read fun premium _ => .read fun _ _ => .read fun sell _ => .read fun buy _ => ?_
    rw [h.verifyVaults hi.1 _ hread]
    refine .read fun balances _ => ?_
    rw [h.readMint hm]
    refine .read fun mint _ => .read fun _ _ => ?_
    rw [h.requireTokenAccountOfMint hrecv.1]
    refine .read fun _ _ => ?_
    rw [h.requireTokenAccountOfMint hpay.1]
    refine .read fun _ _ => .read fun sellBalance _ => .read fun buyBalance _ => ?_
    refine .read fun buyAmount _ => .read fun buyVault hb => .read fun sellVault hs => ?_
    have hbuyVault := hvaults _ (List.mem_of_getElem? (nth_ok_iff.mp hb))
    have hsellVault := hvaults _ (List.mem_of_getElem? (nth_ok_iff.mp hs))
    refine (transferFromUser_together hl h buyAmount hpay hbuyVault hbidder).bind
      fun w₁ v₁ h₁ => ?_
    refine (transferFromVault_together hl h₁ sellAmount hsellVault hrecv hi.1).bind
      fun w₂ v₂ h₂ => ?_
    rw [h₂.verifyVaults hi.1 _ hread]
    refine .read fun balances' _ => ?_
    rw [h₂.navE6 hi.1]
    refine .read fun nav _ => ?_
    rw [h₂.indexRef hi.1]
    exact .read fun idx' _ => .read fun _ _ => h₂.syncUnits hi balances' _
  next => exact .error _

end Handlers

section Records

variable (h : Beside R W w₀ v₀ w v)

include h

/-- `seal_index` on both sides. -/
theorem sealIndex_together (hp : Passed .sealIndex accounts R W) :
    Together (Beside R W w₀ v₀) (sealIndex ch w accounts) (sealIndex ch v accounts) := by
  unfold sealIndex
  split
  next manager indexInfo indexMintInfo rest =>
    have hi := hp.write (i := 1) rfl rfl
    refine .read fun _ _ => .read fun _ _ => ?_
    rw [h.indexRef hi.1]
    refine .read fun idx _ => .read fun _ _ => .read fun _ _ => .read fun _ _ => ?_
    rw [h.clock]
    exact .pure (h.setIndex hi.2 _)
  next => exact .error _

/-- `propose_rebalance` on both sides. -/
theorem proposeRebalance_together {targetUnits refPricesE9 : List UInt64} {p : AuctionParams}
    (hp : Passed ix accounts R W) (hix : ix.writable 1 = true) :
    Together (Beside R W w₀ v₀) (proposeRebalance ch w accounts targetUnits refPricesE9 p)
      (proposeRebalance ch v accounts targetUnits refPricesE9 p) := by
  unfold proposeRebalance
  split
  next manager indexInfo indexMintInfo vaults =>
    have hi := hp.write (i := 1) rfl hix
    have hvaults : ∀ a ∈ vaults, a.key ∈ R := hp.rest 3
    refine .read fun _ _ => .read fun _ _ => ?_
    rw [h.indexRef hi.1]
    refine .read fun idx _ => .read fun _ _ => .read fun _ _ => .read fun _ _ => ?_
    refine .read fun _ _ => .read fun _ _ => .read fun _ _ => .read fun _ _ => ?_
    rw [h.verifyVaults hi.1 _ hvaults]
    refine .read fun balances _ => ?_
    have h₁ := h.setIndex hi.2
      { idx with components := writeTargets idx.components targetUnits refPricesE9 }
    dsimp only
    rw [h₁.navE6 hi.1]
    refine .read fun nav _ => ?_
    rw [h₁.clock]
    refine .read fun startTs _ => .read fun endTs _ => ?_
    rw [h₁.indexRef hi.1]
    exact .read fun idx' _ => .read fun loss _ => .read fun navFloor _ => .pure (h₁.setIndex hi.2 _)
  next => exact .error _

/-- `end_rebalance` on both sides. -/
theorem endRebalance_together (hp : Passed .endRebalance accounts R W) :
    Together (Beside R W w₀ v₀) (endRebalance ch w accounts) (endRebalance ch v accounts) := by
  unfold endRebalance
  split
  next caller indexInfo indexMintInfo vaults =>
    have hi := hp.write (i := 1) rfl rfl
    have hm := hp.read (i := 2) rfl
    refine .read fun _ _ => .read fun _ _ => ?_
    rw [h.indexRef hi.1, h.clock]
    refine .read fun idx _ => .read fun _ _ => .read fun _ _ => ?_
    refine (h.resync hi hm (hp.rest 3)).bind fun w₁ v₁ h₁ => ?_
    rw [h₁.indexRef hi.1]
    exact .read fun idx' _ => .pure (h₁.setIndex hi.2 _)
  next => exact .error _

/-- `set_params` on both sides. -/
theorem setParams_together {streaming issue redeem premium : UInt16} {delay : UInt32}
    (hp : Passed (.setParams streaming issue redeem premium delay) accounts R W) :
    Together (Beside R W w₀ v₀) (setParams ch w accounts streaming issue redeem premium delay)
      (setParams ch v accounts streaming issue redeem premium delay) := by
  unfold setParams
  split
  next governor indexInfo indexMintInfo rest =>
    have hi := hp.write (i := 1) rfl rfl
    refine .read fun _ _ => .read fun _ _ => .read fun _ _ => ?_
    rw [h.indexRef hi.1, h.clock]
    exact .read fun idx _ => .read fun _ _ => .pure (h.setIndex hi.2 _)
  next => exact .error _

/-- `set_authority` on both sides. -/
theorem setAuthority_together {role : UInt8} {newAuthority : Pubkey}
    (hp : Passed (.setAuthority role newAuthority) accounts R W) :
    Together (Beside R W w₀ v₀) (setAuthority ch w accounts role newAuthority)
      (setAuthority ch v accounts role newAuthority) := by
  unfold setAuthority
  split
  next governor indexInfo indexMintInfo rest =>
    have hi := hp.write (i := 1) rfl rfl
    refine .read fun _ _ => .read fun _ _ => ?_
    rw [h.indexRef hi.1]
    refine .read fun idx _ => .read fun _ _ => ?_
    refine .ite (fun _ => .pure (h.setIndex hi.2 _)) fun _ => ?_
    refine .ite (fun _ => .pure (h.setIndex hi.2 _)) fun _ => ?_
    exact .ite (fun _ => .pure (h.setIndex hi.2 _)) fun _ => .error _
  next => exact .error _

/-- `set_paused` on both sides. -/
theorem setPaused_together {paused : Bool} (hp : Passed (.setPaused paused) accounts R W) :
    Together (Beside R W w₀ v₀) (setPaused ch w accounts paused)
      (setPaused ch v accounts paused) := by
  unfold setPaused
  split
  next caller indexInfo indexMintInfo rest =>
    have hi := hp.write (i := 1) rfl rfl
    refine .read fun _ _ => .read fun _ _ => ?_
    rw [h.indexRef hi.1]
    refine .read fun idx _ => .read fun _ _ => .read fun _ _ => .read fun _ _ => ?_
    exact .pure (h.setIndex hi.2 _)
  next => exact .error _

end Records

/-- In two worlds that agree on the accounts it is passed, an instruction fails alike, or leaves
the same behind in the writable ones and everything else as it was. -/
theorem process_together (hl : ch.AnswersFrom R) (h : Beside R W w₀ v₀ w v)
    (hp : Passed ix accounts R W) :
    Together (Beside R W w₀ v₀) (process ch w accounts ix) (process ch v accounts ix) := by
  cases ix with
  | initIndex => exact initIndex_together hl h hp rfl
  | addComponent => exact addComponent_together hl h hp
  | sealIndex => exact sealIndex_together h hp
  | issue => exact issue_together hl h hp
  | redeem => exact redeem_together hl h hp
  | accrueFees => exact accrueFees_together hl h hp
  | proposeRebalance => exact proposeRebalance_together h hp rfl
  | bid => exact bid_together hl h hp
  | endRebalance => exact endRebalance_together h hp
  | setParams => exact setParams_together h hp
  | setAuthority => exact setAuthority_together h hp
  | setPaused => exact setPaused_together h hp

/-- The writable accounts of the list an instruction is passed. -/
def FlockInstruction.written (ix : FlockInstruction) (accounts : List AccountInfo) : Set Pubkey :=
  {k | ∃ i a, accounts[i]? = some a ∧ ix.writable i = true ∧ a.key = k}

/-- Whatever it is passed, an instruction writes no account but the writable ones. -/
theorem process_frame {w' : World} (h : process ch w accounts ix = .ok w') {k : Pubkey}
    (hk : k ∉ ix.written accounts) : w'.accounts k = w.accounts k := by
  have hp : Passed ix accounts Set.univ (ix.written accounts) :=
    { reads := fun _ => Set.mem_univ _
      writes := fun ha hi => ⟨_, _, ha, hi, rfl⟩ }
  have hself : Beside Set.univ (ix.written accounts) w w w w :=
    .refl ⟨rfl, Set.eqOn_refl _ _⟩
  have hboth := process_together (ch.answersFrom_univ) hself hp
  rw [h] at hboth
  cases hboth with
  | ok h' => exact h'.left hk

end

/-! ## What the builders mark -/

/-- The accounts are marked writable as `p` says. -/
def Marks (p : Nat → Bool) (l : List AccountMeta) : Prop :=
  ∀ i key, l[i]? = some key → key.isWritable = p i

/-- A key marked as its position asks, and the rest one position on. -/
theorem Marks.cons {p : Nat → Bool} {key : AccountMeta} {l : List AccountMeta}
    (hkey : key.isWritable = p 0) (h : Marks (fun i => p (i + 1)) l) : Marks p (key :: l) := by
  intro i key' hi
  cases i with
  | zero => rwa [← Option.some.inj hi]
  | succ i => exact h i key' hi

/-- From here on every key is marked the same way. -/
theorem Marks.all {p : Nat → Bool} {l : List AccountMeta} (b : Bool)
    (hl : ∀ key ∈ l, key.isWritable = b) (hp : ∀ i, p i = b) : Marks p l := by
  intro i key hi
  rw [hl key (List.mem_of_getElem? hi), hp]

/-- No key is marked wrongly where there is none. -/
theorem Marks.nil {p : Nat → Bool} : Marks p [] := fun _ _ h => by cases h

/-- The builders of the program mark what is listed. By cases on the request. -/
theorem Request.marked (lib : Library) (programId : Pubkey) (r : Request) :
    Marks r.instruction.writable (r.program lib programId).accounts := by
  cases r with
  | initIndex | addComponent | sealIndex | setParams | setAuthority | setPaused =>
    repeat first | exact .nil | refine .cons rfl ?_
  | issue _ _ _ _ components | redeem _ _ _ _ components =>
    have hpairs : ∀ (f : Pubkey × Pubkey → List AccountMeta) (cs : List (Pubkey × Pubkey)),
        (∀ c, ∀ key ∈ f c, key.isWritable = true) →
        ∀ key ∈ cs.flatMap f, key.isWritable = true := by
      intro f cs hf key hkey
      obtain ⟨c, -, hc⟩ := List.mem_flatMap.mp hkey
      exact hf c key hc
    simp only [Request.program, Builders.issue, Builders.redeem, Builders.pushPairs_eq]
    iterate 6 refine .cons rfl ?_
    refine .all true (hpairs _ _ fun c => forall_mem_pair rfl rfl) fun i => ?_
    simp [Request.instruction, FlockInstruction.writable]
  | accrueFees | proposeRebalance | endRebalance =>
    have hvaults : ∀ (f : Pubkey → Pubkey) (mints : List Pubkey),
        ∀ key ∈ mints.map fun mint => Builders.ro (f mint), key.isWritable = false := by
      intro f mints key hkey
      obtain ⟨mint, -, rfl⟩ := List.mem_map.mp hkey
      rfl
    simp only [Request.program, Builders.accrueFees, Builders.proposeRebalance,
      Builders.endRebalance, Builders.pushVaults_eq]
    iterate 3 refine .cons rfl ?_
    first
      | exact .all false (hvaults _ _) fun i => by
          simp [Request.instruction, FlockInstruction.writable]
      | exact .cons rfl (.all false (hvaults _ _) fun i => by
          simp [Request.instruction, FlockInstruction.writable])
  | bid =>
    simp only [Request.program, Builders.bid, Builders.pushVaults_eq]
    iterate 6 refine .cons rfl ?_
    refine .all true (fun key hkey => ?_) fun i => ?_
    · obtain ⟨mint, -, rfl⟩ := List.mem_map.mp hkey
      rfl
    · simp [Request.instruction, FlockInstruction.writable]

/-- An instruction changes no account but those `instruction.rs` lists as writable, whatever it
is passed, and both builders mark just those. Some of them may stand as they were: a bid lists
every vault and writes two. -/
theorem accounts_as_listed (ch : Chain) (lib : Library) (programId : Pubkey) :
    (∀ (w w' : World) (accounts : List AccountInfo) (ix : FlockInstruction),
      process ch w accounts ix = .ok w' →
      ∀ k, w'.accounts k ≠ w.accounts k → k ∈ ix.written accounts) ∧
    ∀ r : Request, Marks r.instruction.writable (r.program lib programId).accounts ∧
      ∃ built, r.sdk lib programId = .ok built ∧ Marks r.instruction.writable built.keys := by
  constructor
  · intro w w' accounts ix h k hk
    by_contra hnot
    exact hk (process_frame h hnot)
  · intro r
    obtain ⟨built, hr, -, hkeys, -⟩ := r.sdk_built lib programId
    refine ⟨r.marked lib programId, built, hr, ?_⟩
    rw [hkeys]
    exact r.marked lib programId

/-! ## Transactions -/

/-- A transaction with one instruction the SDK built, and the time it is processed at. -/
structure Sent where
  time : Int64
  signers : List Pubkey
  built : Sdk.TransactionInstruction
  deriving DecidableEq

namespace Sent

def reads (c : Sent) : Set Pubkey := {k | ∃ key ∈ c.built.keys, key.pubkey = k}

def writes (c : Sent) : Set Pubkey :=
  {k | ∃ key ∈ c.built.keys, key.isWritable = true ∧ key.pubkey = k}

/-- The runtime does not let two transactions run side by side when one has an account that the
other marks writable. -/
def Conflict (c d : Sent) : Prop :=
  ∃ key ∈ c.built.keys, ∃ key' ∈ d.built.keys, key.pubkey = key'.pubkey ∧
    (key.isWritable = true ∨ key'.isWritable = true)

instance (c d : Sent) : Decidable (c.Conflict d) :=
  inferInstanceAs (Decidable (∃ key ∈ c.built.keys, ∃ key' ∈ d.built.keys,
    key.pubkey = key'.pubkey ∧ (key.isWritable = true ∨ key'.isWritable = true)))

/-- The transaction on the accounts of a chain. -/
def land (ch : Chain) (c : Sent) (accounts : Pubkey → Account) :
    Except Cli.Failure (Pubkey → Account) :=
  (Cli.deliver ch c.signers { accounts, clock := c.time } c.built).map World.accounts

/-- What the SDK built hands the handler the accounts the transaction names. -/
theorem passed {lib : Library} {programId : Pubkey} {r : Request} {c : Sent}
    (hbuilt : r.sdk lib programId = .ok c.built) :
    Passed r.instruction (Cli.accountsOf c.signers c.built) c.reads c.writes where
  reads := by
    intro a ha
    obtain ⟨key, hkey, rfl⟩ := List.mem_map.mp ha
    exact ⟨key, hkey, rfl⟩
  writes := by
    intro i a ha hi
    obtain ⟨built, hr, -, hkeys, -⟩ := r.sdk_built lib programId
    obtain rfl := Except.ok.inj (hbuilt.symm.trans hr)
    rw [Cli.accountsOf, List.getElem?_map, Option.map_eq_some_iff] at ha
    obtain ⟨key, hkey, rfl⟩ := ha
    have hmarked := r.marked lib programId i key (hkeys ▸ hkey)
    exact ⟨key, List.mem_of_getElem? hkey, hmarked.trans hi, rfl⟩

/-- A transaction keeps to its accounts. -/
theorem land_local {ch : Chain} {lib : Library} {r : Request} {c : Sent} (hl : ch.Local)
    (hbuilt : r.sdk lib ch.programId = .ok c.built) : Local c.reads c.writes (c.land ch) where
  subset := by
    intro k hk
    obtain ⟨key, hkey, -, rfl⟩ := hk
    exact ⟨key, hkey, rfl⟩
  together := by
    intro s t hst
    obtain ⟨built, hr, -, hkeys, hdata⟩ := r.sdk_built lib ch.programId
    obtain rfl := Except.ok.inj (hbuilt.symm.trans hr)
    have hbeside : Beside c.reads c.writes ⟨s, c.time⟩ ⟨t, c.time⟩ ⟨s, c.time⟩ ⟨t, c.time⟩ :=
      .refl ⟨rfl, hst⟩
    have hboth := process_together (hl c.reads) hbeside (passed hbuilt)
    unfold land Cli.deliver
    by_cases hsigned : ∃ key ∈ c.built.keys, key.isSigner = true ∧ key.pubkey ∉ c.signers
    · rw [if_pos hsigned, if_pos hsigned]
      exact .error _
    · rw [if_neg hsigned, if_neg hsigned, hdata, r.program_data,
        processData_serialize r.instruction_fits, processData_serialize r.instruction_fits]
      revert hboth
      generalize process ch ⟨s, c.time⟩ _ _ = x
      generalize process ch ⟨t, c.time⟩ _ _ = y
      intro hboth
      cases hboth with
      | ok h => exact .ok ⟨h.agree, h.left, h.right⟩
      | error e => exact .error _

end Sent

/-- Two parties send transactions that do not conflict. In whatever order they are processed,
each party is answered as if it were alone and finds the accounts it would find alone, and all
accounts are the same in the end. -/
theorem transactions_in_any_order {ch : Chain} (hl : ch.Local) (lib : Library)
    {l l' : List Sent} {mine : Sent → Bool}
    (hbuilt : ∀ c ∈ l, ∃ r : Request, r.sdk lib ch.programId = .ok c.built)
    (hapart : ∀ c ∈ l, ∀ d ∈ l, mine c = true → mine d = false → ¬ c.Conflict d)
    (hmine : l'.filter mine = l.filter mine)
    (hothers : (l'.filter fun c => !mine c) = l.filter fun c => !mine c)
    (accounts : Pubkey → Account) :
    (answers (Sent.land ch) l' accounts).filter (mine ·.1)
        = answers (Sent.land ch) (l.filter mine) accounts ∧
      (∀ c ∈ l, mine c = true → ∀ key ∈ c.built.keys,
        run (Sent.land ch) l' accounts key.pubkey
          = run (Sent.land ch) (l.filter mine) accounts key.pubkey) ∧
      run (Sent.land ch) l' accounts = run (Sent.land ch) l accounts := by
  have hstep : ∀ c ∈ l, Local c.reads c.writes (c.land ch) := by
    intro c hc
    obtain ⟨r, hr⟩ := hbuilt c hc
    exact Sent.land_local hl hr
  have hoff : Apart Sent.reads Sent.writes mine l := by
    intro c hc d hd hm hother
    have hno := hapart c hc d hd hm hother
    constructor
    · intro k hread hwrite
      obtain ⟨key, hkey, hw, rfl⟩ := hwrite
      obtain ⟨key', hkey', he⟩ := hread
      exact hno ⟨key, hkey, key', hkey', he.symm, .inl hw⟩
    · intro k hread hwrite
      obtain ⟨key', hkey', hw, rfl⟩ := hwrite
      obtain ⟨key, hkey, he⟩ := hread
      exact hno ⟨key, hkey, key', hkey', he, .inr hw⟩
  have hend := run_interleaved hstep hoff hmine hothers accounts
  have hmem := mem_iff_of_filter hmine hothers
  obtain ⟨hrun, hanswers⟩ := answers_alone (l := l') (fun c hc => hstep c ((hmem c).mp hc))
    (fun c hc d hd => hoff c ((hmem c).mp hc) d ((hmem d).mp hd)) accounts
  rw [hmine] at hrun hanswers
  refine ⟨hanswers, fun c hc hm key hkey => ?_, hend⟩
  exact hrun ⟨c, (hmem c).mpr hc, hm, key, hkey, rfl⟩

/-! ### On the local chain -/

/-- What a sequence leaves is what its last part leaves. -/
theorem leftAt_bind {α : Type} (keys : List Pubkey) (x : Except ProgramError α)
    (f : α → Except ProgramError World) :
    leftAt keys (x >>= f) = (x >>= fun a => leftAt keys (f a)) := by
  cases x <;> rfl

/-- An account written alike is left alike. -/
theorem leftAt_set (w v : World) (k : Pubkey) (a : Account) :
    leftAt [k] (pure (v.set k a)) = leftAt [k] (pure (w.set k a)) := by
  show Except.ok [_] = Except.ok [_]
  rw [World.set_accounts, World.set_accounts, if_pos rfl, if_pos rfl]

/-- Two accounts written alike are left alike. -/
theorem leftAt_set_set (w v : World) (j k : Pubkey) (a b : Account) :
    leftAt [j, k] (pure ((v.set j a).set k b)) = leftAt [j, k] (pure ((w.set j a).set k b)) := by
  show Except.ok [_, _] = Except.ok [_, _]
  simp only [World.set_accounts, if_true]

/-- A token account in `R` is read alike in worlds that match. -/
theorem World.Matches.token? {R : Set Pubkey} {w v : World} (h : v.Matches R w) {k : Pubkey}
    (hk : k ∈ R) : v.token? k = w.token? k := (Beside.refl h (W := R)).token? hk

/-- A mint in `R` is read alike in worlds that match. -/
theorem World.Matches.mint? {R : Set Pubkey} {w v : World} (h : v.Matches R w) {k : Pubkey}
    (hk : k ∈ R) : v.mint? k = w.mint? k := (Beside.refl h (W := R)).mint? hk

/-- The programs of the local chain see what they are passed. -/
theorem localnet_local : localnet.Local := by
  intro R
  constructor
  case transfer =>
    intro w v s d a x h hs hd _
    show leftAt [s, d] (legacyTransfer v s d a x) = leftAt [s, d] (legacyTransfer w s d a x)
    unfold legacyTransfer
    rw [h.token? hs, h.token? hd]
    split
    next ts td _ _ =>
      simp only [leftAt_bind]
      refine bind_congr fun _ => bind_congr fun _ => bind_congr fun _ => bind_congr fun _ => ?_
      by_cases hsd : s = d
      · rw [if_pos hsd, if_pos hsd]
        show Except.ok [_, _] = Except.ok [_, _]
        rw [h.2 hs, h.2 hd]
      · rw [if_neg hsd, if_neg hsd]
        split
        next n _ => exact leftAt_set_set ..
        next => rfl
    next => rfl
  case mintTo =>
    intro w v m d a x h hm hd _
    show leftAt [m, d] (legacyMintTo v m d a x) = leftAt [m, d] (legacyMintTo w m d a x)
    unfold legacyMintTo
    rw [h.mint? hm, h.token? hd]
    split
    next mi t _ _ =>
      simp only [leftAt_bind]
      refine bind_congr fun _ => bind_congr fun _ => bind_congr fun _ => ?_
      split
      next n supply _ _ => exact leftAt_set_set ..
      next => rfl
    next => rfl
  case burn =>
    intro w v s m a x h hs hm _
    show leftAt [m, s] (legacyBurn v s m a x) = leftAt [m, s] (legacyBurn w s m a x)
    unfold legacyBurn
    rw [h.mint? hm, h.token? hs]
    split
    next mi t _ _ =>
      simp only [leftAt_bind]
      refine bind_congr fun _ => bind_congr fun _ => bind_congr fun _ => bind_congr fun _ => ?_
      exact bind_congr fun _ => leftAt_set_set ..
    next => rfl
  case initializeAccount3 =>
    intro w v k m o h hk hm
    show leftAt [k] (legacyInitializeAccount3 7 v k m o)
      = leftAt [k] (legacyInitializeAccount3 7 w k m o)
    unfold legacyInitializeAccount3
    rw [h.2 hk, h.mint? hm]
    simp only [leftAt_bind]
    exact bind_congr fun _ => bind_congr fun _ => leftAt_set ..
  case createAccount =>
    intro w v p k o h _ hk
    show leftAt [k] (if v.accounts k = .empty then .ok (v.set k (.allocated o)) else _)
      = leftAt [k] (if w.accounts k = .empty then .ok (w.set k (.allocated o)) else _)
    rw [h.2 hk]
    split
    next => exact leftAt_set ..
    next => rfl

/-- What the SDK builds for a request, sent. -/
def Request.sent (r : Request) (time : Int64) (signers : List Pubkey) : Sent where
  time
  signers
  built :=
    { programId := (r.program Cli.localLibrary localnet.programId).programId
      keys := (r.program Cli.localLibrary localnet.programId).accounts
      data := (r.program Cli.localLibrary localnet.programId).data }

/-- The local transaction is what the SDK builds for the request. -/
theorem Request.sdk_sent (r : Request) (time : Int64) (signers : List Pubkey) :
    r.sdk Cli.localLibrary localnet.programId = .ok (r.sent time signers).built := by
  obtain ⟨built, hr, hprogramId, hkeys, hdata⟩ := r.sdk_built Cli.localLibrary localnet.programId
  rw [hr, Request.sent, ← hprogramId, ← hkeys, ← hdata]

/-- A key launches a fund for a mint, with component 2 in it. -/
def localLaunches (key mint : Nat) : List Sent :=
  [(Request.initIndex (addr key) (addr mint) (addr key) (addr key) (addr key) [] [] 100 10 10 100
      300).sent 0 [addr key],
   (Request.addComponent (addr key) (addr key) (addr mint) (addr 2) 2000000).sent 1 [addr key],
   (Request.sealIndex (addr key) (addr mint)).sent 2 [addr key]]

/-- The chain before either launch. -/
def localStart : Pubkey → Account :=
  (World.ofAccounts 0 ((addr 5, .mint
    { mintAuthority := some (localnet.indexKey (addr 5)), supply := 0, decimals := 9,
      freezeAuthority := none }) :: localAccounts)).accounts

/-- One launch after the other. -/
def localLaunchesApart : List Sent := localLaunches 50 1 ++ localLaunches 51 5

/-- The two of them in turns. -/
def localLaunchesInTurns : List Sent :=
  ((localLaunches 51 5).zip (localLaunches 50 1)).flatMap fun p => [p.1, p.2]

/-- What the first of them sends. -/
def localMine (c : Sent) : Bool := decide (c.signers = [addr 50])

theorem transactions_in_any_order_local :
    (answers (Sent.land localnet) localLaunchesApart localStart).map (fun p => p.2.toOption)
        = List.replicate 6 (some ()) ∧
      (answers (Sent.land localnet) localLaunchesInTurns localStart).filter
          (localMine ·.1)
        = answers (Sent.land localnet) (localLaunchesApart.filter localMine) localStart ∧
      run (Sent.land localnet) localLaunchesInTurns localStart
        = run (Sent.land localnet) localLaunchesApart localStart := by
  have hlaunch : ∀ key mint, ∀ c ∈ localLaunches key mint, ∃ r : Request,
      r.sdk Cli.localLibrary localnet.programId = .ok c.built := by
    intro key mint
    refine List.forall_mem_cons.mpr ⟨⟨_, Request.sdk_sent ..⟩, ?_⟩
    exact forall_mem_pair ⟨_, Request.sdk_sent ..⟩ ⟨_, Request.sdk_sent ..⟩
  have hbuilt : ∀ c ∈ localLaunchesApart, ∃ r : Request,
      r.sdk Cli.localLibrary localnet.programId = .ok c.built := by
    intro c hc
    rcases List.mem_append.mp hc with hc | hc
    · exact hlaunch 50 1 c hc
    · exact hlaunch 51 5 c hc
  have hapart : ∀ c ∈ localLaunchesApart, ∀ d ∈ localLaunchesApart,
      localMine c = true → localMine d = false → ¬ c.Conflict d := by
    decide +kernel
  have hmine : localLaunchesInTurns.filter localMine = localLaunchesApart.filter localMine := by
    decide +kernel
  have hothers : (localLaunchesInTurns.filter fun c => !localMine c)
      = localLaunchesApart.filter fun c => !localMine c := by
    decide +kernel
  have hall := transactions_in_any_order localnet_local Cli.localLibrary hbuilt hapart hmine hothers
    localStart
  exact ⟨by decide +kernel, hall.1, hall.2.2⟩

end Flock
