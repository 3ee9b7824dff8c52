import Flock.System

/-!
# A chain to run on

`localnet` is one chain that satisfies every law of `Chain`: the legacy token
program, delegates and their allowances included, and program addresses laid
out so that they never meet a key. It serves the concrete runs of this development. A run
is a list of `Act`s, and `perform_steps` says that what it reaches is reachable.

Where this chain is not the one the program is deployed on:
- A program address is a number above the keys here, and a hash there. That two of
  them differ is arithmetic here and an assumption of `Chain` there.
- The token program has the calls the program makes. Native mints, multisigs and the
  closing of accounts are left out, and so are lamports: opening an account costs nothing.
- The error numbers are those of the legacy token program.
-/

namespace Flock

open Outcome MachineInt

/-! ## The legacy token program -/

/-- A delegate moves what it is still allowed, the owner all there is. -/
def legacyAuthority (t : TokenAccount) (a : Pubkey) (x : UInt64) : Bool :=
  if t.delegate = some a then x ≤ t.delegatedAmount else t.owner = a

/-- The source after a debit. What a delegate moves comes off its allowance, and with the
last of that it is no delegate any more. -/
def TokenAccount.debited (t : TokenAccount) (a : Pubkey) (x : UInt64) : TokenAccount :=
  if t.delegate = some a then
    { t with
      amount := t.amount - x
      delegate := if t.delegatedAmount = x then none else some a
      delegatedAmount := t.delegatedAmount - x }
  else { t with amount := t.amount - x }

def legacyTransfer (w : World) (s d a : Pubkey) (x : UInt64) : Except ProgramError World :=
  match w.token? s, w.token? d with
  | some ts, some td => do
    failIf (ts.frozen ∨ td.frozen) (.cpi 17)
    failIf (ts.amount < x) (.cpi 1)
    failIf (ts.mint ≠ td.mint) (.cpi 3)
    failIf (legacyAuthority ts a x = false) (.cpi 4)
    if s = d then pure w
    else match narrow (td.amount.toNat + x.toNat) with
      | some n => pure ((w.set s (.token (ts.debited a x))).set d (.token { td with amount := n }))
      | none => .error (.cpi 14)
  | _, _ => .error (.cpi 0)

def legacyMintTo (w : World) (m d a : Pubkey) (x : UInt64) : Except ProgramError World :=
  match w.mint? m, w.token? d with
  | some mi, some t => do
    failIf (t.frozen = true) (.cpi 17)
    failIf (t.mint ≠ m) (.cpi 3)
    failIf (mi.mintAuthority ≠ some a) (.cpi 4)
    match narrow (t.amount.toNat + x.toNat), narrow (mi.supply.toNat + x.toNat) with
    | some n, some supply => pure ((w.set m (.mint { mi with supply := supply })).set d
        (.token { t with amount := n }))
    | _, _ => .error (.cpi 14)
  | _, _ => .error (.cpi 0)

def legacyBurn (w : World) (s m a : Pubkey) (x : UInt64) : Except ProgramError World :=
  match w.mint? m, w.token? s with
  | some mi, some t => do
    failIf (t.frozen = true) (.cpi 17)
    failIf (t.amount < x) (.cpi 1)
    failIf (t.mint ≠ m) (.cpi 3)
    failIf (legacyAuthority t a x = false) (.cpi 4)
    failIf (mi.supply < x) (.cpi 14)
    pure ((w.set m (.mint { mi with supply := mi.supply - x })).set s (.token (t.debited a x)))
  | _, _ => .error (.cpi 0)

def legacyInitializeAccount3 (id : Pubkey) (w : World) (k m o : Pubkey) :
    Except ProgramError World := do
  failIf (w.accounts k ≠ .allocated id) (.cpi 6)
  failIf (w.mint? m).isNone (.cpi 2)
  pure (w.set k (.token { mint := m, owner := o, amount := 0, delegate := none, frozen := false }))

/-- A debit takes the amount and leaves mint, owner and freezing as they were. -/
theorem TokenAccount.becomes_debited {t : TokenAccount} {x : UInt64} (a : Pubkey)
    (h : x ≤ t.amount) : t.Becomes (t.debited a x) (t.amount.toNat - x.toNat) := by
  have hsub : (t.amount - x).toNat = t.amount.toNat - x.toNat := UInt64.toNat_sub_of_le _ _ h
  unfold TokenAccount.debited
  split
  next hd => exact ⟨rfl, rfl, rfl, fun hnone => (nomatch hd.symm.trans hnone), hsub⟩
  next => exact ⟨rfl, rfl, rfl, id, hsub⟩

/-- Without a delegate the owner alone decides. -/
theorem legacyAuthority_owner {t : TokenAccount} {a : Pubkey} {x : UInt64}
    (hd : t.delegate = none) (h : legacyAuthority t a x = true) : t.owner = a := by
  rw [legacyAuthority, hd, if_neg (fun hnone => nomatch hnone)] at h
  exact of_decide_eq_true h

section Laws

variable {w w' : World} {s d m a : Pubkey} {x : UInt64}

/-- What a transfer that went through found, and what it left. To itself an account sends
nothing. -/
theorem legacyTransfer_ok (h : legacyTransfer w s d a x = .ok w') :
    ∃ ts td, w.token? s = some ts ∧ w.token? d = some td ∧ ts.mint = td.mint ∧
      legacyAuthority ts a x = true ∧ x.toNat ≤ ts.amount.toNat ∧
      (s = d → w' = w) ∧
      (s ≠ d → ∃ ts' n, ts.Becomes ts' (ts.amount.toNat - x.toNat) ∧
        n.toNat = td.amount.toNat + x.toNat ∧
        w' = (w.set s (.token ts')).set d (.token { td with amount := n })) := by
  unfold legacyTransfer at h
  split at h
  next ts td hs hd =>
    simp only [bind_ok_iff, failIf_ok_iff, not_not, UInt64.not_lt, Bool.not_eq_false] at h
    obtain ⟨-, -, -, hx, -, hm, -, ha, h⟩ := h
    refine ⟨ts, td, hs, hd, hm, ha, UInt64.le_iff_toNat_le.mp hx, ?_, ?_⟩
    · intro hsd
      rw [if_pos hsd, pure_ok_iff] at h
      exact h.symm
    · intro hsd
      rw [if_neg hsd] at h
      split at h
      next n hn =>
        exact ⟨_, n, TokenAccount.becomes_debited a hx, narrow_eq_some.mp hn, (pure_ok_iff.mp h).symm⟩
      next => cases h
  next => cases h

/-- What was there when tokens were minted, and where they went. -/
theorem legacyMintTo_ok (h : legacyMintTo w m d a x = .ok w') :
    ∃ mi t supply n, w.mint? m = some mi ∧ w.token? d = some t ∧ t.mint = m ∧
      mi.mintAuthority = some a ∧ supply.toNat = mi.supply.toNat + x.toNat ∧
      n.toNat = t.amount.toNat + x.toNat ∧
      w' = (w.set m (.mint { mi with supply := supply })).set d (.token { t with amount := n }) := by
  unfold legacyMintTo at h
  split at h
  next mi t hm hd =>
    simp only [bind_ok_iff, failIf_ok_iff, not_not] at h
    obtain ⟨-, -, -, htm, -, ha, h⟩ := h
    split at h
    next n supply hn hsup =>
      exact ⟨mi, t, supply, n, hm, hd, htm, ha, narrow_eq_some.mp hsup, narrow_eq_some.mp hn,
        (pure_ok_iff.mp h).symm⟩
    next => cases h
  next => cases h

/-- What was there when tokens were burned, and what was left. -/
theorem legacyBurn_ok (h : legacyBurn w s m a x = .ok w') :
    ∃ mi t supply t', w.mint? m = some mi ∧ w.token? s = some t ∧ t.mint = m ∧
      legacyAuthority t a x = true ∧ x.toNat ≤ t.amount.toNat ∧
      supply.toNat + x.toNat = mi.supply.toNat ∧
      t.Becomes t' (t.amount.toNat - x.toNat) ∧
      w' = (w.set m (.mint { mi with supply := supply })).set s (.token t') := by
  unfold legacyBurn at h
  split at h
  next mi t hm hs =>
    simp only [bind_ok_iff, failIf_ok_iff, not_not, UInt64.not_lt, Bool.not_eq_false] at h
    obtain ⟨-, -, -, hx, -, htm, -, ha, -, hsup, h⟩ := h
    have hsub := UInt64.toNat_sub_of_le _ _ hsup
    have hle := UInt64.le_iff_toNat_le.mp hsup
    exact ⟨mi, t, _, _, hm, hs, htm, ha, UInt64.le_iff_toNat_le.mp hx, by omega,
      TokenAccount.becomes_debited a hx, (pure_ok_iff.mp h).symm⟩
  next => cases h

/-- Enough of the right mint, unfrozen and with room for it: the transfer goes through. -/
theorem legacyTransfer_accepts {ts td : TokenAccount} (hs : w.token? s = some ts)
    (hd : w.token? d = some td) (hm : ts.mint = td.mint) (ha : legacyAuthority ts a x = true)
    (hfs : ts.frozen = false) (hfd : td.frozen = false) (hx : x.toNat ≤ ts.amount.toNat)
    (hfit : s ≠ d → td.amount.toNat + x.toNat < 2 ^ 64) :
    Succeeds (legacyTransfer w s d a x) := by
  have hlt : ¬ ts.amount < x := by
    rw [UInt64.lt_iff_toNat_lt]
    omega
  simp only [legacyTransfer, hs, hd, hfs, hfd, hm, ha, hlt, failIf, Bool.false_eq_true, or_self,
    ne_eq, not_true_eq_false, if_false, ok_bind, Bool.true_eq_false]
  by_cases hsd : s = d
  · rw [if_pos hsd]
    exact succeeds_ok w
  · rw [if_neg hsd, narrow_of_lt (hfit hsd)]
    exact succeeds_ok _

/-- The mint authority is not refused while supply and balance have room. -/
theorem legacyMintTo_accepts {mi : Mint} {t : TokenAccount} (hm : w.mint? m = some mi)
    (hd : w.token? d = some t) (htm : t.mint = m) (ha : mi.mintAuthority = some a)
    (hf : t.frozen = false) (hsup : mi.supply.toNat + x.toNat < 2 ^ 64)
    (hfit : t.amount.toNat + x.toNat < 2 ^ 64) : Succeeds (legacyMintTo w m d a x) := by
  simp only [legacyMintTo, hm, hd, hf, htm, ha, failIf, Bool.false_eq_true, ne_eq,
    not_true_eq_false, if_false, ok_bind, narrow_of_lt hsup, narrow_of_lt hfit]
  exact succeeds_ok _

/-- Enough of the right mint, unfrozen: the burn goes through. -/
theorem legacyBurn_accepts {mi : Mint} {t : TokenAccount} (hm : w.mint? m = some mi)
    (hs : w.token? s = some t) (htm : t.mint = m) (ha : legacyAuthority t a x = true)
    (hf : t.frozen = false) (hx : x.toNat ≤ t.amount.toNat) (hsup : x.toNat ≤ mi.supply.toNat) :
    Succeeds (legacyBurn w s m a x) := by
  have hlt : ¬ t.amount < x := by
    rw [UInt64.lt_iff_toNat_lt]
    omega
  have hlt' : ¬ mi.supply < x := by
    rw [UInt64.lt_iff_toNat_lt]
    omega
  simp only [legacyBurn, hm, hs, hf, htm, ha, hlt, hlt', failIf, Bool.false_eq_true, ne_eq,
    not_true_eq_false, if_false, ok_bind, Bool.true_eq_false]
  exact succeeds_ok _

end Laws

def legacyToken (id : Pubkey) : TokenProgram where
  id := id
  transfer := legacyTransfer
  mintTo := legacyMintTo
  burn := legacyBurn
  initializeAccount3 := legacyInitializeAccount3 id
  mayDebit := legacyAuthority
  mayBurn := legacyAuthority
  transfer_ok := legacyTransfer_ok
  mintTo_ok := legacyMintTo_ok
  burn_ok := legacyBurn_ok
  initializeAccount3_ok := by
    intro w k m o w' h
    simp only [legacyInitializeAccount3, bind_ok_iff, failIf_ok_iff, pure_ok_iff, not_not,
      Option.isNone_iff_eq_none, ← ne_eq, Option.ne_none_iff_exists'] at h
    obtain ⟨-, hk, -, hm, h⟩ := h
    exact ⟨hk, hm, h.symm⟩
  transfer_accepts := legacyTransfer_accepts
  mintTo_accepts := legacyMintTo_accepts
  burn_accepts := legacyBurn_accepts
  owner_mayDebit := fun h => by simp [legacyAuthority, h]
  owner_mayBurn := fun h => by simp [legacyAuthority, h]
  mayBurn_amount := rfl

/-! ## The chain -/

/-- An address by its number. -/
def addr (n : Nat) : Pubkey := ⟨BitVec.ofNat 256 n⟩

/-- Where the program addresses start. -/
def localBase : Nat := 2 ^ 80

/-- Program addresses: above every key, and one for each seed. -/
def localAddress : List Seed → Pubkey × UInt8
  | [_, .key m] => (addr (m.val.toNat + localBase), 255)
  | [_, .key m, .key c] => (addr (m.val.toNat * 1000 + c.val.toNat), 254)
  | _ => (addr 0, 0)

/-- An address of this chain is its number. -/
theorem toNat_addr {n : Nat} (h : n < 2 ^ 256) : (addr n).val.toNat = n := by
  rw [addr, BitVec.toNat_ofNat, Nat.mod_eq_of_lt h]

/-- The index address of a mint stands `localBase` above it. -/
theorem localAddress_index {m : Pubkey} (h : m.val.toNat < 2 * localBase) :
    (localAddress [seedIndex, .key m]).1.val.toNat = m.val.toNat + localBase :=
  toNat_addr (by unfold localBase at *; omega)

def localnet : Chain where
  token := legacyToken 7
  systemProgramId := 8
  findProgramAddress := localAddress
  createAccount := fun w _ k o =>
    if w.accounts k = .empty then .ok (w.set k (.allocated o)) else .error (.cpi 0)
  programId := 9
  inUse := fun k => k.val.toNat < 2 * localBase
  createAccount_ok := by
    intro w p k o w' h
    split at h
    next hk => exact ⟨hk, (Except.ok.inj h).symm⟩
    next => cases h
  index_inj := by
    intro m m' hm hm' h
    have he := congrArg (fun k : Pubkey => k.val.toNat) h
    simp only [localAddress_index hm, localAddress_index hm'] at he
    cases m
    cases m'
    exact congrArg Pubkey.mk (BitVec.eq_of_toNat_eq (Nat.add_right_cancel he))
  pda_debit := fun _ _ hd h => (legacyAuthority_owner hd h).symm
  pda_burn := fun _ _ hd h => (legacyAuthority_owner hd h).symm

/-- A key below the program addresses is nobody's index address. -/
theorem localnet_outsider {k : Pubkey} (h : k.val.toNat < localBase) : localnet.Outsider k := by
  rintro m hm rfl
  have he : (localnet.indexKey m).val.toNat = m.val.toNat + localBase := localAddress_index hm
  omega

/-! ## Worlds to start from -/

/-- The world that holds the listed accounts and nothing else. -/
def World.ofAccounts (clock : Int64) : List (Pubkey × Account) → World
  | [] => { accounts := fun _ => .empty, clock := clock }
  | (k, a) :: l => (ofAccounts clock l).set k a

/-- Tokens of mint `m` an account holds. -/
def Account.holding (m : Pubkey) : Account → Nat
  | .token t => if t.mint = m then t.amount.toNat else 0
  | _ => 0

/-- Tokens an account holds, of whatever mint. -/
def Account.tokens : Account → Nat
  | .token t => t.amount.toNat
  | _ => 0

/-- A list of accounts a deployment can start from: no index yet, fewer tokens
than a `u64` counts, and every mint has issued what is held of it. -/
def booksBalance (l : List (Pubkey × Account)) : Bool :=
  decide ((l.map fun e => e.2.tokens).sum < 2 ^ 64) &&
    l.all fun e => match e.2 with
      | .mint mi => decide ((l.map fun e' => e'.2.holding e.1).sum ≤ mi.supply.toNat)
      | .index _ => false
      | _ => true

/-- No more of a mint is held than the list says. An account listed twice counts once. -/
theorem World.total_ofAccounts_le (clock : Int64) (l : List (Pubkey × Account)) (m : Pubkey) :
    (World.ofAccounts clock l).total m ≤ (l.map fun e => e.2.holding m).sum := by
  induction l with
  | nil => simp [World.ofAccounts, World.total, World.held, World.token?]
  | cons e l ih =>
    obtain ⟨k, a⟩ := e
    have hset := World.total_set (World.ofAccounts clock l) k a m
    have hheld : ((World.ofAccounts clock l).set k a).held m k = a.holding m := by
      cases a <;> simp [World.held, World.token?, World.set_accounts, Account.holding]
    rw [List.map_cons, List.sum_cons, World.ofAccounts]
    simp only
    omega

/-- An account is listed, or it is empty. -/
theorem World.accounts_ofAccounts (clock : Int64) (l : List (Pubkey × Account)) (k : Pubkey) :
    (World.ofAccounts clock l).accounts k = .empty ∨
      (k, (World.ofAccounts clock l).accounts k) ∈ l := by
  induction l with
  | nil => exact .inl rfl
  | cons e l ih =>
    rw [World.ofAccounts, World.set_accounts]
    by_cases hk : k = e.1
    · rw [if_pos hk, hk]
      exact .inr (List.mem_cons_self ..)
    · rw [if_neg hk]
      exact ih.imp id (List.mem_cons_of_mem _)

/-- A list whose books balance is a world to start from. -/
theorem genesis_ofAccounts {l : List (Pubkey × Account)} (clock : Int64)
    (h : booksBalance l = true) : Genesis (World.ofAccounts clock l) := by
  rw [booksBalance, Bool.and_eq_true, decide_eq_true_eq, List.all_eq_true] at h
  obtain ⟨hfit, hall⟩ := h
  refine ⟨?_, ?_, ?_⟩
  · intro k
    rcases World.accounts_ofAccounts clock l k with hk | hk
    · simp [World.index?, hk]
    · have hx := hall _ hk
      unfold World.index?
      split
      next i hi => simp [hi] at hx
      next => rfl
  · intro m
    have hle : (l.map fun e => e.2.holding m).sum ≤ (l.map fun e => e.2.tokens).sum := by
      refine List.sum_le_sum fun e _ => ?_
      cases e.2 <;> simp only [Account.holding, Account.tokens, le_refl]
      split <;> omega
    exact lt_of_le_of_lt ((World.total_ofAccounts_le clock l m).trans hle) hfit
  · intro m mi hm _
    have ha := World.accounts_of_mint? hm
    rcases World.accounts_ofAccounts clock l m with hk | hk
    · simp [ha] at hk
    · have hx := hall _ hk
      simp only [ha, decide_eq_true_eq] at hx
      exact (World.total_ofAccounts_le clock l m).trans hx

/-! ## Runs -/

/-- What can happen in a concrete run. -/
inductive Act where
  | call (accounts : List AccountInfo) (ix : FlockInstruction)
  | tick (t : Int64)
  | transfer (source destination authority : Pubkey) (amount : UInt64)
  | burn (account mint authority : Pubkey) (amount : UInt64)

def Act.run (ch : Chain) (w : World) : Act → Except ProgramError World
  | .call accounts ix => process ch w accounts ix
  | .tick t => do
    failIf (¬ w.clock ≤ t) .panicked
    pure { w with clock := t }
  | .transfer s d a x => ch.token.transfer w s d a x
  | .burn s m a x => ch.token.burn w s m a x

/-- A tick moves the clock forward and nothing else. -/
theorem Act.tick_ok {ch : Chain} {w w' : World} {t : Int64} (h : (Act.tick t).run ch w = .ok w') :
    w.clock ≤ t ∧ w' = { w with clock := t } := by
  obtain ⟨_, ht, h⟩ := bind_ok_iff.mp h
  exact ⟨not_not.mp (failIf_ok_iff.mp ht), (Except.ok.inj h).symm⟩

/-- Run the acts on `localnet`, each of them only if it passes a check in the
world it starts from. -/
def perform (check : World → Act → Bool) (w : World) : List Act → Except ProgramError World
  | [] => .ok w
  | act :: acts => do
    failIf (check w act = false) .panicked
    let w ← act.run localnet w
    perform check w acts

/-- Acts that pass a test make a run of any relation the test guarantees. -/
theorem perform_run {check : World → Act → Bool} {R : World → World → Prop}
    (hR : ∀ {w w' act}, check w act = true → act.run localnet w = .ok w' → R w w')
    {w w' : World} {acts : List Act} (h : perform check w acts = .ok w') :
    Relation.ReflTransGen R w w' := by
  induction acts generalizing w with
  | nil =>
    obtain rfl := Except.ok.inj h
    exact .refl
  | cons act acts ih =>
    simp only [perform, bind_ok_iff, failIf_ok_iff, Bool.not_eq_false] at h
    obtain ⟨-, hcheck, w₁, h₁, h₂⟩ := h
    exact .head (hR hcheck h₁) (ih h₂)

/-- No key but those below the program addresses signs. -/
def Act.permitted : Act → Bool
  | .call accounts _ => accounts.all fun a =>
      decide (a.key.val.toNat < 2 * localBase) &&
        (! a.isSigner || decide (a.key.val.toNat < localBase))
  | .tick _ => true
  | .transfer _ _ a _ => decide (a.val.toNat < localBase)
  | .burn _ _ a _ => decide (a.val.toNat < localBase)

/-- What may be called here is signed by nobody that cannot sign. -/
theorem Act.signable {accounts : List AccountInfo} {ix : FlockInstruction}
    (h : (Act.call accounts ix).permitted = true) : Signable localnet accounts := by
  rw [Act.permitted, List.all_eq_true] at h
  constructor
  · intro a ha
    have hx := h a ha
    rw [Bool.and_eq_true, decide_eq_true_eq] at hx
    exact hx.1
  · intro a ha hs
    have hx := h a ha
    rw [Bool.and_eq_true, hs] at hx
    exact localnet_outsider (by simpa using hx.2)

/-- A permitted act that is no call is a step of somebody else. -/
theorem Act.outside {w w' : World} {act : Act} (hp : act.permitted = true)
    (hc : ∀ accounts ix, act ≠ .call accounts ix) (h : act.run localnet w = .ok w') :
    Outside localnet w w' := by
  cases act with
  | call accounts ix => exact absurd rfl (hc accounts ix)
  | tick t =>
    obtain ⟨ht, rfl⟩ := Act.tick_ok h
    exact Outside.tick ht
  | transfer s d a x =>
    exact Outside.transfer (localnet_outsider (by simpa [Act.permitted] using hp)) h
  | burn s m a x =>
    exact Outside.burn (localnet_outsider (by simpa [Act.permitted] using hp)) h

/-- An act that is permitted and goes through is a step of the chain. -/
theorem Act.step {w w' : World} {act : Act} (hp : act.permitted = true)
    (h : act.run localnet w = .ok w') : Step localnet w w' := by
  by_cases hc : ∀ accounts ix, act ≠ .call accounts ix
  · exact .outside (Act.outside hp hc h)
  · simp only [not_forall, not_not] at hc
    obtain ⟨accounts, ix, rfl⟩ := hc
    exact .call (Act.signable hp) h

/-- The run returned, and what it returned passes a test. -/
def endsIn {α : Type} (x : Except ProgramError α) (p : α → Bool) : Bool :=
  match x with
  | .ok a => p a
  | .error _ => false

/-- The test of a result, as a statement about it. -/
theorem endsIn_iff {α : Type} {x : Except ProgramError α} {p : α → Bool} :
    endsIn x p = true ↔ ∃ a, x = .ok a ∧ p a = true := by
  unfold endsIn
  split <;> simp

/-- The run stopped with this error. -/
def failsWith {α : Type} (x : Except ProgramError α) (e : ProgramError) : Bool :=
  match x with
  | .ok _ => false
  | .error e' => decide (e' = e)

/-- The test of an error, as a statement about it. -/
theorem failsWith_iff {α : Type} {x : Except ProgramError α} {e : ProgramError} :
    failsWith x e = true ↔ x = .error e := by
  unfold failsWith
  split <;> simp

/-- A key that signs, and one that does not. -/
def signer (n : Nat) : AccountInfo := ⟨addr n, true⟩
def account (n : Nat) : AccountInfo := ⟨addr n, false⟩

def tokenAccount (mint owner : Nat) (amount : UInt64) : Account :=
  .token { mint := addr mint, owner := addr owner, amount, delegate := none, frozen := false }

/-! ## A fund on this chain

Mint 1 is the index, mints 2 and 3 its components; their vaults are 1002 and
1003. Holder 40 has accounts 20, 21 and 22 of the three mints, the fee recipient
41 has account 30, the governor is 60 and the manager 61.
-/

def localIndex : Pubkey := localnet.indexKey (addr 1)

def indexAccount : AccountInfo := ⟨localIndex, false⟩

def localAccounts : List (Pubkey × Account) :=
  [(addr 1, .mint { mintAuthority := some localIndex, supply := 0, decimals := 9,
                    freezeAuthority := none }),
   (addr 2, .mint { mintAuthority := none, supply := 2000000000000000000, decimals := 6,
                    freezeAuthority := none }),
   (addr 3, .mint { mintAuthority := none, supply := 2000000000000000000, decimals := 9,
                    freezeAuthority := none }),
   (addr 20, tokenAccount 1 40 0), (addr 30, tokenAccount 1 41 0),
   (addr 21, tokenAccount 2 40 2000000000000000000),
   (addr 22, tokenAccount 3 40 2000000000000000000)]

def localWorld : World := .ofAccounts 0 localAccounts

/-- The local world is one to start from. -/
theorem localWorld_genesis : Genesis localWorld := genesis_ofAccounts 0 (by decide +kernel)

/-- The fees a fund opens with. -/
structure LocalFees where
  streaming : UInt16
  issue : UInt16
  redeem : UInt16
  maxPremium : UInt16

/-- Create the index, list both components with these units, and seal it. -/
def openFund (fees : LocalFees) (units₂ units₃ : UInt64) : List Act :=
  [.call [signer 40, indexAccount, account 1, account 60, account 61, account 41, account 8]
     (.initIndex (.replicate 32 0) (.replicate 12 0) fees.streaming fees.issue fees.redeem
       fees.maxPremium 300),
   .call [signer 61, signer 40, indexAccount, account 1, account 2, account 1002, account 8,
     account 7] (.addComponent units₂),
   .call [signer 61, signer 40, indexAccount, account 1, account 3, account 1003, account 8,
     account 7] (.addComponent units₃),
   .call [signer 61, indexAccount, account 1] .sealIndex]

/-- Holder 40 issues or redeems. -/
def tradeAccounts : List AccountInfo :=
  [signer 40, indexAccount, account 1, account 20, account 30, account 7, account 1002, account 21,
   account 1003, account 22]

def localIssue (amount : UInt64) : Act :=
  .call tradeAccounts (.issue amount [2000000000000000000, 2000000000000000000])

def localRedeem (amount : UInt64) : Act := .call tradeAccounts (.redeem amount [0, 0])

def localAccrue : Act :=
  .call [indexAccount, account 1, account 30, account 7, account 1002, account 1003] .accrueFees

def proposeAccounts : List AccountInfo :=
  [signer 61, indexAccount, account 1, account 1002, account 1003]

/-- The manager proposes target units and prices for both components; the
auction opens 300 seconds later, at a premium of zero throughout. -/
def localPropose (target₂ target₃ price₂ price₃ : UInt64) (premium : Int16)
    (maxNavLoss : UInt16) : Act :=
  .call proposeAccounts
    (.proposeRebalance [target₂, target₃] [price₂, price₃] 3600 premium premium maxNavLoss)

/-- Holder 40 bids for component 3 and pays in component 2. -/
def bidAccounts : List AccountInfo :=
  [signer 40, indexAccount, account 1, account 22, account 21, account 7, account 1002, account 1003]

/-- The accounts of a trade can be passed as they are. -/
theorem trade_signable : Signable localnet tradeAccounts := by
  have hp : (Act.call tradeAccounts .sealIndex).permitted = true := by decide +kernel
  exact Act.signable hp

/-- The accounts of a proposal can be passed as they are. -/
theorem propose_signable : Signable localnet proposeAccounts := by
  have hp : (Act.call proposeAccounts .sealIndex).permitted = true := by decide +kernel
  exact Act.signable hp

/-- The accounts of a bid can be passed as they are. -/
theorem bid_signable : Signable localnet bidAccounts := by
  have hp : (Act.call bidAccounts .sealIndex).permitted = true := by decide +kernel
  exact Act.signable hp

/-- The local index is there and passes a test. -/
def indexPasses (p : World → Index → Bool) (w : World) : Bool :=
  match w.index? localIndex with
  | some idx => p w idx
  | none => false

/-- The test of the local record, as a statement about it. -/
theorem indexPasses_iff {p : World → Index → Bool} {w : World} :
    indexPasses p w = true ↔ ∃ idx, w.index? localIndex = some idx ∧ p w idx = true := by
  unfold indexPasses
  split
  next idx hidx => simp [hidx]
  next h => simp [h]

/-- What a permitted run from the start ends in is reachable. -/
theorem exists_of_run (acts : List Act) (p : World → Index → Bool)
    (h : endsIn (perform (fun _ act => act.permitted) localWorld acts) (indexPasses p) = true) :
    ∃ (w : World) (idx : Index), Reachable localnet w ∧ w.index? localIndex = some idx ∧
      p w idx = true := by
  obtain ⟨w, hw, hpass⟩ := endsIn_iff.mp h
  obtain ⟨idx, hidx, hp⟩ := indexPasses_iff.mp hpass
  exact ⟨w, idx, ⟨localWorld, localWorld_genesis, perform_run Act.step hw⟩, hidx, hp⟩

end Flock
