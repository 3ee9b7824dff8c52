import Flock.Allocation
import Flock.Authority
import Flock.PlanRun
import Flock.Wire

/-!
# Launching an index: `create`

The CLI brings an index into being with one transaction after another: the mint, the
record, a transaction for each component, the seal, an account for the fees. Whatever does
not land ends the command where it is. In between the rest of the world goes on, and the
account of the index stands open to whoever calls: `initIndex` asks nobody but the one who
pays to sign.

What holds it together is that from the record on the manager's and the governor's
signatures are needed for everything a stranger might want to put in. `Stage` says what
stands on chain after the first transactions, and `create_as_asked` is the result: nobody
can issue before the seal, and what is sealed is the table that was asked for.
-/

namespace Flock

open Outcome MachineInt

variable {ch : Chain} {m : Pubkey} {w w' : World} {idx idx' : Index}

/-! ## A record with no auction on -/

/-- Without its keys, a record with no auction on is refreshed at most, and before the seal
not even that. -/
theorem StrangerStep.refreshes (hW : AllWf ch w) (hm : ch.inUse m)
    (hidx : w.index? (ch.indexKey m) = some idx) (hquiet : idx.rebalance.active = 0)
    (h : StrangerStep ch idx.governor idx.manager w w') :
    ∃ idx', w'.index? (ch.indexKey m) = some idx' ∧ idx.Refreshes idx' ∧
      (idx.state = stateBootstrapping → idx' = idx) := by
  cases h with
  | outside ho => exact ⟨idx, by rw [ho.records, hidx], .refl idx, fun _ => rfl⟩
  | call signable done noGovernor noManager =>
    rcases hW.record_cases hm hidx signable done with ⟨-, hsame⟩ | ⟨-, idx', hidx', hchange⟩
    · exact ⟨idx, hsame, .refl idx, fun _ => rfl⟩
    · cases hchange with
      | market market sealed refreshes =>
        exact ⟨idx', hidx', refreshes, fun hb => absurd hb sealed⟩
      | added signed | sealed signed | proposed signed => exact absurd signed noManager
      | ended signed ended => exact absurd hquiet ended.active
      | params signed | authority signed => exact absurd signed noGovernor
      | @paused paused sealed brake release =>
        cases paused with
        | true => exact ((brake rfl).elim noGovernor noManager).elim
        | false => exact absurd (release rfl) noGovernor

/-- An address that held nothing comes to hold something other than a record. -/
theorem Undisturbed.of_fresh {k : Pubkey} {a : Account} (hempty : w.accounts k = .empty)
    (ha : ∀ i, a ≠ .index i) : Undisturbed ch m w (w.set k a) := by
  have hother : ∀ {j : Pubkey}, w.accounts j ≠ .empty → (w.set k a).accounts j = w.accounts j := by
    intro j hj
    rw [World.set_accounts, if_neg]
    intro hjk
    exact hj (by rw [hjk, hempty])
  refine ⟨Int64.le_refl _, ?_, ?_, ?_⟩
  · unfold World.index?
    by_cases hk : ch.indexKey m = k
    · rw [World.set_accounts, if_pos hk, hk, hempty]
      cases a with
      | index i => exact absurd rfl (ha i)
      | empty | allocated | mint | token | foreign => rfl
    · rw [World.set_accounts, if_neg hk]
  · intro mi hmi _
    have hacc := World.accounts_of_mint? hmi
    refine ⟨mi, ?_, rfl, rfl, rfl, le_refl _⟩
    unfold World.mint?
    rw [hother (by rw [hacc]; nofun), hacc]
  · intro j t ht ho hd
    have hacc := World.accounts_of_token? ht
    refine ⟨t, ?_, rfl, rfl, hd, le_refl _⟩
    unfold World.token?
    rw [hother (by rw [hacc]; nofun), hacc]

/-- An account where there was none, and no record, leaves every index well formed. -/
theorem AllWf.of_fresh {k : Pubkey} {a : Account} (hW : AllWf ch w)
    (hempty : w.accounts k = .empty) (ha : ∀ i, a ≠ .index i) : AllWf ch (w.set k a) := by
  intro j idx hidx
  have hold : w.index? j = some idx := by
    have hacc := World.accounts_of_index? hidx
    rw [World.set_accounts] at hacc
    by_cases hj : j = k
    · rw [if_pos hj] at hacc
      exact absurd hacc (ha idx)
    · rw [if_neg hj] at hacc
      rw [World.index?, hacc]
  obtain ⟨hj, hwf⟩ := hW hold
  exact ⟨hj, hwf.of_undisturbed (.of_fresh hempty ha)⟩

namespace Cli

open Sdk

/-! ## The command -/

/-- What ends a command. -/
inductive Failure where
  /-- `Every component needs a positive unit amount` -/
  | noUnits
  /-- A `Buffer` has no room for a number. -/
  | outOfRange (e : OutOfRange)
  /-- A signature is missing, and nothing is sent. -/
  | unsigned
  /-- What the chain answers, as `explainError` puts it. -/
  | refused (e : ProgramError)
  deriving DecidableEq

/-- `SystemProgram.createAccount` and `createInitializeMint2Instruction`, in one
transaction. -/
structure MintCreation where
  create : World → (mint : Pubkey) → (decimals : UInt8) → (mintAuthority : Pubkey) →
    (freezeAuthority : Option Pubkey) → Except ProgramError World
  create_ok : ∀ {w mint decimals mintAuthority freezeAuthority w'},
    create w mint decimals mintAuthority freezeAuthority = .ok w' →
    w.accounts mint = .empty ∧ w' = w.set mint
      (.mint { mintAuthority := some mintAuthority, supply := 0, decimals, freezeAuthority })

structure CreateOptions where
  name : JsString
  symbol : JsString
  streamingFeeBps : Int
  issueFeeBps : Int
  redeemFeeBps : Int
  maxPremiumBps : Int
  rebalanceDelay : Int
  governor : Option Pubkey
  manager : Option Pubkey
  feeRecipient : Option Pubkey

/-- `options.governor ? new PublicKey(options.governor) : payer.publicKey`, and likewise the
other two. -/
def CreateOptions.governorOr (options : CreateOptions) (payer : Pubkey) : Pubkey :=
  options.governor.getD payer

def CreateOptions.managerOr (options : CreateOptions) (payer : Pubkey) : Pubkey :=
  options.manager.getD payer

def CreateOptions.feeRecipientOr (options : CreateOptions) (payer : Pubkey) : Pubkey :=
  options.feeRecipient.getD payer

/-- What a command sends. An instruction is built when its turn comes. -/
inductive Transaction where
  | createMint (mint : Pubkey) (decimals : UInt8) (mintAuthority : Pubkey)
      (freezeAuthority : Option Pubkey)
  | call (built : Except OutOfRange TransactionInstruction)
  | createFeeAccount (mint owner : Pubkey)

section

variable (ch : Chain) (lib : Library) (ata : Keeper.AssociatedTokens) (mints : MintCreation)

/-- `ix.addComponent` for an entry of the table. -/
def addEntry (options : CreateOptions) (payer indexMint : Pubkey) (entry : Pubkey × Int) :
    Transaction :=
  .call (Sdk.addComponent lib
    { programId := ch.programId
      manager := options.managerOr payer
      payer
      indexMint
      componentMint := entry.1
      units := entry.2 })

/-- `create`, from the table on. -/
def create (options : CreateOptions) (payer indexMint : Pubkey) (table : List (Pubkey × Int)) :
    Except Failure (List Transaction) :=
  if ∃ entry ∈ table, entry.2 ≤ 0 then .error .noUnits
  else .ok
    (.createMint indexMint 9 (indexPda lib ch.programId indexMint).1 none ::
      .call (Sdk.initIndex lib
        { programId := ch.programId
          payer
          indexMint
          governor := options.governorOr payer
          manager := options.managerOr payer
          feeRecipient := options.feeRecipientOr payer
          name := options.name
          symbol := options.symbol
          streamingFeeBps := options.streamingFeeBps
          issueFeeBps := options.issueFeeBps
          redeemFeeBps := options.redeemFeeBps
          maxPremiumBps := options.maxPremiumBps
          rebalanceDelay := options.rebalanceDelay }) ::
      (table.map (addEntry ch lib options payer indexMint) ++
        [.call (Sdk.sealIndex lib
          { programId := ch.programId, manager := options.managerOr payer, indexMint }),
         .createFeeAccount indexMint (options.feeRecipientOr payer)]))

/-- The accounts the program sees. A transaction holds each key once: one that signed is a
signer wherever it stands. -/
def accountsOf (signers : List Pubkey) (built : TransactionInstruction) : List AccountInfo :=
  built.keys.map fun key => ⟨key.pubkey, decide (key.pubkey ∈ signers)⟩

/-- A transaction with one instruction for the program. -/
def deliver (signers : List Pubkey) (w : World) (built : TransactionInstruction) :
    Except Failure World :=
  if ∃ key ∈ built.keys, key.isSigner = true ∧ key.pubkey ∉ signers then .error .unsigned
  else (processData ch w (accountsOf signers built) built.data).mapError .refused

/-- `send`. The payer signs, and for its own account the mint. -/
def send (payer : Pubkey) (w : World) : Transaction → Except Failure World
  | .createMint mint decimals mintAuthority freezeAuthority =>
    (mints.create w mint decimals mintAuthority freezeAuthority).mapError .refused
  | .call built => do
    let built ← built.mapError .outOfRange
    deliver ch [payer] w built
  | .createFeeAccount mint owner => (ata.createIdempotent w mint owner).mapError .refused

/-- These transactions have landed, one after another, and between them anything may have
happened that neither of two keys signs. -/
inductive Landed (payer governor manager : Pubkey) (w₀ : World) :
    List Transaction → World → Prop where
  | none : Landed payer governor manager w₀ [] w₀
  | next {txs : List Transaction} {tx : Transaction} {w w' : World}
      (run : Landed payer governor manager w₀ txs w)
      (signable : ∀ built, tx = .call (.ok built) → Signable ch (accountsOf [payer] built))
      (done : send ch ata mints payer w tx = .ok w') :
      Landed payer governor manager w₀ (txs ++ [tx]) w'
  | meanwhile {txs : List Transaction} {w w' : World}
      (run : Landed payer governor manager w₀ txs w) (h : StrangerStep ch governor manager w w') :
      Landed payer governor manager w₀ txs w'

end

/-! ## What a transaction asks of the program -/

section Requests

variable {lib : Library} {signers : List Pubkey} {built : TransactionInstruction}

/-- What was written as a `u16` is one. -/
theorem u16_ok {writer writer' : Writer} {value : Int} (h : writer.u16 value = .ok writer') :
    ∃ x : UInt16, value = x.toNat := by
  obtain ⟨x, hx, rfl, -⟩ := Writer.uint_ok_iff.mp h
  exact ⟨UInt16.ofNat x, by rw [UInt16.toNat_ofNat_of_lt' hx]⟩

/-- What was written as a `u32` is one. -/
theorem u32_ok {writer writer' : Writer} {value : Int} (h : writer.u32 value = .ok writer') :
    ∃ x : UInt32, value = x.toNat := by
  obtain ⟨x, hx, rfl, -⟩ := Writer.uint_ok_iff.mp h
  exact ⟨UInt32.ofNat x, by rw [UInt32.toNat_ofNat_of_lt' hx]⟩

/-- What was built asked for numbers with room in their fields. -/
theorem initIndex_request {args : InitIndexArgs} (h : Sdk.initIndex lib args = .ok built) :
    ∃ (streaming issue redeem premium : UInt16) (delay : UInt32),
      args.streamingFeeBps = streaming.toNat ∧ args.issueFeeBps = issue.toNat ∧
      args.redeemFeeBps = redeem.toNat ∧ args.maxPremiumBps = premium.toNat ∧
      args.rebalanceDelay = delay.toNat ∧
      (Request.initIndex args.payer args.indexMint args.governor args.manager args.feeRecipient
        args.name args.symbol streaming issue redeem premium delay).sdk lib args.programId
          = .ok built := by
  obtain ⟨_, -, h₁⟩ := bind_ok_iff.mp h
  obtain ⟨_, hs, h₂⟩ := bind_ok_iff.mp h₁
  obtain ⟨_, hi, h₃⟩ := bind_ok_iff.mp h₂
  obtain ⟨_, hr, h₄⟩ := bind_ok_iff.mp h₃
  obtain ⟨_, hp, h₅⟩ := bind_ok_iff.mp h₄
  obtain ⟨_, hd, -⟩ := bind_ok_iff.mp h₅
  obtain ⟨streaming, hs⟩ := u16_ok hs
  obtain ⟨issue, hi⟩ := u16_ok hi
  obtain ⟨redeem, hr⟩ := u16_ok hr
  obtain ⟨premium, hp⟩ := u16_ok hp
  obtain ⟨delay, hd⟩ := u32_ok hd
  refine ⟨streaming, issue, redeem, premium, delay, hs, hi, hr, hp, hd, ?_⟩
  rw [Request.sdk, ← hs, ← hi, ← hr, ← hp, ← hd]
  exact h

/-- An `AddComponent` that was built is one of a request. -/
theorem addComponent_request {args : AddComponentArgs}
    (h : Sdk.addComponent lib args = .ok built) : ∃ units : UInt64, args.units = units.toNat ∧
      (Request.addComponent args.manager args.payer args.indexMint args.componentMint units).sdk lib
        args.programId = .ok built := by
  obtain ⟨_, -, h₁⟩ := bind_ok_iff.mp h
  obtain ⟨_, hu, -⟩ := bind_ok_iff.mp h₁
  obtain ⟨units, hu, -⟩ := Writer.u64_ok_iff.mp hu
  refine ⟨units, hu, ?_⟩
  rw [Request.sdk, ← hu]
  exact h

/-- A `SealIndex` that was built is one of a request. -/
theorem sealIndex_request {args : SealIndexArgs} (h : Sdk.sealIndex lib args = .ok built) :
    (Request.sealIndex args.manager args.indexMint).sdk lib args.programId = .ok built := h

/-- What lands was signed, and is what the data say. -/
theorem deliver_ok {ix : FlockInstruction} (hdata : built.data = ix.serialize) (hfit : ix.Fits)
    (h : deliver ch signers w built = .ok w') :
    (∀ key ∈ built.keys, key.isSigner = true → key.pubkey ∈ signers) ∧
      process ch w (accountsOf signers built) ix = .ok w' := by
  unfold deliver at h
  by_cases hunsigned : ∃ key ∈ built.keys, key.isSigner = true ∧ key.pubkey ∉ signers
  · rw [if_pos hunsigned] at h
    cases h
  · rw [if_neg hunsigned, hdata, processData_serialize hfit] at h
    refine ⟨?_, mapError_ok_iff.mp h⟩
    intro key hkey hs
    by_contra hnot
    exact hunsigned ⟨key, hkey, hs, hnot⟩

/-- What lands is what the program was asked for. -/
theorem deliver_request {r : Request} (hbuilt : r.sdk lib ch.programId = .ok built)
    (h : deliver ch signers w built = .ok w') :
    (∀ key ∈ built.keys, key.isSigner = true → key.pubkey ∈ signers) ∧
      built.keys = (r.program lib ch.programId).accounts ∧
      process ch w (accountsOf signers built) r.instruction = .ok w' := by
  obtain ⟨built', hbuilt', -, hkeys, hdata⟩ := r.sdk_built lib ch.programId
  obtain rfl := Except.ok.inj (hbuilt.symm.trans hbuilt')
  obtain ⟨hsigned, hdone⟩ := deliver_ok (hdata.trans (r.program_data lib ch.programId)) r.instruction_fits h
  exact ⟨hsigned, hkeys, hdone⟩

variable {ata : Keeper.AssociatedTokens} {mints : MintCreation} {payer : Pubkey}

/-- What was sent was built, and delivered. -/
theorem exists_built {x : Except OutOfRange TransactionInstruction}
    (h : send ch ata mints payer w (.call x) = .ok w') :
    ∃ built, x = .ok built ∧ deliver ch [payer] w built = .ok w' := by
  obtain ⟨built, hx, hd⟩ := bind_ok_iff.mp h
  exact ⟨built, mapError_ok_iff.mp hx, hd⟩

/-- The record a landed `initIndex` leaves. -/
theorem initIndex_landed {args : InitIndexArgs} (hprogram : args.programId = ch.programId)
    (hbuilt : Sdk.initIndex lib args = .ok built) (h : deliver ch [payer] w built = .ok w') :
    ∃ ix p, process ch w (accountsOf [payer] built) ix = .ok w' ∧
      Initialized ch args.indexMint w w' args.governor args.manager args.feeRecipient p ∧
      p.name = fixedBytes args.name 32 ∧ p.symbol = fixedBytes args.symbol 12 ∧
      args.streamingFeeBps = p.streamingFeeBps.toNat ∧ args.issueFeeBps = p.issueFeeBps.toNat ∧
      args.redeemFeeBps = p.redeemFeeBps.toNat ∧ args.maxPremiumBps = p.maxPremiumBps.toNat ∧
      args.rebalanceDelay = p.rebalanceDelay.toNat := by
  obtain ⟨streaming, issue, redeem, premium, delay, hs, hi, hr, hp, hd, hrequest⟩ :=
    initIndex_request hbuilt
  rw [hprogram] at hrequest
  obtain ⟨-, hkeys, hdone⟩ := deliver_request hrequest h
  refine ⟨_, ⟨fixedBytes args.name 32, fixedBytes args.symbol 12, streaming, issue, redeem, premium,
    delay⟩, hdone, ?_, rfl, rfl, hs, hi, hr, hp, hd⟩
  rw [accountsOf, hkeys] at hdone
  exact @initIndex_initialized ch _ w w' _ _ [] _ _ _ _ _ _ rfl hdone

/-- The component a landed `addComponent` lists; its manager signed. -/
theorem addComponent_landed {args : AddComponentArgs} (hprogram : args.programId = ch.programId)
    (hbuilt : Sdk.addComponent lib args = .ok built) (h : deliver ch [payer] w built = .ok w') :
    ∃ ix idx c, process ch w (accountsOf [payer] built) ix = .ok w' ∧
      w.index? (ch.indexKey args.indexMint) = some idx ∧ c.mint = args.componentMint ∧
      args.units = c.units.toNat ∧ Added ch args.indexMint idx w w' c args.manager ∧
      args.manager = payer := by
  obtain ⟨units, hu, hrequest⟩ := addComponent_request hbuilt
  rw [hprogram] at hrequest
  obtain ⟨hsigned, hkeys, hdone⟩ := deliver_request hrequest h
  have hmanager : args.manager ∈ [payer] := by
    refine hsigned (signerRo args.manager) ?_ rfl
    rw [hkeys]
    exact List.mem_cons_self
  have hdone' := hdone
  rw [accountsOf, hkeys] at hdone'
  obtain ⟨-, idx, c, hidx, hc, rfl, hadded⟩ :=
    @addComponent_added ch _ w w' _ _ [] _ _ _ _ _ _ _ rfl hdone'
  exact ⟨_, idx, c, hdone, hidx, hc, hu, hadded, List.mem_singleton.mp hmanager⟩

/-- A seal that landed sealed the record that was there. -/
theorem sealIndex_landed {args : SealIndexArgs} (hprogram : args.programId = ch.programId)
    (hbuilt : Sdk.sealIndex lib args = .ok built) (h : deliver ch [payer] w built = .ok w') :
    ∃ ix idx, process ch w (accountsOf [payer] built) ix = .ok w' ∧
      w.index? (ch.indexKey args.indexMint) = some idx ∧
      Sealed ch args.indexMint idx w w' args.manager ∧ args.manager = payer := by
  have hrequest := sealIndex_request hbuilt
  rw [hprogram] at hrequest
  obtain ⟨hsigned, hkeys, hdone⟩ := deliver_request hrequest h
  have hmanager : args.manager ∈ [payer] := by
    refine hsigned (signerRo args.manager) ?_ rfl
    rw [hkeys]
    exact List.mem_cons_self
  have hdone' := hdone
  rw [accountsOf, hkeys] at hdone'
  obtain ⟨-, idx, hidx, hsealed⟩ := @sealIndex_sealed ch _ w w' _ _ [] _ rfl hdone'
  exact ⟨_, idx, hdone, hidx, hsealed, List.mem_singleton.mp hmanager⟩

end Requests

/-! ## What stands after the first transactions -/

/-- The record is the one that was asked for, with these entries in its table. -/
structure AsAsked (options : CreateOptions) (payer indexMint : Pubkey)
    (entries : List (Pubkey × Int)) (idx : Index) : Prop where
  indexMint : idx.indexMint = indexMint
  governor : idx.governor = options.governorOr payer
  manager : idx.manager = options.managerOr payer
  feeRecipient : idx.feeRecipient = options.feeRecipientOr payer
  name : idx.name = fixedBytes options.name 32
  symbol : idx.symbol = fixedBytes options.symbol 12
  streamingFeeBps : options.streamingFeeBps = idx.streamingFeeBps.toNat
  issueFeeBps : options.issueFeeBps = idx.issueFeeBps.toNat
  redeemFeeBps : options.redeemFeeBps = idx.redeemFeeBps.toNat
  maxPremiumBps : options.maxPremiumBps = idx.maxPremiumBps.toNat
  rebalanceDelay : options.rebalanceDelay = idx.rebalanceDelay.toNat
  table : idx.components.map (fun c => (c.mint, (c.targetUnits.toNat : Int))) = entries
  quiet : idx.rebalance.active = 0

/-- After the first `n` transactions of `create`. -/
structure Stage (ch : Chain) (options : CreateOptions) (payer indexMint : Pubkey)
    (table : List (Pubkey × Int)) (n : Nat) (w : World) : Prop where
  wf : AllWf ch w
  record : 2 ≤ n → ∃ idx, w.index? (ch.indexKey indexMint) = some idx ∧
    AsAsked options payer indexMint (table.take (n - 2)) idx ∧
    (n ≤ table.length + 2 → idx.state = stateBootstrapping ∧
      ∀ c ∈ idx.components, c.units = c.targetUnits) ∧
    (table.length + 2 < n → idx.state = stateLive)
  signed : 3 ≤ n → options.managerOr payer = payer

section Stages

variable {lib : Library} {ata : Keeper.AssociatedTokens} {mints : MintCreation}
  {payer indexMint : Pubkey} {options : CreateOptions} {table entries : List (Pubkey × Int)}
  {n : Nat}

/-- New units and a moved fee clock leave the record as asked. -/
theorem AsAsked.of_refreshes (h : AsAsked options payer indexMint entries idx)
    (hr : idx.Refreshes idx') : AsAsked options payer indexMint entries idx' := by
  have htable := map_eq_of_shape (fun c => (c.mint, (c.targetUnits.toNat : Int)))
    (fun _ => rfl) hr.shape
  obtain ⟨h₁, h₂, h₃, h₄, h₅, h₆, h₇, h₈, h₉, h₁₀, h₁₁, h₁₂, h₁₃⟩ := h
  refine ⟨?_, ?_, ?_, ?_, ?_, ?_, ?_, ?_, ?_, ?_, ?_, htable.trans h₁₂, ?_⟩ <;> rw [hr.record]
  all_goals assumption

/-- Whatever strangers do in between, the stage is the same. -/
theorem Stage.meanwhile (h : Stage ch options payer indexMint table n w)
    (hm : ch.inUse indexMint)
    (hs : StrangerStep ch (options.governorOr payer) (options.managerOr payer) w w') :
    Stage ch options payer indexMint table n w' := by
  refine ⟨hs.step.allWf h.wf, fun hn => ?_, h.signed⟩
  obtain ⟨idx, hidx, hasked, hopen, hlive⟩ := h.record hn
  have hs' : StrangerStep ch idx.governor idx.manager w w' := by
    rw [hasked.governor, hasked.manager]
    exact hs
  obtain ⟨idx', hidx', hrefreshes, hsame⟩ := hs'.refreshes h.wf hm hidx hasked.quiet
  refine ⟨idx', hidx', hasked.of_refreshes hrefreshes, fun hle => ?_, fun hlt => ?_⟩
  · obtain ⟨hboot, hunits⟩ := hopen hle
    rw [hsame hboot]
    exact ⟨hboot, hunits⟩
  · rw [hrefreshes.record]
    exact hlive hlt

/-- An account that was not there before is of no consequence. -/
theorem Stage.of_fresh {k : Pubkey} {a : Account} (h : Stage ch options payer indexMint table n w)
    (hempty : w.accounts k = .empty) (ha : ∀ i, a ≠ .index i) :
    Stage ch options payer indexMint table n (w.set k a) := by
  refine ⟨AllWf.of_fresh h.wf hempty ha, fun hn => ?_, h.signed⟩
  obtain ⟨idx, hidx, hrest⟩ := h.record hn
  have hsame : (w.set k a).index? (ch.indexKey indexMint) = w.index? (ch.indexKey indexMint) :=
    (Undisturbed.of_fresh hempty ha).record
  exact ⟨idx, hsame.trans hidx, hrest⟩

/-- What `create` sends, transaction by transaction. -/
theorem create_next {txs : List Transaction} {tx : Transaction} {k : Nat}
    (h : create ch lib options payer indexMint table = .ok txs) (htx : txs[k]? = some tx) :
    (k = 0 ∧ tx = .createMint indexMint 9 (indexPda lib ch.programId indexMint).1 none) ∨
    (k = 1 ∧ tx = .call (Sdk.initIndex lib
      { programId := ch.programId
        payer
        indexMint
        governor := options.governorOr payer
        manager := options.managerOr payer
        feeRecipient := options.feeRecipientOr payer
        name := options.name
        symbol := options.symbol
        streamingFeeBps := options.streamingFeeBps
        issueFeeBps := options.issueFeeBps
        redeemFeeBps := options.redeemFeeBps
        maxPremiumBps := options.maxPremiumBps
        rebalanceDelay := options.rebalanceDelay })) ∨
    (∃ j entry, k = j + 2 ∧ table[j]? = some entry ∧
      tx = addEntry ch lib options payer indexMint entry) ∨
    (k = table.length + 2 ∧ tx = .call (Sdk.sealIndex lib
      { programId := ch.programId, manager := options.managerOr payer, indexMint })) ∨
    (k = table.length + 3 ∧ tx = .createFeeAccount indexMint (options.feeRecipientOr payer)) := by
  unfold create at h
  split at h
  · cases h
  · obtain rfl := Except.ok.inj h
    match k with
    | 0 => exact .inl ⟨rfl, (Option.some.inj htx).symm⟩
    | 1 => exact .inr (.inl ⟨rfl, (Option.some.inj htx).symm⟩)
    | j + 2 =>
      rw [List.getElem?_cons_succ, List.getElem?_cons_succ] at htx
      by_cases hj : j < table.length
      · rw [List.getElem?_append_left (by rw [List.length_map]; exact hj), List.getElem?_map,
          Option.map_eq_some_iff] at htx
        obtain ⟨entry, hentry, htx⟩ := htx
        exact .inr (.inr (.inl ⟨j, entry, rfl, hentry, htx.symm⟩))
      · rw [List.getElem?_append_right (by rw [List.length_map]; omega), List.length_map] at htx
        match hi : j - table.length with
        | 0 =>
          rw [hi] at htx
          exact .inr (.inr (.inr (.inl ⟨by omega, (Option.some.inj htx).symm⟩)))
        | 1 =>
          rw [hi] at htx
          exact .inr (.inr (.inr (.inr ⟨by omega, (Option.some.inj htx).symm⟩)))
        | i + 2 =>
          rw [hi] at htx
          cases htx

/-! ### One transaction further -/

/-- The first transaction opens the record. -/
theorem Stage.init {args : InitIndexArgs} {built : TransactionInstruction}
    (h : Stage ch options payer indexMint table 1 w) (hargs : args =
      { programId := ch.programId
        payer
        indexMint
        governor := options.governorOr payer
        manager := options.managerOr payer
        feeRecipient := options.feeRecipientOr payer
        name := options.name
        symbol := options.symbol
        streamingFeeBps := options.streamingFeeBps
        issueFeeBps := options.issueFeeBps
        redeemFeeBps := options.redeemFeeBps
        maxPremiumBps := options.maxPremiumBps
        rebalanceDelay := options.rebalanceDelay })
    (hbuilt : Sdk.initIndex lib args = .ok built)
    (signable : Signable ch (accountsOf [payer] built))
    (hd : deliver ch [payer] w built = .ok w') :
    Stage ch options payer indexMint table 2 w' := by
  subst hargs
  obtain ⟨ix, p, hdone, hinit, hname, hsymbol, hs, hi, hr, hp, hdelay⟩ :=
    initIndex_landed rfl hbuilt hd
  refine ⟨(Step.call signable hdone).allWf h.wf, fun _ => ⟨_, hinit.record, ?_, ?_, ?_⟩, fun hn => ?_⟩
  · exact ⟨rfl, rfl, rfl, rfl, hname, hsymbol, hs, hi, hr, hp, hdelay, rfl, rfl⟩
  · exact fun _ => ⟨rfl, fun c hc => absurd hc List.not_mem_nil⟩
  · intro hlt
    omega
  · omega

/-- The next entry lists the next component. -/
theorem Stage.add {j : Nat} {entry : Pubkey × Int} {built : TransactionInstruction}
    (h : Stage ch options payer indexMint table (j + 2) w) (hentry : table[j]? = some entry)
    (hbuilt : Sdk.addComponent lib
      { programId := ch.programId
        manager := options.managerOr payer
        payer
        indexMint
        componentMint := entry.1
        units := entry.2 } = .ok built)
    (signable : Signable ch (accountsOf [payer] built))
    (hd : deliver ch [payer] w built = .ok w') :
    Stage ch options payer indexMint table (j + 3) w' := by
  obtain ⟨ix, idx₀, c, hdone, hidx₀, hmint, hunits, hadded, hmanager⟩ :=
    addComponent_landed rfl hbuilt hd
  obtain ⟨idx, hidx, hasked, hopen, -⟩ := h.record (by omega)
  obtain rfl := Option.some.inj (hidx.symm.trans hidx₀)
  obtain ⟨hj, -⟩ := List.getElem?_eq_some_iff.mp hentry
  obtain ⟨hboot, hsame⟩ := hopen (by omega)
  have htarget := hadded.component.1
  have hlisted : (c.mint, (c.targetUnits.toNat : Int)) = entry := by
    rw [htarget, ← hunits, hmint]
  refine ⟨(Step.call signable hdone).allWf h.wf, fun _ => ⟨_, hadded.record, ?_, fun _ => ?_, ?_⟩,
    fun _ => hmanager⟩
  · have htake : table.take (j + 3 - 2) = table.take j ++ [entry] := by
      rw [show j + 3 - 2 = j + 1 by omega, List.take_add_one, hentry]
      rfl
    rw [htake]
    refine { hasked with table := ?_ }
    rw [Index.withComponent, List.map_append, hasked.table, List.map_singleton, hlisted]
    rfl
  · refine ⟨hboot, fun c' hc' => ?_⟩
    rcases List.mem_append.mp hc' with hold | hnew
    · exact hsame c' hold
    · rw [List.mem_singleton.mp hnew, htarget]
  · intro hlt
    omega

/-- The last transaction seals the whole table. -/
theorem Stage.seal {built : TransactionInstruction}
    (h : Stage ch options payer indexMint table (table.length + 2) w)
    (hbuilt : Sdk.sealIndex lib
      { programId := ch.programId, manager := options.managerOr payer, indexMint } = .ok built)
    (signable : Signable ch (accountsOf [payer] built))
    (hd : deliver ch [payer] w built = .ok w') :
    Stage ch options payer indexMint table (table.length + 3) w' := by
  obtain ⟨ix, idx₀, hdone, hidx₀, hsealed, hmanager⟩ := sealIndex_landed rfl hbuilt hd
  obtain ⟨idx, hidx, hasked, -, -⟩ := h.record (by omega)
  obtain rfl := Option.some.inj (hidx.symm.trans hidx₀)
  refine ⟨(Step.call signable hdone).allWf h.wf, fun _ => ⟨{ idx with
      state := stateLive, lastFeeAccrual := w.clock }, ?_, ?_, ?_, fun _ => rfl⟩, fun _ => hmanager⟩
  · rw [hsealed.world, World.index?_setIndex_self]
  · rw [List.take_of_length_le (by omega)]
    rw [List.take_of_length_le (by omega)] at hasked
    exact { hasked with }
  · intro hle
    omega

/-- The transaction that comes next takes one stage to the next. -/
theorem Stage.next {txs : List Transaction} {tx : Transaction} {k : Nat}
    (h : Stage ch options payer indexMint table k w)
    (hcreate : create ch lib options payer indexMint table = .ok txs) (htx : txs[k]? = some tx)
    (signable : ∀ built, tx = .call (.ok built) → Signable ch (accountsOf [payer] built))
    (hd : send ch ata mints payer w tx = .ok w') :
    Stage ch options payer indexMint table (k + 1) w' := by
  rcases create_next hcreate htx with ⟨rfl, rfl⟩ | ⟨rfl, rfl⟩ | ⟨j, entry, rfl, hentry, rfl⟩ |
    ⟨rfl, rfl⟩ | ⟨rfl, rfl⟩
  · -- nothing is said of the record before the program has been called
    obtain ⟨hempty, rfl⟩ := mints.create_ok (mapError_ok_iff.mp hd)
    exact ⟨AllWf.of_fresh h.wf hempty (fun _ he => by cases he), fun hn => by omega, fun hn => by omega⟩
  · obtain ⟨built, hbuilt, hd⟩ := exists_built hd
    exact h.init rfl hbuilt (signable built (congrArg _ hbuilt)) hd
  · obtain ⟨built, hbuilt, hd⟩ := exists_built hd
    exact h.add hentry hbuilt (signable built (congrArg _ hbuilt)) hd
  · obtain ⟨built, hbuilt, hd⟩ := exists_built hd
    exact h.seal hbuilt (signable built (congrArg _ hbuilt)) hd
  · -- the account is there, or it is opened
    have hlater : Stage ch options payer indexMint table (table.length + 4) w := by
      refine ⟨h.wf, fun _ => ?_, fun _ => h.signed (by omega)⟩
      obtain ⟨idx, hidx, hasked, -, hlive⟩ := h.record (by omega)
      rw [List.take_of_length_le (by omega)] at hasked
      refine ⟨idx, hidx, ?_, fun hle => by omega, fun _ => hlive (by omega)⟩
      rw [List.take_of_length_le (by omega)]
      exact hasked
    rcases ata.create_ok (mapError_ok_iff.mp hd) with ⟨-, rfl⟩ | ⟨hempty, rfl⟩
    · exact hlater
    · exact hlater.of_fresh hempty fun _ he => by cases he

/-- The run lemma. -/
theorem Landed.stage {txs landed : List Transaction} {w₀ : World} (hW : AllWf ch w₀)
    (hm : ch.inUse indexMint) (hcreate : create ch lib options payer indexMint table = .ok txs)
    (hrun : Landed ch ata mints payer (options.governorOr payer) (options.managerOr payer) w₀
      landed w) (hlanded : landed <+: txs) :
    Stage ch options payer indexMint table landed.length w := by
  induction hrun with
  | none => exact ⟨hW, fun hn => absurd hn (by decide), fun hn => absurd hn (by decide)⟩
  | @next landed tx w w' run signable done ih =>
    obtain ⟨rest, rfl⟩ := hlanded
    have hbefore := ih ⟨tx :: rest, by rw [List.append_assoc, List.singleton_append]⟩
    rw [List.length_append, List.length_singleton]
    refine hbefore.next hcreate ?_ signable done
    rw [List.append_assoc, List.getElem?_append_right (le_refl _), Nat.sub_self]
    rfl
  | meanwhile run hs ih => exact (ih hlanded).meanwhile hm hs

/-- However the transactions of `create` are interleaved with what others do, the manager
and the governor signing nothing else: from its own `initIndex` on the record is the one
that was asked for, with the entries of the table listed as far as they have landed. Until
the seal nobody holds an index token, and the units are the targets; from the seal on the
index is live with the whole table, which names no mint twice, and the payer is its
manager. -/
theorem create_as_asked {w₀ : World} (h : Reachable ch w₀) (hm : ch.inUse indexMint)
    {txs landed : List Transaction}
    (hcreate : create ch lib options payer indexMint table = .ok txs)
    (hlanded : landed <+: txs) (hcalled : 2 ≤ landed.length)
    (hrun : Landed ch ata mints payer (options.governorOr payer) (options.managerOr payer) w₀
      landed w) :
    ∃ idx, w.index? (ch.indexKey indexMint) = some idx ∧
      AsAsked options payer indexMint (table.take (landed.length - 2)) idx ∧
      (landed.length ≤ table.length + 2 → idx.state = stateBootstrapping ∧
        w.supply indexMint = 0 ∧ ∀ c ∈ idx.components, c.units = c.targetUnits) ∧
      (table.length + 2 < landed.length → options.managerOr payer = payer ∧
        idx.state = stateLive ∧ (table.map Prod.fst).Nodup ∧ 0 < table.length ∧
        table.length ≤ 16) := by
  have hstage := hrun.stage (reachable_wf h).1 hm hcreate hlanded
  obtain ⟨idx, hidx, hasked, hopen, hlive⟩ := hstage.record hcalled
  have hwf := AllWf.wf hstage.wf hm hidx
  refine ⟨idx, hidx, hasked, fun hle => ?_, fun hlt => ?_⟩
  · obtain ⟨hboot, hunits⟩ := hopen hle
    exact ⟨hboot, hwf.unissued hboot, hunits⟩
  · have hstate := hlive hlt
    have htable := hasked.table
    rw [List.take_of_length_le (by omega)] at htable
    have hmints : idx.components.map Component.mint = table.map Prod.fst := by
      rw [← htable, List.map_map]
      rfl
    have hlen : idx.components.length = table.length := by
      rw [← htable, List.length_map]
    have hnonempty : idx.components ≠ [] := by
      apply hwf.nonempty
      rw [hstate]
      decide
    refine ⟨hstage.signed (by omega), hstate, ?_, ?_, ?_⟩
    · rw [← hmints]
      exact hwf.custody.nodup
    · rw [← hlen]
      exact List.length_pos_of_ne_nil hnonempty
    · rw [← hlen]
      exact hwf.room

/-- Transactions that land without anything in between. -/
theorem Landed.run {governor manager : Pubkey} {w₀ : World} {landed txs : List Transaction}
    (hrun : Landed ch ata mints payer governor manager w₀ landed w)
    (signable : ∀ tx ∈ txs, ∀ built, tx = .call (.ok built) →
      Signable ch (accountsOf [payer] built))
    (h : txs.foldlM (send ch ata mints payer) w = .ok w') :
    Landed ch ata mints payer governor manager w₀ (landed ++ txs) w' := by
  induction txs generalizing landed w with
  | nil =>
    obtain rfl := Except.ok.inj h
    rw [List.append_nil]
    exact hrun
  | cons tx txs ih =>
    obtain ⟨w₁, htx, hrest⟩ := bind_ok_iff.mp h
    have hnext := hrun.next (signable tx List.mem_cons_self) htx
    have hall := ih hnext (fun tx' htx' => signable tx' (List.mem_cons_of_mem tx htx')) hrest
    rw [List.append_assoc] at hall
    exact hall

end Stages

/-! ## A launch on the local chain -/

def localLibrary : Library := ⟨fun seeds _ => localAddress seeds, 8, 7⟩

def localMints : MintCreation where
  create := fun w mint decimals mintAuthority freezeAuthority =>
    if w.accounts mint = .empty then .ok (w.set mint
      (.mint { mintAuthority := some mintAuthority, supply := 0, decimals, freezeAuthority }))
    else .error (.cpi 0)
  create_ok := by
    intro w mint decimals mintAuthority freezeAuthority w' h
    split at h
    · rename_i hempty
      exact ⟨hempty, (Except.ok.inj h).symm⟩
    · cases h

/-- Key 50 launches a fund of two components, and keeps all the keys itself. -/
def localOptions : CreateOptions where
  name := "Two".toList.map fun c => UInt16.ofNat c.toNat
  symbol := "TWO".toList.map fun c => UInt16.ofNat c.toNat
  streamingFeeBps := 100
  issueFeeBps := 10
  redeemFeeBps := 10
  maxPremiumBps := 100
  rebalanceDelay := 300
  governor := none
  manager := none
  feeRecipient := none

def localTable : List (Pubkey × Int) := [(addr 2, 2000000), (addr 3, 333333333)]

def Transaction.permitted : Transaction → Bool
  | .call (.ok built) => (Act.call (accountsOf [addr 50] built) .sealIndex).permitted
  | _ => true

/-- What the example sends is signed by nobody that cannot sign. -/
theorem Transaction.signable {tx : Transaction} (h : tx.permitted = true) :
    ∀ built, tx = .call (.ok built) → Signable localnet (accountsOf [addr 50] built) := by
  intro built htx
  subst htx
  have hp : (Act.call (accountsOf [addr 50] built) .sealIndex).permitted = true := h
  exact Act.signable hp

/-- Holder 40 opens an index of their own. -/
def otherAccounts : List AccountInfo :=
  [signer 40, indexAccount, account 1, account 60, account 61, account 41, account 8]

def otherInit : FlockInstruction :=
  .initIndex (.replicate 32 0) (.replicate 12 0) 100 0 0 100 300

/-- That takes none of the keys of key 50. -/
theorem otherInit_stranger {w w' : World} (h : process localnet w otherAccounts otherInit = .ok w') :
    StrangerStep localnet (addr 50) (addr 50) w w' := by
  have hp : (Act.call otherAccounts .sealIndex).permitted = true := by decide +kernel
  have hkeys : ∀ a ∈ otherAccounts, a.isSigner = true → a.key ≠ addr 50 := by decide +kernel
  have hsigned : ¬ SignedBy (addr 50) otherAccounts := by
    rintro ⟨a, ha, hs, hk⟩
    exact hkeys a ha hs hk
  exact .call (Act.signable hp) h hsigned hsigned

/-- The mint and the record land. Somebody else opens an index, seven seconds pass, and the
components and the seal land. -/
def localLaunch : Except Failure World := do
  let txs ← create localnet localLibrary localOptions (addr 50) (addr 5) localTable
  if ¬ (txs.length = 6 ∧ ∀ tx ∈ txs, tx.permitted = true) then throw .unsigned
  let w ← (txs.take 2).foldlM (send localnet localAssociated localMints (addr 50)) localWorld
  let w ← (process localnet w otherAccounts otherInit).mapError .refused
  let w ← ((Act.tick 7).run localnet w).mapError .refused
  ((txs.drop 2).take 3).foldlM (send localnet localAssociated localMints (addr 50)) w

/-- A launch of two components, with a stranger's `InitIndex` landing in between. -/
theorem create_as_asked_local : ∃ (w : World) (idx : Index),
    w.index? (localnet.indexKey (addr 5)) = some idx ∧
    AsAsked localOptions (addr 50) (addr 5) localTable idx ∧ idx.state = stateLive := by
  have hlaunch : localLaunch.toOption.isSome = true := by
    decide +kernel
  cases hrun : localLaunch with
  | error e =>
    rw [hrun] at hlaunch
    cases hlaunch
  | ok w' =>
    obtain ⟨txs, hcreate, hrest⟩ := bind_ok_iff.mp hrun
    split at hrest
    · cases hrest
    · rename_i hchecked
      obtain ⟨hlen, hpermitted⟩ := not_not.mp hchecked
      obtain ⟨w, hfirst, hrest⟩ := bind_ok_iff.mp hrest
      obtain ⟨w₀, hother, hrest⟩ := bind_ok_iff.mp hrest
      obtain ⟨w₇, htick, hlast⟩ := bind_ok_iff.mp hrest
      obtain ⟨hclock, rfl⟩ := Act.tick_ok (mapError_ok_iff.mp htick)
      have hstart : Landed localnet localAssociated localMints (addr 50) (addr 50) (addr 50)
          localWorld (txs.take 2) w :=
        Landed.none.run (fun tx htx =>
          Transaction.signable (hpermitted tx (List.mem_of_mem_take htx))) hfirst
      have hlater : Landed localnet localAssociated localMints (addr 50) (addr 50) (addr 50)
          localWorld (txs.take 2 ++ (txs.drop 2).take 3) w' := by
        have hwaited := (hstart.meanwhile (otherInit_stranger (mapError_ok_iff.mp hother))).meanwhile
          (.outside (Outside.tick hclock))
        refine hwaited.run (fun tx htx => ?_) hlast
        exact Transaction.signable (hpermitted tx (List.mem_of_mem_drop (List.mem_of_mem_take htx)))
      rw [← List.take_add] at hlater
      obtain ⟨idx, hidx, hasked, -, hlive⟩ := create_as_asked
        ⟨localWorld, localWorld_genesis, .refl⟩ (show (addr 5).val.toNat < 2 * localBase by decide)
        hcreate (List.take_prefix 5 txs) (by rw [List.length_take, hlen]; decide) hlater
      rw [List.length_take, hlen] at hasked hlive
      exact ⟨w', idx, hidx, hasked, (hlive (by decide)).2.1⟩

end Cli

end Flock
