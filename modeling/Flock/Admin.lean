import Flock.Auction

/-!
# What the other handlers do

`InitIndex` and `AddComponent` bring the record and the vaults into being; the
rest writes the record only. `Added.custody` is where custody begins: a
component enters the table together with the vault it is checked against ever
after.

Notes on the source:
- The record is written field by field into zeroed bytes there and as a value here. The
  fields a new record leaves alone are zero in `Index.initial`.
- The rent of a new account is not modelled, only that the account was empty and is the
  program's, or the token program's, afterwards.
- `set_authority` takes the role as a byte, and anything above two is refused.
-/

namespace Flock

open Outcome MachineInt

variable {ch : Chain} {m : Pubkey} {w w' : World} {idx : Index}

/-- The bounds `check_fees` enforces. -/
structure FeesInBounds (streaming issue redeem premium : UInt16) (delay : UInt32) : Prop where
  streaming : streaming.toNat ≤ 500
  issue : issue.toNat ≤ 100
  redeem : redeem.toNat ≤ 100
  premium : premium.toNat ≤ 1000
  delay : 300 ≤ delay.toNat

/-- Fees that pass the check are in bounds. -/
theorem checkFees_ok {streaming issue redeem premium : UInt16} {delay : UInt32} {u : Unit}
    (h : checkFees streaming issue redeem premium delay = .ok u) :
    FeesInBounds streaming issue redeem premium delay := by
  simp only [checkFees, bind_ok_iff, failIf_ok_iff, not_or, gt_iff_lt, UInt16.not_lt,
    UInt32.not_lt] at h
  obtain ⟨-, ⟨h₁, h₂, h₃, h₄⟩, h₅⟩ := h
  exact ⟨UInt16.le_iff_toNat_le.mp h₁, UInt16.le_iff_toNat_le.mp h₂, UInt16.le_iff_toNat_le.mp h₃,
    UInt16.le_iff_toNat_le.mp h₄, UInt32.le_iff_toNat_le.mp h₅⟩

/-! ## Before the seal -/

/-- The record `init_index` writes. -/
def Index.initial (m governor manager feeRecipient : Pubkey) (p : InitParams) (bump : UInt8)
    (now : Int64) : Index :=
  { indexMint := m
    governor := governor
    manager := manager
    feeRecipient := feeRecipient
    lastFeeAccrual := now
    createdAt := now
    rebalanceDelay := p.rebalanceDelay
    streamingFeeBps := p.streamingFeeBps
    issueFeeBps := p.issueFeeBps
    redeemFeeBps := p.redeemFeeBps
    maxPremiumBps := p.maxPremiumBps
    tag := accountTagIndex
    version := stateVersion
    bump := bump
    state := stateBootstrapping
    decimals := indexDecimals
    name := p.name
    symbol := p.symbol
    components := []
    rebalance := .default }

structure Initialized (ch : Chain) (m : Pubkey) (w w' : World)
    (governor manager feeRecipient : Pubkey) (p : InitParams) : Prop where
  fees : FeesInBounds p.streamingFeeBps p.issueFeeBps p.redeemFeeBps p.maxPremiumBps
    p.rebalanceDelay
  fresh : w.accounts (ch.indexKey m) = .empty
  mint : ∃ mi, w.mint? m = some mi ∧ mi.decimals = indexDecimals ∧ mi.supply.toNat = 0 ∧
    mi.freezeAuthority = none ∧ mi.mintAuthority = some (ch.indexKey m)
  leg : Leg ch m w w' 0 0
  record : w'.index? (ch.indexKey m) =
    some (.initial m governor manager feeRecipient p (ch.indexPda m).2 w.clock)

/-- The table with one more component. -/
def Index.withComponent (idx : Index) (c : Component) : Index :=
  { idx with components := idx.components ++ [c] }

structure Added (ch : Chain) (m : Pubkey) (idx : Index) (w w' : World) (c : Component)
    (manager : Pubkey) : Prop where
  manager_eq : idx.manager = manager
  bootstrapping : idx.state = stateBootstrapping
  room : idx.components.length < maxComponents
  fresh : ∀ c' ∈ idx.components, c'.mint ≠ c.mint
  units_pos : c.units ≠ 0
  component : c.targetUnits = c.units ∧ c.refPriceE9 = 0 ∧
    c.vaultBump = (ch.vaultPda m c.mint).2 ∧ ∃ mi, w.mint? c.mint = some mi ∧ c.decimals = mi.decimals
  leg : Leg ch m w w' 0 0
  vault : w'.token? (ch.vaultKey m c.mint) =
    some { mint := c.mint, owner := ch.indexKey m, amount := 0, delegate := none, frozen := false }
  record : w'.index? (ch.indexKey m) = some (idx.withComponent c)

structure Sealed (ch : Chain) (m : Pubkey) (idx : Index) (w w' : World) (manager : Pubkey) :
    Prop where
  manager_eq : idx.manager = manager
  bootstrapping : idx.state = stateBootstrapping
  nonempty : idx.components ≠ []
  world : w' = w.setIndex (ch.indexKey m)
    { idx with state := stateLive, lastFeeAccrual := w.clock }

/-- A new component enters the table together with its vault. -/
theorem Added.custody {c : Component} {manager : Pubkey} (h : Added ch m idx w w' c manager)
    (hC : Custody ch m w idx) : Custody ch m w' (idx.withComponent c) where
  inUse := hC.inUse
  header := hC.header
  indexMint := hC.indexMint
  mint := (hC.of_flow h.leg.flow).mint
  vaults := by
    intro c' hc'
    rcases List.mem_append.mp hc' with hc' | hc'
    · exact (hC.of_flow h.leg.flow).vaults c' hc'
    · obtain rfl := List.mem_singleton.mp hc'
      exact ⟨_, h.vault, rfl, rfl, rfl⟩
  nodup := by
    rw [Index.withComponent, List.map_append, List.nodup_append]
    refine ⟨hC.nodup, List.nodup_singleton _, ?_⟩
    rintro a ha b hb rfl
    obtain ⟨c', hc', he⟩ := List.mem_map.mp ha
    obtain ⟨c'', hc'', he'⟩ := List.mem_map.mp hb
    obtain rfl := List.mem_singleton.mp hc''
    exact h.fresh c' hc' (he.trans he'.symm)

section Handlers

variable {indexInfo indexMintInfo : AccountInfo} {rest : List AccountInfo}

/-- What an `InitIndex` that went through found and wrote. -/
theorem initIndex_initialized {payer governor manager feeRecipient systemProgram : AccountInfo}
    {p : InitParams} (hm : indexMintInfo.key = m)
    (h : initIndex ch w (payer :: indexInfo :: indexMintInfo :: governor :: manager ::
      feeRecipient :: systemProgram :: rest) p = .ok w') :
    Initialized ch m w w' governor.key manager.key feeRecipient.key p := by
  subst hm
  simp only [initIndex, bind_ok_iff, failIf_ok_iff, requireKey, readMint_ok_iff, pure_ok_iff,
    not_or, not_not, Bool.not_eq_true, Option.isSome_eq_false_iff, Option.isNone_iff_eq_none] at h
  obtain ⟨-, -, -, -, _, hfees, -, hkey, -, hempty, mi, hmi, -, ⟨hdec, hsup, hfr, hauth⟩, w₁, hcr,
    rfl⟩ := h
  have hi : indexInfo.key = ch.indexKey indexMintInfo.key := hkey
  rw [hi] at hempty ⊢
  obtain ⟨hflow, hidx, halloc⟩ := createAccount_flow hcr
  have hacc : w₁.accounts (ch.indexKey indexMintInfo.key) = .allocated ch.programId := halloc
  have hset : Flow w₁ (w₁.setIndex (ch.indexKey indexMintInfo.key)
      (.initial indexMintInfo.key governor.key manager.key feeRecipient.key p
        (ch.indexPda indexMintInfo.key).2 w₁.clock)) 0 0 :=
    Flow.of_eq rfl (World.token?_set_of_not (by simp) (by simp [hacc]))
      (World.mint?_set_of_not (by simp) (by simp [hacc]))
  refine ⟨checkFees_ok hfees, hempty, ⟨mi, hmi, hdec, by rw [hsup, UInt64.toNat_zero], hfr, hauth⟩,
    Leg.of_still ((hflow.trans hset).cast (zero_add 0) (zero_add 0)) ?_, ?_⟩
  · intro k hk
    rw [World.index?_setIndex, if_neg hk, hidx]
  · rw [World.index?_setIndex_self, hflow.clock]
    rfl

/-- What an `AddComponent` that went through found and wrote. The manager signed it. -/
theorem addComponent_added {manager payer componentMintInfo vaultInfo systemProgram tokenProgram :
    AccountInfo} {units : UInt64} (hm : indexMintInfo.key = m)
    (h : addComponent ch w (manager :: payer :: indexInfo :: indexMintInfo :: componentMintInfo ::
      vaultInfo :: systemProgram :: tokenProgram :: rest) units = .ok w') :
    manager.isSigner = true ∧ ∃ idx c, w.index? (ch.indexKey m) = some idx ∧
      c.mint = componentMintInfo.key ∧ c.units = units ∧
      Added ch m idx w w' c manager.key := by
  subst hm
  simp only [addComponent, bind_ok_iff, failIf_ok_iff, requireSigner, requireKey, readMint_ok_iff,
    indexRef_ok_iff, pure_ok_iff, not_not, Bool.not_eq_false, Bool.not_eq_true, ge_iff_le,
    Nat.not_le, Option.isSome_eq_false_iff, Option.isNone_iff_eq_none,
    Index.findComponent_eq_none_iff] at h
  obtain ⟨-, hsig, -, -, -, -, -, -, bump, hpda, -, hun, idx, ⟨hidx, -⟩, -, hman, -, hboot, -, hroom,
    -, hfresh, mi, hmi, -, hvk, w₁, hcr, w₂, hinit, idx₂, ⟨hidx₂, -⟩, rfl⟩ := h
  have hi := checkIndexPda_ok hpda
  rw [hi] at hidx hidx₂ hinit ⊢
  obtain ⟨hflow, hrec, -⟩ := createAccount_flow hcr
  obtain ⟨hflow', hrec', -, htok⟩ := initializeAccount3_flow hinit
  have hR : w₂.index? (ch.indexKey indexMintInfo.key) = some idx := by rw [hrec', hrec, hidx]
  obtain rfl := Option.some.inj (hR.symm.trans hidx₂)
  have hL : Leg ch indexMintInfo.key w w₂ 0 0 :=
    Leg.of_still ((hflow.trans hflow').cast (zero_add 0) (zero_add 0))
      fun k _ => by rw [hrec', hrec]
  have hL' := fun c => Leg.of_setIndex hR (idx.withComponent c)
  refine ⟨hsig, idx, _, hidx, rfl, rfl, hman, hboot, hroom, hfresh, hun,
    ⟨rfl, rfl, rfl, mi, hmi, rfl⟩, (hL.trans (hL' _)).cast (zero_add 0) (zero_add 0), ?_,
    World.index?_setIndex_self _⟩
  have ha := World.accounts_of_index? hR
  rw [World.setIndex, World.token?_set_of_not (by simp) (by simp [ha]), htok]
  exact if_pos rfl

/-- What a `SealIndex` that went through found and wrote. The manager signed it. -/
theorem sealIndex_sealed {manager : AccountInfo} (hm : indexMintInfo.key = m)
    (h : sealIndex ch w (manager :: indexInfo :: indexMintInfo :: rest) = .ok w') :
    manager.isSigner = true ∧ ∃ idx, w.index? (ch.indexKey m) = some idx ∧
      Sealed ch m idx w w' manager.key := by
  subst hm
  simp only [sealIndex, bind_ok_iff, failIf_ok_iff, requireSigner, indexRef_ok_iff, pure_ok_iff,
    not_not, Bool.not_eq_false] at h
  obtain ⟨-, hsig, bump, hpda, idx, ⟨hidx, -⟩, -, hman, -, hboot, -, hne, rfl⟩ := h
  have hi := checkIndexPda_ok hpda
  rw [hi] at hidx ⊢
  exact ⟨hsig, idx, hidx, hman, hboot, fun e => hne (by rw [e, List.length_nil]), rfl⟩

/-! ## After the seal -/

/-- The record `set_params` writes. -/
def Index.withParams (idx : Index) (streaming issue redeem premium : UInt16) (delay : UInt32)
    (now : Int64) : Index :=
  { idx with
    lastFeeAccrual := if idx.state ≠ stateBootstrapping then now else idx.lastFeeAccrual
    streamingFeeBps := streaming
    issueFeeBps := issue
    redeemFeeBps := redeem
    maxPremiumBps := premium
    rebalanceDelay := delay }

/-- `SetParams` is the governor's, keeps the fees in bounds and writes the record only. -/
theorem setParams_ok {governor : AccountInfo} {streaming issue redeem premium : UInt16}
    {delay : UInt32} (hm : indexMintInfo.key = m)
    (h : setParams ch w (governor :: indexInfo :: indexMintInfo :: rest) streaming issue redeem
      premium delay = .ok w') :
    governor.isSigner = true ∧ FeesInBounds streaming issue redeem premium delay ∧
      ∃ idx, w.index? (ch.indexKey m) = some idx ∧ idx.governor = governor.key ∧
        w' = w.setIndex (ch.indexKey m)
          (idx.withParams streaming issue redeem premium delay w.clock) := by
  subst hm
  simp only [setParams, bind_ok_iff, failIf_ok_iff, requireSigner, indexRef_ok_iff, pure_ok_iff,
    not_not, Bool.not_eq_false] at h
  obtain ⟨-, hsig, bump, hpda, _, hfees, idx, ⟨hidx, -⟩, -, hgov, rfl⟩ := h
  have hi := checkIndexPda_ok hpda
  rw [hi] at hidx ⊢
  exact ⟨hsig, checkFees_ok hfees, idx, hidx, hgov, rfl⟩

/-- The record `set_authority` writes, for a role there is. -/
def Index.withAuthority (idx : Index) (role : UInt8) (newAuthority : Pubkey) : Index :=
  if role = roleGovernor then { idx with governor := newAuthority }
  else if role = roleManager then { idx with manager := newAuthority }
  else { idx with feeRecipient := newAuthority }

/-- A new authority leaves the table as it is. -/
@[simp] theorem Index.withAuthority_components (role : UInt8) (key : Pubkey) :
    (idx.withAuthority role key).components = idx.components := by
  unfold Index.withAuthority
  split
  · rfl
  · split <;> rfl

/-- A new authority leaves state and rebalance as they are. -/
theorem Index.withAuthority_state (idx : Index) (role : UInt8) (key : Pubkey) :
    (idx.withAuthority role key).state = idx.state ∧
      (idx.withAuthority role key).rebalance = idx.rebalance := by
  unfold Index.withAuthority
  split
  · exact ⟨rfl, rfl⟩
  · split <;> exact ⟨rfl, rfl⟩

/-- `SetAuthority` is the governor's and writes one key of the record. -/
theorem setAuthority_ok {governor : AccountInfo} {role : UInt8} {newAuthority : Pubkey}
    (hm : indexMintInfo.key = m)
    (h : setAuthority ch w (governor :: indexInfo :: indexMintInfo :: rest) role newAuthority
      = .ok w') :
    governor.isSigner = true ∧ ∃ idx, w.index? (ch.indexKey m) = some idx ∧
      idx.governor = governor.key ∧
      w' = w.setIndex (ch.indexKey m) (idx.withAuthority role newAuthority) := by
  subst hm
  simp only [setAuthority, bind_ok_iff, failIf_ok_iff, requireSigner, indexRef_ok_iff,
    not_not, Bool.not_eq_false] at h
  obtain ⟨-, hsig, bump, hpda, idx, ⟨hidx, -⟩, -, hgov, h⟩ := h
  have hi := checkIndexPda_ok hpda
  rw [hi] at hidx h
  refine ⟨hsig, idx, hidx, hgov, ?_⟩
  unfold Index.withAuthority
  split at h
  next hr => rw [if_pos hr, pure_ok_iff.mp h]
  next hr =>
    rw [if_neg hr]
    split at h
    next hr => rw [if_pos hr, pure_ok_iff.mp h]
    next hr =>
      rw [if_neg hr]
      split at h
      next => rw [pure_ok_iff.mp h]
      next => cases h

/-- Governor or manager pause, and the governor alone resumes. -/
theorem setPaused_ok {caller : AccountInfo} {paused : Bool} (hm : indexMintInfo.key = m)
    (h : setPaused ch w (caller :: indexInfo :: indexMintInfo :: rest) paused = .ok w') :
    caller.isSigner = true ∧ ∃ idx, w.index? (ch.indexKey m) = some idx ∧
      idx.state ≠ stateBootstrapping ∧
      (paused = true → idx.governor = caller.key ∨ idx.manager = caller.key) ∧
      (paused = false → idx.governor = caller.key) ∧
      w' = w.setIndex (ch.indexKey m)
        { idx with state := if paused then statePaused else stateLive } := by
  subst hm
  simp only [setPaused, bind_ok_iff, failIf_ok_iff, requireSigner, indexRef_ok_iff, pure_ok_iff,
    not_not, not_and, Bool.not_eq_false] at h
  obtain ⟨-, hsig, bump, hpda, idx, ⟨hidx, -⟩, -, hp, -, hg, -, hst, rfl⟩ := h
  have hi := checkIndexPda_ok hpda
  rw [hi] at hidx ⊢
  exact ⟨hsig, idx, hidx, hst, fun h => or_iff_not_imp_left.mpr (hp h), hg, rfl⟩

end Handlers

end Flock
