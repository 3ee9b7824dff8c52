import Flock.Settlement

/-!
# What issue, redeem and the fee accrual do

`Issued`, `Redeemed` and `Accrued` say everything a successful instruction did
to its index: the streaming fee minted first, the units refreshed from the
vaults, the exact change of the supply and of every vault, and the record left
behind. Whoever reasons about a run cites these and does not open a handler
again.

A vault can gain index tokens on the way, when the index lists its own token as
a component and the caller names that vault as an account to be credited; the
`Pi.single` terms are those credits. A component of another mint gets none
(`Issued.vault_eq`, `Redeemed.vault_eq`).
-/

namespace Flock

open Outcome MachineInt

variable {ch : Chain} {m : Pubkey} {w w₁ w' : World} {idx : Index}

/-- The record the loops of `issue` and `redeem` read: accrued, then synced
against the world `w₁` the accrual left. -/
def Index.refreshed (ch : Chain) (m : Pubkey) (w₁ : World) (idx : Index) (now : Int64) : Index :=
  (idx.accrued now).synced ch m w₁

/-- Whether units fit is a matter of the mints of the table. -/
theorem unitsFit_congr {idx' : Index}
    (h : idx'.components.map Component.mint = idx.components.map Component.mint) :
    UnitsFit ch m w idx' ↔ UnitsFit ch m w idx := by
  have hmap : ∀ i : Index, UnitsFit ch m w i ↔
      ∀ c ∈ i.components.map Component.mint,
        w.amount (ch.vaultKey m c) * unitScale < 2 ^ 64 * w.supply m := by
    intro i
    simp [UnitsFit, World.vault]
  rw [hmap, hmap, h]

/-- A component of one table is in another with the same mints. -/
theorem exists_of_mints {idx' : Index}
    (h : idx'.components.map Component.mint = idx.components.map Component.mint) {c : Component}
    (hc : c ∈ idx.components) : ∃ c' ∈ idx'.components, c'.mint = c.mint := by
  have hmem : c.mint ∈ idx'.components.map Component.mint := by
    rw [h]
    exact List.mem_map_of_mem hc
  obtain ⟨c', hc', he⟩ := List.mem_map.mp hmem
  exact ⟨c', hc', he⟩

/-- A refresh keeps the mints. -/
theorem Index.refreshed_mints (now : Int64) :
    (idx.refreshed ch m w₁ now).components.map Component.mint
      = idx.components.map Component.mint :=
  Index.synced_map ch m w₁ (idx.accrued now) Component.mint fun _ _ => rfl

/-- Every entry is there after a refresh, with its mint. -/
theorem Index.exists_refreshed (ch : Chain) (m : Pubkey) (w₁ : World) (now : Int64) {c : Component}
    (hc : c ∈ idx.components) :
    ∃ c₁ ∈ (idx.refreshed ch m w₁ now).components, c₁.mint = c.mint :=
  exists_of_mints (Index.refreshed_mints now) hc

/-- A refresh and a sync keep the mints. -/
theorem Index.settled_mints (w₁ w' : World) (now : Int64) :
    ((idx.refreshed ch m w₁ now).synced ch m w').components.map Component.mint
      = idx.components.map Component.mint :=
  (Index.synced_map ch m w' _ Component.mint fun _ _ => rfl).trans (Index.refreshed_mints now)

/-- A refresh writes the units and the clock of the fee, and nothing else. -/
theorem Index.refreshed_eq (ch : Chain) (m : Pubkey) (w₁ : World) (idx : Index) (now : Int64) :
    idx.refreshed ch m w₁ now = { idx with
      components := (idx.refreshed ch m w₁ now).components
      lastFeeAccrual := now } := by
  rw [Index.refreshed, Index.synced_eq]
  rfl

/-- A moved fee clock leaves custody as it is. -/
theorem Custody.accrued (hC : Custody ch m w idx) (now : Int64) :
    Custody ch m w (idx.accrued now) :=
  hC.of_record rfl rfl rfl rfl

/-- A refresh leaves custody as it is. -/
theorem Custody.refreshed (hC : Custody ch m w idx) (w₁ : World) (now : Int64) :
    Custody ch m w (idx.refreshed ch m w₁ now) :=
  (hC.accrued now).synced w₁

/-- The keys of an interleaved account list. -/
theorem pairs_vaults {rest : List AccountInfo} {ks : List Pubkey}
    (h : ((pairs rest).map Prod.fst).map AccountInfo.key = ks) :
    (pairs rest).map (fun p => p.1.key) = ks := by
  rw [← h, List.map_map]
  rfl

structure Issued (ch : Chain) (m : Pubkey) (idx : Index) (w w₁ w' : World) (amount : UInt64)
    (maxIn : List UInt64) (userIndexAta feeAta : Pubkey) (owed fee gross : UInt64) : Prop where
  live : idx.state = stateLive
  positive : amount.toNat ≠ 0
  accrual : Accrual ch m idx w w₁ feeAta owed
  fits : w₁.supply m = 0 ∨ UnitsFit ch m w₁ idx
  fee_eq : fee.toNat = (amount.toNat * idx.issueFeeBps.toNat) ⌈/⌉ bps
  gross_eq : gross.toNat = amount.toNat + fee.toNat
  slippage : ∀ x ∈ (idx.refreshed ch m w₁ w.clock).components.zip maxIn,
    x.1.required gross ≤ x.2.toNat
  paid : ∀ c ∈ (idx.refreshed ch m w₁ w.clock).components,
    w₁.vault ch m c + c.required gross ≤ w₁.total c.mint
  leg : ∃ dA, Leg ch m w₁ w' (gross.toNat : ℤ) dA
  vault : ∀ c ∈ (idx.refreshed ch m w₁ w.clock).components,
    (w'.vault ch m c : ℤ) = w₁.vault ch m c + c.required gross +
      (Pi.single userIndexAta (amount.toNat : ℤ) : Pubkey → ℤ) (ch.vaultKey m c.mint) +
      (Pi.single feeAta (fee.toNat : ℤ) : Pubkey → ℤ) (ch.vaultKey m c.mint)
  userAccount : ∃ t, w'.token? userIndexAta = some t ∧ t.mint = m
  feeAccount : fee.toNat ≠ 0 → ∃ t, w'.token? feeAta = some t ∧ t.mint = m ∧
    t.owner = idx.feeRecipient
  fits' : UnitsFit ch m w' idx
  record : w'.index? (ch.indexKey m) =
    some ((idx.refreshed ch m w₁ w.clock).synced ch m w')

structure Redeemed (ch : Chain) (m : Pubkey) (idx : Index) (w w₁ w' : World) (amount : UInt64)
    (user userIndexAta feeAta : Pubkey) (payees : List (AccountInfo × AccountInfo))
    (owed fee net : UInt64) : Prop where
  sealed : idx.state ≠ stateBootstrapping
  positive : amount.toNat ≠ 0
  accrual : Accrual ch m idx w w₁ feeAta owed
  enough : amount.toNat ≤ w₁.supply m
  fits : UnitsFit ch m w₁ idx
  fee_eq : fee.toNat = (amount.toNat * idx.redeemFeeBps.toNat) ⌈/⌉ bps
  net_eq : net.toNat + fee.toNat = amount.toNat
  vaults : payees.map (fun p => p.1.key) = idx.vaultKeys ch m
  holder : ∃ t, w.token? userIndexAta = some t ∧ t.mint = m ∧
    ch.token.mayBurn t user amount = true
  burned : ∃ w₂, ch.token.burn (w₁.setIndex (ch.indexKey m) (idx.refreshed ch m w₁ w.clock))
    userIndexAta m user amount = .ok w₂
  left : m ∉ idx.components.map Component.mint →
    w'.amount userIndexAta + amount.toNat = w.amount userIndexAta +
      if userIndexAta = feeAta then owed.toNat + fee.toNat else 0
  leg : ∃ dA, Leg ch m w₁ w' (-net.toNat : ℤ) dA
  vault : ∀ x ∈ (idx.refreshed ch m w₁ w.clock).components.zip payees,
    (w'.vault ch m x.1 : ℤ) = w₁.vault ch m x.1 - paidOut ch m net x.1 x.2.2 +
      (Pi.single feeAta (fee.toNat : ℤ) : Pubkey → ℤ) (ch.vaultKey m x.1.mint)
  feeAccount : fee.toNat ≠ 0 → ∃ t, w'.token? feeAta = some t ∧ t.mint = m ∧
    t.owner = idx.feeRecipient
  fits' : w'.supply m = 0 ∨ UnitsFit ch m w' idx
  record : w'.index? (ch.indexKey m) =
    some ((idx.refreshed ch m w₁ w.clock).synced ch m w')

structure Accrued (ch : Chain) (m : Pubkey) (idx : Index) (w w₁ w' : World) (feeAta : Pubkey)
    (owed : UInt64) : Prop where
  sealed : idx.state ≠ stateBootstrapping
  accrual : Accrual ch m idx w w₁ feeAta owed
  fits : w₁.supply m = 0 ∨ UnitsFit ch m w₁ idx
  world : w' = w₁.setIndex (ch.indexKey m) (idx.refreshed ch m w₁ w.clock)

/-! ### Reading the vaults after a trade -/

section Vaults

variable {amount owed fee gross net : UInt64} {user userIndexAta feeAta : Pubkey}
  {maxIn : List UInt64} {payees : List (AccountInfo × AccountInfo)}

/-- An account of the index mint is no vault of another mint. -/
theorem Custody.ne_vault {c : Component} {k : Pubkey} {t : TokenAccount}
    (hC : Custody ch m w idx) (hc : c ∈ idx.components) (hne : c.mint ≠ m)
    (hk : w.token? k = some t) (hm : t.mint = m) : ch.vaultKey m c.mint ≠ k := by
  intro he
  exact hne ((hC.token_mint hc (he ▸ hk)).symm.trans hm)

/-- After an issue the vaults are in custody. -/
theorem Issued.custody (h : Issued ch m idx w w₁ w' amount maxIn userIndexAta feeAta owed fee gross)
    (hC : Custody ch m w idx) : Custody ch m w' (idx.refreshed ch m w₁ w.clock) := by
  obtain ⟨dA, hl⟩ := h.leg
  exact (hC.of_flow (h.accrual.leg.trans hl).flow).refreshed w₁ w.clock

/-- After a redemption the vaults are in custody. -/
theorem Redeemed.custody
    (h : Redeemed ch m idx w w₁ w' amount user userIndexAta feeAta payees owed fee net)
    (hC : Custody ch m w idx) : Custody ch m w' (idx.refreshed ch m w₁ w.clock) := by
  obtain ⟨dA, hl⟩ := h.leg
  exact (hC.of_flow (h.accrual.leg.trans hl).flow).refreshed w₁ w.clock

/-- A vault gains the delivery at least. -/
theorem Issued.vault_ge (h : Issued ch m idx w w₁ w' amount maxIn userIndexAta feeAta owed fee gross)
    {c : Component} (hc : c ∈ (idx.refreshed ch m w₁ w.clock).components) :
    w₁.vault ch m c + c.required gross ≤ w'.vault ch m c := by
  have hv := h.vault c hc
  have hu := single_nonneg userIndexAta (ch.vaultKey m c.mint) amount.toNat
  have hf := single_nonneg feeAta (ch.vaultKey m c.mint) fee.toNat
  omega

/-- The vault of a component of another mint gains exactly the delivery. -/
theorem Issued.vault_eq (h : Issued ch m idx w w₁ w' amount maxIn userIndexAta feeAta owed fee gross)
    (hC : Custody ch m w idx) {c : Component}
    (hc : c ∈ (idx.refreshed ch m w₁ w.clock).components) (hne : c.mint ≠ m) :
    w'.vault ch m c = w₁.vault ch m c + c.required gross := by
  have hC' := h.custody hC
  have hv := h.vault c hc
  obtain ⟨t, ht, htm⟩ := h.userAccount
  rw [Pi.single_eq_of_ne (hC'.ne_vault hc hne ht htm)] at hv
  by_cases hfee : fee.toNat = 0
  · rw [hfee, Nat.cast_zero, Pi.single_zero, Pi.zero_apply] at hv
    omega
  · obtain ⟨t', ht', htm', -⟩ := h.feeAccount hfee
    rw [Pi.single_eq_of_ne (hC'.ne_vault hc hne ht' htm')] at hv
    omega

/-- A vault loses the payout at most. -/
theorem Redeemed.vault_ge
    (h : Redeemed ch m idx w w₁ w' amount user userIndexAta feeAta payees owed fee net)
    {x : Component × AccountInfo × AccountInfo}
    (hx : x ∈ (idx.refreshed ch m w₁ w.clock).components.zip payees) :
    w₁.vault ch m x.1 ≤ w'.vault ch m x.1 + paidOut ch m net x.1 x.2.2 := by
  have hv := h.vault x hx
  have hf := single_nonneg feeAta (ch.vaultKey m x.1.mint) fee.toNat
  omega

/-- The vault of a component of another mint loses exactly the payout. -/
theorem Redeemed.vault_eq
    (h : Redeemed ch m idx w w₁ w' amount user userIndexAta feeAta payees owed fee net)
    (hC : Custody ch m w idx) {x : Component × AccountInfo × AccountInfo}
    (hx : x ∈ (idx.refreshed ch m w₁ w.clock).components.zip payees) (hne : x.1.mint ≠ m) :
    w'.vault ch m x.1 + paidOut ch m net x.1 x.2.2 = w₁.vault ch m x.1 := by
  have hv := h.vault x hx
  by_cases hfee : fee.toNat = 0
  · rw [hfee, Nat.cast_zero, Pi.single_zero, Pi.zero_apply] at hv
    omega
  · obtain ⟨t, ht, htm, -⟩ := h.feeAccount hfee
    rw [Pi.single_eq_of_ne ((h.custody hC).ne_vault (List.of_mem_zip hx).1 hne ht htm)] at hv
    omega

end Vaults

/-- An `AccrueFees` mints the fee and moves nothing else. -/
theorem Accrued.leg {feeAta : Pubkey} {owed : UInt64}
    (h : Accrued ch m idx w w₁ w' feeAta owed) :
    Leg ch m w w' (owed.toNat : ℤ) (Pi.single feeAta (owed.toNat : ℤ)) := by
  rw [h.world]
  exact (h.accrual.leg.trans (Leg.of_setIndex h.accrual.record _)).cast (add_zero _) (add_zero _)

/-- The record after an `AccrueFees` is the accrued one, synced. -/
theorem Accrued.record {feeAta : Pubkey} {owed : UInt64}
    (h : Accrued ch m idx w w₁ w' feeAta owed) :
    w'.index? (ch.indexKey m) = some ((idx.accrued w.clock).synced ch m w') := by
  rw [h.world, World.index?_setIndex_self, Index.synced_setIndex h.accrual.record,
    Index.refreshed]

/-- The units of the world after an `AccrueFees` fit, where tokens are outstanding. -/
theorem Accrued.fits' {feeAta : Pubkey} {owed : UInt64}
    (h : Accrued ch m idx w w₁ w' feeAta owed) : w'.supply m = 0 ∨ UnitsFit ch m w' idx := by
  rw [h.world, World.supply_setIndex h.accrual.record, unitsFit_setIndex h.accrual.record]
  exact h.fits

section Handlers

variable {user indexInfo indexMintInfo userIndexAta feeAta tokenProgram : AccountInfo}
  {rest : List AccountInfo} {amount : UInt64}

/-- The check of the address passes for the index address only. -/
theorem checkIndexPda_ok {b : UInt8} (h : checkIndexPda ch indexInfo indexMintInfo.key = .ok b) :
    indexInfo.key = ch.indexKey indexMintInfo.key := by
  simp only [checkIndexPda, bind_ok_iff, requireKey, failIf_ok_iff, not_not] at h
  obtain ⟨-, h, -⟩ := h
  exact h

/-- What an `AccrueFees` that went through found and left. -/
theorem accrueFees_accrued (hm : indexMintInfo.key = m)
    (h : accrueFees ch w (indexInfo :: indexMintInfo :: feeAta :: tokenProgram :: rest) = .ok w')
    (hC : ∀ {idx}, w.index? (ch.indexKey m) = some idx → Custody ch m w idx) :
    ∃ idx w₁ owed, w.index? (ch.indexKey m) = some idx ∧
      Accrued ch m idx w w₁ w' feeAta.key owed ∧ w.OpensNone w' := by
  subst hm
  simp only [accrueFees, bind_ok_iff, failIf_ok_iff, indexRef_ok_iff] at h
  obtain ⟨-, -, b, hpda, idx, ⟨hidx, -⟩, -, hst, ⟨owed, w₁⟩, hacc, h⟩ := h
  have hi := checkIndexPda_ok hpda
  have hA := accrue_accrual hacc hi hidx
  rw [hi] at hidx
  have hC₁ := ((hC hidx).of_flow hA.leg.flow).accrued w.clock
  obtain ⟨-, hfit, hw⟩ := (resync_ok_iff hC₁ hi rfl hA.record).mp h
  refine ⟨idx, w₁, owed, hidx, ⟨hst, hA, hfit, hw⟩, ?_⟩
  rw [hw]
  exact (accrue_opensNone hacc).trans (.setIndex hA.record _)

/-- What an `Issue` that went through found and left. -/
theorem issue_issued {maxIn : List UInt64} (hm : indexMintInfo.key = m)
    (h : issue ch w (user :: indexInfo :: indexMintInfo :: userIndexAta :: feeAta ::
      tokenProgram :: rest) amount maxIn = .ok w')
    (hu : user.isSigner = true → ch.Outsider user.key)
    (hC : ∀ {idx}, w.index? (ch.indexKey m) = some idx → Custody ch m w idx) :
    ∃ idx w₁ owed fee gross, w.index? (ch.indexKey m) = some idx ∧
      Issued ch m idx w w₁ w' amount maxIn userIndexAta.key feeAta.key owed fee gross := by
  subst hm
  simp only [issue, bind_ok_iff, failIf_ok_iff, indexRef_ok_iff, requireSigner,
    Bool.not_eq_false, Index.isLive_ok_iff, lift_ok_iff, mulDivCeil_ok_iff, toU64_ok_iff,
    checkedAdd, requireTokenAccountOfMint_ok_iff, not_or, not_not] at h
  obtain ⟨-, hsig, -, -, b, hpda, -, hpos, idx, ⟨hidx, -⟩, -, hlive, -, ⟨hlen, -⟩, h⟩ := h
  obtain ⟨tu, ⟨htu, htum⟩, ⟨owed, w₁⟩, hacc, w₂, hsync, _, ⟨-, -, rfl⟩, h⟩ := h
  obtain ⟨fee, hfee, gross, hgross, w₃, hloop, w₄, hmint, w₅, hmfee, hlast⟩ := h
  have hi := checkIndexPda_ok hpda
  have hA := accrue_accrual hacc hi hidx
  rw [hi] at hidx
  have hC₁ := ((hC hidx).of_flow hA.leg.flow).accrued w.clock
  obtain ⟨hvk, hfit, rfl⟩ := (resync_ok_iff hC₁ hi rfl hA.record).mp hsync
  -- the record is synced; the caller delivers
  have hL₂ := Leg.of_setIndex hA.record (idx.refreshed ch indexMintInfo.key w₁ w.clock)
  have hC₂ := ((hC hidx).of_flow (hA.leg.flow.trans hL₂.flow)).refreshed w₁ w.clock
  have hR₂ : (w₁.setIndex (ch.indexKey indexMintInfo.key)
      (idx.refreshed ch indexMintInfo.key w₁ w.clock)).index? (ch.indexKey indexMintInfo.key)
        = some (idx.refreshed ch indexMintInfo.key w₁ w.clock) := World.index?_setIndex_self _
  have hmints : (idx.refreshed ch indexMintInfo.key w₁ w.clock).components.map Component.mint
      = idx.components.map Component.mint := Index.refreshed_mints w.clock
  have hps := pairs_vaults (hvk.trans
    (Index.synced_vaultKeys ch indexMintInfo.key w₁ (idx.accrued w.clock)).symm)
  have hlen₂ : maxIn.length = (idx.refreshed ch indexMintInfo.key w₁ w.clock).components.length :=
    hlen.trans (Index.synced_length ch indexMintInfo.key w₁ (idx.accrued w.clock)).symm
  obtain ⟨dA, hL₃, hR₃, -, -, hat, hslip⟩ := issueLoop_leg (hu hsig) hi hC₂ hR₂
    List.drop_zero hps hlen₂ hloop
  -- the tokens are minted, and the record synced again
  obtain ⟨hL₄, hR₄⟩ := mintIndexTokens_leg hmint rfl
  obtain ⟨hL₅, hR₅⟩ := mintFee_leg hmfee rfl
  have hL := ((hL₂.trans hL₃).trans hL₄).trans hL₅
  have hR : w₅.index? (ch.indexKey indexMintInfo.key)
      = some (idx.refreshed ch indexMintInfo.key w₁ w.clock) := by
    rw [hR₅, hR₄, hR₃, hR₂]
  have hC₅ := ((hC hidx).of_flow (hA.leg.flow.trans hL.flow)).refreshed w₁ w.clock
  obtain ⟨-, hfit', rfl⟩ := (resync_ok_iff hC₅ hi rfl hR).mp hlast
  have hL₆ := Leg.of_setIndex hR
    ((idx.refreshed ch indexMintInfo.key w₁ w.clock).synced ch indexMintInfo.key w₅)
  have hpos' : amount.toNat ≠ 0 := by
    rw [← UInt64.toNat_zero]
    exact fun e => hpos (UInt64.toNat_inj.mp e)
  refine ⟨idx, w₁, owed, fee, gross, hidx, hlive, hpos', hA, hfit, hfee, hgross, hslip,
    ?_, ⟨_, (hL.trans hL₆).cast (by omega) rfl⟩, ?_, ?_, ?_, ?_, ?_⟩
  · intro c hc
    -- what was delivered was there before
    have hL₂₃ := hL₂.trans hL₃
    have hle := (hC₂.of_flow hL₃.flow).vault_le_total hc
    have htot := hL₂₃.flow.total c.mint
    have hv := hL₂₃.flow.amount (ch.vaultKey indexMintInfo.key c.mint)
    simp only [add_zero, Pi.single_zero, Pi.zero_apply, Pi.add_apply, zero_add, hat c hc] at htot hv
    unfold World.vault at hle ⊢
    omega
  · intro c hc
    have hv := hL.flow.amount (ch.vaultKey indexMintInfo.key c.mint)
    simp only [Pi.add_apply, Pi.zero_apply, hat c hc] at hv
    rw [World.vault_setIndex hR]
    unfold World.vault
    omega
  · obtain ⟨t', ht', htm', -⟩ := ((hA.leg.flow.trans hL.flow).trans hL₆.flow).account htu
    exact ⟨t', ht', htm'.trans htum⟩
  · intro hfee0
    have hR₄' : w₄.index? indexInfo.key = some (idx.refreshed ch indexMintInfo.key w₁ w.clock) := by
      rw [hi, hR₄, hR₃, hR₂]
    obtain ⟨t, ht, htm, hto⟩ := mintFee_account hmfee hR₄' hfee0
    obtain ⟨t', ht', htm', hto', -⟩ := (hL₅.flow.trans hL₆.flow).account ht
    refine ⟨t', ht', htm'.trans htm, hto'.trans (hto.trans ?_)⟩
    rw [Index.refreshed_eq]
  · have hS := hL.supply
    have hfit₅ := hfit'.resolve_left (by omega)
    exact (unitsFit_setIndex hR _).mpr ((unitsFit_congr hmints).mp hfit₅)
  · rw [World.index?_setIndex_self, Index.synced_setIndex hR]

/-- From the burn to the last payout: the holder's tokens go, less the fee, every
vault pays, and no account of a mint outside the table moves for any other reason. -/
theorem redeem_moves {w₃ w₄ w₅ : World} {fee net : UInt64} {minOut : List UInt64}
    (hm : indexMintInfo.key = m) (hi : indexInfo.key = ch.indexKey m)
    (hu : ch.Outsider user.key) (hC : Custody ch m w idx)
    (hidx : w.index? (ch.indexKey m) = some idx)
    (hps : (pairs rest).map (fun p => p.1.key) = idx.vaultKeys ch m)
    (hlen : minOut.length = idx.components.length) (hnet : net.toNat + fee.toNat = amount.toNat)
    (hburn : burnIndexTokens ch w indexMintInfo userIndexAta user amount = .ok w₃)
    (hmfee : mintFee ch w₃ indexInfo indexMintInfo feeAta fee = .ok w₄)
    (hloop : redeemLoop ch indexInfo net w₄ 0 minOut (pairs rest) = .ok w₅) :
    ∃ dA, Leg ch m w w₅ (-net.toNat : ℤ) dA ∧ w₅.index? (ch.indexKey m) = some idx ∧
      (∀ x ∈ idx.components.zip (pairs rest),
        (w₅.vault ch m x.1 : ℤ) = w.vault ch m x.1 - paidOut ch m net x.1 x.2.2 +
          (Pi.single feeAta.key (fee.toNat : ℤ) : Pubkey → ℤ) (ch.vaultKey m x.1.mint)) ∧
      (fee.toNat ≠ 0 → ∃ t, w₅.token? feeAta.key = some t ∧ t.mint = m ∧
        t.owner = idx.feeRecipient) ∧
      (∀ {k t}, w.token? k = some t → t.mint ∉ idx.components.map Component.mint →
        (w₅.amount k : ℤ) = w.amount k - (Pi.single userIndexAta.key (amount.toNat : ℤ) : Pubkey → ℤ) k
          + (Pi.single feeAta.key (fee.toNat : ℤ) : Pubkey → ℤ) k) := by
  subst hm
  obtain ⟨hL₃, hR₃, hfree⟩ := burnIndexTokens_leg hburn rfl hu
  obtain ⟨hL₄, hR₄⟩ := mintFee_leg hmfee rfl
  have hL' := hL₃.trans hL₄
  have hRloop : w₄.index? (ch.indexKey indexMintInfo.key) = some idx := by
    rw [hR₄, hR₃, hidx]
  obtain ⟨dA, hL₅, hR₅, -, hoff, hat⟩ :=
    redeemLoop_leg hi (hC.of_flow hL'.flow) hRloop List.drop_zero hps hlen hloop
  have hL := hL'.trans hL₅
  refine ⟨_, hL.cast (by omega) rfl, by rw [hR₅, hRloop], ?_, ?_, ?_⟩
  · intro x hx
    have hv := hL.flow.amount (ch.vaultKey indexMintInfo.key x.1.mint)
    have hsrc : ch.vaultKey indexMintInfo.key x.1.mint ≠ userIndexAta.key := fun e =>
      hfree _ (e ▸ hC.custodied (List.of_mem_zip hx).1)
    simp only [Pi.add_apply, Pi.neg_apply, Pi.single_eq_of_ne hsrc, hat x hx] at hv
    unfold World.vault
    omega
  · intro hfee0
    have hR₃' : w₃.index? indexInfo.key = some idx := by rw [hi, hR₃, hidx]
    obtain ⟨t, ht, htm, hto⟩ := mintFee_account hmfee hR₃' hfee0
    obtain ⟨t', ht', htm', hto', -⟩ := (hL₄.flow.trans hL₅.flow).account ht
    exact ⟨t', ht', htm'.trans htm, hto'.trans hto⟩
  · intro k t hk hkm
    have hv := hL.flow.amount k
    simp only [Pi.add_apply, Pi.neg_apply, off_before hL' hoff hk hkm] at hv
    omega

/-- What a `Redeem` that went through found and left. -/
theorem redeem_redeemed {minOut : List UInt64} (hm : indexMintInfo.key = m)
    (h : redeem ch w (user :: indexInfo :: indexMintInfo :: userIndexAta :: feeAta ::
      tokenProgram :: rest) amount minOut = .ok w')
    (hu : user.isSigner = true → ch.Outsider user.key)
    (hC : ∀ {idx}, w.index? (ch.indexKey m) = some idx → Custody ch m w idx) :
    ∃ idx w₁ owed fee net, w.index? (ch.indexKey m) = some idx ∧ user.isSigner = true ∧
      Redeemed ch m idx w w₁ w' amount user.key userIndexAta.key feeAta.key (pairs rest)
        owed fee net := by
  subst hm
  simp only [redeem, bind_ok_iff, failIf_ok_iff, indexRef_ok_iff, requireSigner,
    Bool.not_eq_false, lift_ok_iff, mulDivCeil_ok_iff, toU64_ok_iff, checkedSub_ok_iff,
    readMint_ok_iff, requireTokenAccountOfMint_ok_iff, not_or, not_not] at h
  obtain ⟨-, hsig, -, -, b, hpda, -, hpos, idx, ⟨hidx, -⟩, -, hst, -, ⟨hlen, -⟩, h⟩ := h
  obtain ⟨tu, ⟨htu, htum⟩, ⟨owed, w₁⟩, hacc, bs, hver, mi, hmi, -, hen, w₂, hsync, _, ⟨-, -, rfl⟩, h⟩ := h
  obtain ⟨fee, hfee, net, hnet, w₃, hburn, w₄, hmfee, w₅, hloop, hlast⟩ := h
  have hi := checkIndexPda_ok hpda
  have hA := accrue_accrual hacc hi hidx
  rw [hi] at hidx
  have hC₁ := ((hC hidx).of_flow hA.leg.flow).accrued w.clock
  obtain ⟨hvk, rfl⟩ := (verifyVaults_ok_iff hC₁ hi hA.record).mp hver
  obtain ⟨hfit, rfl⟩ := (syncUnits_ok_iff hC₁ hi hA.record hmi).mp hsync
  have hpos' : amount.toNat ≠ 0 := by
    rw [← UInt64.toNat_zero]
    exact fun e => hpos (UInt64.toNat_inj.mp e)
  have henough : amount.toNat ≤ w₁.supply indexMintInfo.key := by
    have := mt UInt64.lt_iff_toNat_lt.mpr hen
    rw [World.supply_of_mint? hmi]
    omega
  -- the record is synced, the tokens are burned, and the vaults pay
  have hL₂ := Leg.of_setIndex hA.record (idx.refreshed ch indexMintInfo.key w₁ w.clock)
  have hC₂ := ((hC hidx).of_flow (hA.leg.flow.trans hL₂.flow)).refreshed w₁ w.clock
  have hmints : (idx.refreshed ch indexMintInfo.key w₁ w.clock).components.map Component.mint
      = idx.components.map Component.mint := Index.refreshed_mints w.clock
  have hps := pairs_vaults (hvk.trans
    (Index.synced_vaultKeys ch indexMintInfo.key w₁ (idx.accrued w.clock)).symm)
  have hlen₂ : minOut.length = (idx.refreshed ch indexMintInfo.key w₁ w.clock).components.length :=
    hlen.trans (Index.synced_length ch indexMintInfo.key w₁ (idx.accrued w.clock)).symm
  obtain ⟨dA, hL₅, hR, hvault, hfeeAcc, hoff⟩ := redeem_moves rfl hi (hu hsig) hC₂
    (World.index?_setIndex_self _) hps hlen₂ hnet hburn hmfee hloop
  -- the accrual and the refresh leave the holder's account as it was, but for a fee
  obtain ⟨n, htu₁, -⟩ := accrue_account hacc htu
  have hsame : (w₁.setIndex (ch.indexKey indexMintInfo.key)
      (idx.refreshed ch indexMintInfo.key w₁ w.clock)).token? = w₁.token? :=
    World.token?_set_of_not (by simp) (by simp [World.accounts_of_index? hA.record])
  have htu₂ := (congrFun hsame userIndexAta.key).trans htu₁
  have hL := hL₂.trans hL₅
  -- and the record is synced again
  have hC₅ := ((hC hidx).of_flow (hA.leg.flow.trans hL.flow)).refreshed w₁ w.clock
  obtain ⟨-, hfit', rfl⟩ := (resync_ok_iff hC₅ hi rfl hR).mp hlast
  have hL₆ := Leg.of_setIndex hR
    ((idx.refreshed ch indexMintInfo.key w₁ w.clock).synced ch indexMintInfo.key w₅)
  refine ⟨idx, w₁, owed, fee, net, hidx, hsig, hst, hpos', hA, henough, hfit.resolve_left (by omega),
    hfee, hnet, pairs_vaults hvk, ⟨tu, htu, htum, ?_⟩, ⟨w₃, hburn⟩, fun hself => ?_,
    ⟨_, (hL.trans hL₆).cast (by omega) rfl⟩, ?_, ?_, ?_, ?_⟩
  · obtain ⟨-, t, -, -, -, ht, -, hmay, -⟩ := ch.token.burn_ok hburn
    obtain rfl := Option.some.inj (htu₂.symm.trans ht)
    rwa [ch.token.mayBurn_amount] at hmay
  · have hv := hoff htu₂ (by rw [hmints]; exact htum ▸ hself)
    have hv₁ := hA.leg.flow.amount userIndexAta.key
    have hv₆ := hL₆.flow.amount userIndexAta.key
    rw [World.amount_congr hsame, Pi.single_eq_same, Pi.single_apply] at hv
    rw [Pi.single_apply] at hv₁
    rw [Pi.zero_apply] at hv₆
    split at hv <;> split at hv₁ <;> split <;> first | omega | contradiction
  · intro x hx
    rw [World.vault_setIndex hR, hvault x hx, World.vault_setIndex hA.record]
  · intro hfee0
    obtain ⟨t, ht, htm, hto⟩ := hfeeAcc hfee0
    obtain ⟨t', ht', htm', hto', -⟩ := hL₆.flow.account ht
    refine ⟨t', ht', htm'.trans htm, hto'.trans (hto.trans ?_)⟩
    rw [Index.refreshed_eq]
  · rw [World.supply_setIndex hR]
    exact hfit'.imp id fun hf => (unitsFit_setIndex hR _).mpr ((unitsFit_congr hmints).mp hf)
  · rw [World.index?_setIndex_self, Index.synced_setIndex hR]

end Handlers

end Flock
