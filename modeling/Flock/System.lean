import Flock.Effect
import Mathlib.Logic.Relation

/-!
# Runs of the system, and what every reachable world keeps

A world moves by a call of the program or by a step of somebody else. The
second kind is anything that leaves every index `Undisturbed`: time may pass,
tokens may be deposited into vaults, holders may burn, accounts and mints may
appear. A failed call leaves the world as it was, so it is no step.

`Wf` is the invariant of one index. It survives a step of its own index by the
effect of the instruction (`Effect.wf`), and every other step because that step
leaves the index undisturbed (`Wf.of_undisturbed`); `reachable_wf` is the
induction over the run.
-/

namespace Flock

open Outcome MachineInt

variable {ch : Chain} {m : Pubkey} {w w' : World} {idx : Index}

/-! ## Steps of others -/

/-- Nothing was done to the index of `m` but what anybody may do: its accounts
only gained, its mint only lost supply, its record stayed. -/
structure Undisturbed (ch : Chain) (m : Pubkey) (w w' : World) : Prop where
  clock : w.clock ≤ w'.clock
  record : w'.index? (ch.indexKey m) = w.index? (ch.indexKey m)
  mint : ∀ {mi}, w.mint? m = some mi → mi.mintAuthority = some (ch.indexKey m) →
    ∃ mi', w'.mint? m = some mi' ∧ mi'.mintAuthority = mi.mintAuthority ∧
      mi'.decimals = mi.decimals ∧ mi'.freezeAuthority = mi.freezeAuthority ∧
      mi'.supply.toNat ≤ mi.supply.toNat
  account : ∀ {k t}, w.token? k = some t → t.owner = ch.indexKey m → t.delegate = none →
    ∃ t', w'.token? k = some t' ∧ t'.mint = t.mint ∧ t'.owner = t.owner ∧ t'.delegate = none ∧
      t.amount.toNat ≤ t'.amount.toNat

namespace Undisturbed

/-- Nothing happens. -/
theorem refl (ch : Chain) (m : Pubkey) (w : World) : Undisturbed ch m w w where
  clock := Int64.le_refl _
  record := rfl
  mint := fun {mi} h _ => ⟨mi, h, rfl, rfl, rfl, le_refl _⟩
  account := fun {_ t} h _ hd => ⟨t, h, rfl, rfl, hd, le_refl _⟩

/-- What leaves an index undisturbed leaves its vaults in custody. -/
theorem custody (h : Undisturbed ch m w w') (hC : Custody ch m w idx) : Custody ch m w' idx where
  inUse := hC.inUse
  header := hC.header
  indexMint := hC.indexMint
  mint := by
    obtain ⟨mi, hmi, ha, hd, hf⟩ := hC.mint
    obtain ⟨mi', hmi', ha', hd', hf', -⟩ := h.mint hmi ha
    exact ⟨mi', hmi', ha'.trans ha, hd'.trans hd, hf'.trans hf⟩
  vaults := by
    intro c hc
    obtain ⟨t, ht, hm, ho, hd⟩ := hC.vaults c hc
    obtain ⟨t', ht', hm', ho', hd', -⟩ := h.account ht ho hd
    exact ⟨t', ht', hm'.trans hm, ho'.trans ho, hd'⟩
  nodup := hC.nodup

/-- No vault falls. -/
theorem vault_le (h : Undisturbed ch m w w') (hC : Custody ch m w idx) {c : Component}
    (hc : c ∈ idx.components) : w.vault ch m c ≤ w'.vault ch m c := by
  obtain ⟨t, ht, -, ho, hd⟩ := hC.vaults c hc
  obtain ⟨t', ht', -, -, -, hle⟩ := h.account ht ho hd
  rw [World.vault, World.vault, World.amount_of_token? ht, World.amount_of_token? ht']
  exact hle

/-- The supply does not rise. -/
theorem supply_le (h : Undisturbed ch m w w') (hC : Custody ch m w idx) :
    w'.supply m ≤ w.supply m := by
  obtain ⟨mi, hmi, ha, -⟩ := hC.mint
  obtain ⟨mi', hmi', -, -, -, hle⟩ := h.mint hmi ha
  rw [World.supply_of_mint? hmi, World.supply_of_mint? hmi']
  exact hle

end Undisturbed

/-- A leg of one index leaves every other index undisturbed. -/
theorem Leg.undisturbed {dS : ℤ} {dA : Pubkey → ℤ} {m' : Pubkey} (h : Leg ch m w w' dS dA)
    (huse : ch.inUse m) (huse' : ch.inUse m') (hm : m' ≠ m) : Undisturbed ch m' w w' where
  clock := by rw [h.flow.clock]; exact Int64.le_refl _
  record := h.records _ fun e => hm (ch.indexKey_inj huse' huse e)
  mint := by
    intro mi hmi _
    obtain ⟨mi', hmi', ha, hd, hf⟩ := h.flow.mint?_of hmi
    have hs := h.supply_of_ne hm
    rw [World.supply_of_mint? hmi, World.supply_of_mint? hmi'] at hs
    exact ⟨mi', hmi', ha, hd, hf, hs.le⟩
  account := by
    intro k t ht ho hd
    obtain ⟨t', ht', hm', ho', -, hd'⟩ := h.flow.account ht
    have hge := h.foreign hm ⟨huse', t, ht, ho, hd⟩
    have ha := h.flow.amount k
    rw [World.amount_of_token? ht, World.amount_of_token? ht'] at ha
    exact ⟨t', ht', hm', ho', hd' hd, by omega⟩

/-- A step of somebody else. -/
structure Outside (ch : Chain) (w w' : World) : Prop where
  records : w'.index? = w.index?
  each : ∀ {m}, ch.inUse m → Undisturbed ch m w w'
  sound : w.Sound → w'.Sound

/-- Time passes. -/
theorem Outside.tick {t : Int64} (h : w.clock ≤ t) : Outside ch w { w with clock := t } where
  records := rfl
  each := fun {m} _ => { Undisturbed.refl ch m w with clock := h }
  sound := fun hs => ⟨hs.fits, hs.minted⟩

/-- A transfer an outsider signed: deposits into vaults are of this kind. -/
theorem Outside.transfer {s d a : Pubkey} {x : UInt64} (ha : ch.Outsider a)
    (h : ch.token.transfer w s d a x = .ok w') : Outside ch w w' where
  records := (transfer_flow h).2.1
  each := by
    intro m hm
    obtain ⟨hflow, hidx, hmnt⟩ := transfer_flow h
    refine ⟨by rw [hflow.clock]; exact Int64.le_refl _, by rw [hidx],
      fun {mi} hmi _ => ⟨mi, by rw [hmnt, hmi], rfl, rfl, rfl, le_refl _⟩, ?_⟩
    intro k t ht ho hd
    have hks : k ≠ s := by
      rintro rfl
      exact ha m hm (Custodied.debit ⟨hm, t, ht, ho, hd⟩ h)
    obtain ⟨t', ht', hm', ho', -, hd'⟩ := hflow.account ht
    have hk := hflow.amount k
    rw [World.amount_of_token? ht, World.amount_of_token? ht', Pi.sub_apply,
      Pi.single_eq_of_ne hks, Pi.single_apply] at hk
    exact ⟨t', ht', hm', ho', hd' hd, by split at hk <;> omega⟩
  sound := (transfer_flow h).1.sound

/-- A burn an outsider signed. -/
theorem Outside.burn {s k a : Pubkey} {x : UInt64} (ha : ch.Outsider a)
    (h : ch.token.burn w s k a x = .ok w') : Outside ch w w' where
  records := (burn_flow h).2.1
  each := by
    intro m hm
    obtain ⟨hflow, hidx, -⟩ := burn_flow h
    refine ⟨by rw [hflow.clock]; exact Int64.le_refl _, by rw [hidx], ?_, ?_⟩
    · intro mi hmi _
      obtain ⟨mi', hmi', hau, hd, hf⟩ := hflow.mint?_of hmi
      have hs := hflow.supply m
      rw [World.supply_of_mint? hmi, World.supply_of_mint? hmi', Pi.neg_apply,
        Pi.single_apply] at hs
      exact ⟨mi', hmi', hau, hd, hf, by split at hs <;> omega⟩
    · intro j t ht ho hd
      have hjs : j ≠ s := by
        rintro rfl
        exact ha m hm (Custodied.burn ⟨hm, t, ht, ho, hd⟩ h)
      obtain ⟨t', ht', hm', ho', -, hd'⟩ := hflow.account ht
      have hk := hflow.amount j
      rw [World.amount_of_token? ht, World.amount_of_token? ht', Pi.neg_apply,
        Pi.single_eq_of_ne hjs] at hk
      exact ⟨t', ht', hm', ho', hd' hd, by omega⟩
  sound := (burn_flow h).1.sound

/-! ## The invariant of an index -/

/-- `components[i].units` never promises more than the vault holds. -/
def Backed (ch : Chain) (m : Pubkey) (w : World) (idx : Index) : Prop :=
  ∀ c ∈ idx.components, c.units.toNat * w.supply m ≤ w.vault ch m c * unitScale

structure Wf (ch : Chain) (m : Pubkey) (w : World) (idx : Index) : Prop where
  custody : Custody ch m w idx
  fees : FeesInBounds idx.streamingFeeBps idx.issueFeeBps idx.redeemFeeBps idx.maxPremiumBps
    idx.rebalanceDelay
  state : idx.state = stateBootstrapping ∨ idx.state = stateLive ∨ idx.state = statePaused
  unissued : idx.state = stateBootstrapping → w.supply m = 0
  nonempty : idx.state ≠ stateBootstrapping → idx.components ≠ []
  room : idx.components.length ≤ maxComponents
  backed : Backed ch m w idx
  settled : idx.lastFeeAccrual ≤ w.clock

/-- A sync leaves a record that promises no more than the vaults hold. -/
theorem backed_synced (hfit : w.supply m = 0 ∨ UnitsFit ch m w idx) :
    Backed ch m w (idx.synced ch m w) := by
  have hwrite : ∀ (c : Component) (u : UInt64), u.toNat * w.supply m ≤ w.vault ch m c * unitScale →
      ({ c with units := u } : Component).units.toNat * w.supply m
        ≤ w.vault ch m { c with units := u } * unitScale := by
    intro c u hu
    rw [World.vault_congr (show ({ c with units := u } : Component).mint = c.mint from rfl)]
    exact hu
  intro c hc
  unfold Index.synced at hc
  split at hc
  next h0 =>
    rw [h0, Nat.mul_zero]
    exact Nat.zero_le _
  next h0 =>
    obtain ⟨c₀, hc₀, rfl⟩ := List.mem_map.mp hc
    refine hwrite c₀ _ ?_
    rw [toNat_unitsOf h0 (hfit.resolve_left h0 c₀ hc₀)]
    exact Nat.div_mul_le_self _ _

/-- Backing reads units and mints of the table only. -/
theorem Backed.of_components {idx' : Index} (h : Backed ch m w idx)
    (hc : idx'.components.map (fun c => (c.mint, c.units))
      = idx.components.map fun c => (c.mint, c.units)) : Backed ch m w idx' := by
  intro c hmem
  have hin : (c.mint, c.units) ∈ idx.components.map fun c => (c.mint, c.units) :=
    hc ▸ List.mem_map_of_mem hmem
  obtain ⟨c₀, hc₀, he⟩ := List.mem_map.mp hin
  obtain ⟨hm, hu⟩ := Prod.mk.inj he
  have hb := h c₀ hc₀
  unfold World.vault at hb ⊢
  rw [← hm, ← hu]
  exact hb

/-- Backing is a matter of vaults and supply, not of the record that is there. -/
theorem backed_setIndex {k : Pubkey} {i : Index} (h : w.index? k = some i) (i' : Index) :
    Backed ch m (w.setIndex k i') idx ↔ Backed ch m w idx := by
  simp only [Backed, World.supply_setIndex h, World.vault_setIndex h]

namespace Wf

/-- An index left undisturbed stays well formed. -/
theorem of_undisturbed (hW : Wf ch m w idx) (h : Undisturbed ch m w w') : Wf ch m w' idx where
  custody := h.custody hW.custody
  fees := hW.fees
  state := hW.state
  unissued := fun hb => Nat.le_zero.mp (hW.unissued hb ▸ h.supply_le hW.custody)
  nonempty := hW.nonempty
  room := hW.room
  backed := by
    intro c hc
    calc c.units.toNat * w'.supply m
        ≤ c.units.toNat * w.supply m := Nat.mul_le_mul_left _ (h.supply_le hW.custody)
      _ ≤ w.vault ch m c * unitScale := hW.backed c hc
      _ ≤ w'.vault ch m c * unitScale := Nat.mul_le_mul_right _ (h.vault_le hW.custody hc)
  settled := Int64.le_trans hW.settled h.clock

/-- A handler that only rewrites the record, and not its components' mints or
units, keeps the invariant when the new header is in order. -/
theorem of_rewrite {i idx' : Index} (hW : Wf ch m w idx)
    (before : w.index? (ch.indexKey m) = some i)
    (hhead : idx'.tag = idx.tag ∧ idx'.version = idx.version ∧ idx'.indexMint = idx.indexMint)
    (hcomp : idx'.components.map (fun c => (c.mint, c.units))
      = idx.components.map fun c => (c.mint, c.units))
    (hfees : FeesInBounds idx'.streamingFeeBps idx'.issueFeeBps idx'.redeemFeeBps
      idx'.maxPremiumBps idx'.rebalanceDelay)
    (hstate : idx'.state = idx.state ∨ (idx'.state = stateLive ∨ idx'.state = statePaused) ∧
      idx.components ≠ [])
    (hset : idx'.lastFeeAccrual = idx.lastFeeAccrual ∨ idx'.lastFeeAccrual = w.clock) :
    Wf ch m (w.setIndex (ch.indexKey m) idx') idx' := by
  have hlen : idx'.components.length = idx.components.length := by
    simpa using congrArg List.length hcomp
  have hmints : idx'.components.map Component.mint = idx.components.map Component.mint := by
    simpa [List.map_map, Function.comp_def] using congrArg (List.map Prod.fst) hcomp
  have hne : idx.components ≠ [] → idx'.components ≠ [] := fun h e => h (by
    rw [e, List.length_nil] at hlen
    exact List.length_eq_zero_iff.mp hlen.symm)
  refine ⟨?_, hfees, ?_, ?_, ?_, hlen ▸ hW.room, ?_, ?_⟩
  · exact (hW.custody.of_flow (Flow.of_setIndex before idx')).of_record hhead.1 hhead.2.1
      hhead.2.2 hmints
  · rcases hstate with h | ⟨h, -⟩
    · rw [h]; exact hW.state
    · exact .inr h
  · intro hb
    rw [World.supply_setIndex before]
    rcases hstate with h | ⟨h | h, -⟩
    · exact hW.unissued (h ▸ hb)
    · exact absurd (h.symm.trans hb) (by decide)
    · exact absurd (h.symm.trans hb) (by decide)
  · intro hb
    rcases hstate with h | ⟨-, h⟩
    · exact hne (hW.nonempty (h ▸ hb))
    · exact hne h
  · exact (backed_setIndex before idx').mpr (hW.backed.of_components hcomp)
  · rw [World.setIndex_clock]
    rcases hset with h | h
    · rw [h]; exact hW.settled
    · rw [h]; exact Int64.le_refl _

/-- A record that differs from the old one in units and in the fee clock,
synced against the world it is read in: what every handler leaves that moved
tokens. -/
theorem of_synced {idx₀ : Index} {dS : ℤ} {dA : Pubkey → ℤ} (hW : Wf ch m w idx)
    (hleg : Leg ch m w w' dS dA) (hst : idx.state ≠ stateBootstrapping)
    (h₀ : idx₀ = { idx with
      components := idx₀.components
      lastFeeAccrual := idx₀.lastFeeAccrual })
    (hmints : idx₀.components.map Component.mint = idx.components.map Component.mint)
    (hset : idx₀.lastFeeAccrual ≤ w'.clock)
    (hfit : w'.supply m = 0 ∨ UnitsFit ch m w' idx) : Wf ch m w' (idx₀.synced ch m w') := by
  have hs := Index.synced_eq ch m w' idx₀
  have hlen : (idx₀.synced ch m w').components.length = idx.components.length :=
    (Index.synced_length ch m w' idx₀).trans (by simpa using congrArg List.length hmints)
  have hstate : (idx₀.synced ch m w').state = idx.state := by rw [hs, h₀]
  refine ⟨?_, ?_, ?_, ?_, ?_, hlen ▸ hW.room,
    backed_synced (hfit.imp id (unitsFit_congr hmints).mpr), ?_⟩
  · exact ((hW.custody.of_flow hleg.flow).of_record (by rw [h₀]) (by rw [h₀]) (by rw [h₀])
      hmints).synced w'
  · rw [hs, h₀]
    exact hW.fees
  · rw [hstate]
    exact hW.state
  · intro hb
    exact absurd (hstate.symm.trans hb) hst
  · intro _ e
    rw [e, List.length_nil] at hlen
    exact hW.nonempty hst (List.length_eq_zero_iff.mp hlen.symm)
  · rw [hs]
    exact hset

end Wf

/-! ## Steps of the program -/

/-- A new record is well formed. -/
theorem Initialized.wf {governor manager feeRecipient : Pubkey} {p : InitParams}
    (h : Initialized ch m w w' governor manager feeRecipient p) (hm : ch.inUse m) :
    Wf ch m w' (.initial m governor manager feeRecipient p (ch.indexPda m).2 w.clock) := by
  obtain ⟨mi, hmi, hdec, hsup, hfr, hauth⟩ := h.mint
  obtain ⟨mi', hmi', ha', hd', hf'⟩ := h.leg.flow.mint?_of hmi
  refine ⟨⟨hm, ⟨rfl, rfl⟩, rfl, ⟨mi', hmi', ha'.trans hauth, hd'.trans hdec, hf'.trans hfr⟩,
    fun c hc => absurd hc (List.not_mem_nil), List.nodup_nil⟩, h.fees, .inl rfl, ?_,
    fun hb => absurd rfl hb, Nat.zero_le _, fun c hc => absurd hc (List.not_mem_nil), ?_⟩
  · intro _
    have hs := h.leg.supply
    rw [World.supply_of_mint? hmi] at hs
    omega
  · rw [h.leg.flow.clock]
    exact Int64.le_refl _

/-- A record with one more component is well formed. -/
theorem Added.wf {c : Component} {manager : Pubkey} (h : Added ch m idx w w' c manager)
    (hW : Wf ch m w idx) : Wf ch m w' (idx.withComponent c) := by
  have h0 : w'.supply m = 0 := by
    have hs := h.leg.supply
    have := hW.unissued h.bootstrapping
    omega
  refine ⟨h.custody hW.custody, hW.fees, hW.state, fun _ => h0,
    fun hb => absurd h.bootstrapping hb, ?_, ?_, ?_⟩
  · rw [Index.withComponent, List.length_append, List.length_singleton]
    exact h.room
  · intro c' _
    rw [h0, Nat.mul_zero]
    exact Nat.zero_le _
  · rw [h.leg.flow.clock]
    exact hW.settled

/-- A closed rebalance leaves a well-formed record. -/
theorem Ended.wf {caller : Pubkey} (h : Ended ch m idx w w' caller)
    (before : w.index? (ch.indexKey m) = some idx) (hW : Wf ch m w idx) :
    Wf ch m w' (idx.synced ch m w).closed := by
  have hsync : Wf ch m w (idx.synced ch m w) := by
    by_cases h0 : w.supply m = 0
    · rw [Index.synced, if_pos h0]
      exact hW
    · exact hW.of_synced (Leg.refl ch m w) (fun hb => h0 (hW.unissued hb)) rfl rfl hW.settled h.fits
  rw [h.world]
  refine hsync.of_rewrite before ⟨rfl, rfl, rfl⟩ ?_ hsync.fees (.inl rfl) (.inl rfl)
  rw [Index.closed, List.map_map]
  rfl

/-- The step lemma: an instruction keeps the invariant of its index. -/
theorem Effect.wf {accounts : List AccountInfo} {ix : FlockInstruction}
    (h : Effect ch m w w' accounts ix) (hm : ch.inUse m)
    (hW : ∀ {idx}, w.index? (ch.indexKey m) = some idx → Wf ch m w idx) {idx' : Index}
    (hidx' : w'.index? (ch.indexKey m) = some idx') : Wf ch m w' idx' := by
  cases h with
  | initIndex key done =>
    obtain rfl := Option.some.inj (done.record.symm.trans hidx')
    exact done.wf hm
  | addComponent key signed before mint done =>
    obtain rfl := Option.some.inj (done.record.symm.trans hidx')
    exact done.wf (hW before)
  | sealIndex key signed before done =>
    obtain rfl := done.world
    rw [World.index?_setIndex_self] at hidx'
    obtain rfl := Option.some.inj hidx'
    exact (hW before).of_rewrite before ⟨rfl, rfl, rfl⟩ rfl (hW before).fees
      (.inr ⟨.inl rfl, done.nonempty⟩) (.inr rfl)
  | issue key before done =>
    obtain rfl := Option.some.inj (done.record.symm.trans hidx')
    obtain ⟨dA, hl⟩ := done.leg
    have hleg := done.accrual.leg.trans hl
    refine (hW before).of_synced hleg (fun hb => absurd (done.live.symm.trans hb) (by decide))
      ?_ (Index.refreshed_mints _) ?_ (.inr done.fits')
    · rw [Index.refreshed_eq]
    · rw [Index.refreshed_eq, hleg.flow.clock]
      exact Int64.le_refl _
  | redeem key signed before done =>
    obtain rfl := Option.some.inj (done.record.symm.trans hidx')
    obtain ⟨dA, hl⟩ := done.leg
    have hleg := done.accrual.leg.trans hl
    refine (hW before).of_synced hleg done.sealed ?_ (Index.refreshed_mints _) ?_ done.fits'
    · rw [Index.refreshed_eq]
    · rw [Index.refreshed_eq, hleg.flow.clock]
      exact Int64.le_refl _
  | accrueFees key before done =>
    obtain rfl := Option.some.inj (done.record.symm.trans hidx')
    refine (hW before).of_synced done.leg done.sealed rfl rfl ?_ done.fits'
    rw [done.leg.flow.clock]
    exact Int64.le_refl _
  | proposeRebalance key signed before done =>
    obtain rfl := done.world
    rw [World.index?_setIndex_self] at hidx'
    obtain rfl := Option.some.inj hidx'
    exact (hW before).of_rewrite before ⟨rfl, rfl, rfl⟩
      (writeTargets_map (fun c => (c.mint, c.units)) (fun _ _ _ => rfl) _ _ _) (hW before).fees
      (.inl rfl) (.inl rfl)
  | bid key before done =>
    obtain rfl := Option.some.inj (done.record.symm.trans hidx')
    obtain ⟨dA, hl⟩ := done.leg
    refine (hW before).of_synced hl (fun hb => absurd (done.live.symm.trans hb) (by decide))
      rfl rfl ?_ (.inr done.fits)
    rw [hl.flow.clock]
    exact (hW before).settled
  | endRebalance key signed before done =>
    have hw := done.world
    rw [hw, World.index?_setIndex_self] at hidx'
    obtain rfl := Option.some.inj hidx'
    exact done.wf before (hW before)
  | setParams key signed before fees governor_eq world =>
    obtain rfl := world
    rw [World.index?_setIndex_self] at hidx'
    obtain rfl := Option.some.inj hidx'
    refine (hW before).of_rewrite before ⟨rfl, rfl, rfl⟩ rfl fees (.inl rfl) ?_
    unfold Index.withParams
    split
    · exact .inr rfl
    · exact .inl rfl
  | setAuthority key signed before governor_eq world =>
    obtain rfl := world
    rw [World.index?_setIndex_self] at hidx'
    obtain rfl := Option.some.inj hidx'
    unfold Index.withAuthority
    split
    · exact (hW before).of_rewrite before ⟨rfl, rfl, rfl⟩ rfl (hW before).fees (.inl rfl) (.inl rfl)
    · split <;>
      exact (hW before).of_rewrite before ⟨rfl, rfl, rfl⟩ rfl (hW before).fees (.inl rfl) (.inl rfl)
  | setPaused key signed before hsealed brake release world =>
    obtain rfl := world
    rw [World.index?_setIndex_self] at hidx'
    obtain rfl := Option.some.inj hidx'
    refine (hW before).of_rewrite before ⟨rfl, rfl, rfl⟩ rfl (hW before).fees
      (.inr ⟨?_, (hW before).nonempty hsealed⟩) (.inl rfl)
    dsimp only
    split
    · exact .inr rfl
    · exact .inl rfl

/-! ## Runs -/

/-- One step of the system: a call that succeeded, or a step of somebody else. -/
inductive Step (ch : Chain) (w w' : World) : Prop where
  | call {accounts : List AccountInfo} {ix : FlockInstruction} (signable : Signable ch accounts)
      (done : process ch w accounts ix = .ok w') : Step ch w w'
  | outside (h : Outside ch w w') : Step ch w w'

/-- A world the program has never run in. -/
structure Genesis (w : World) : Prop where
  fresh : ∀ k, w.index? k = none
  sound : w.Sound

def Reachable (ch : Chain) (w : World) : Prop :=
  ∃ w₀, Genesis w₀ ∧ Relation.ReflTransGen (Step ch) w₀ w

/-- Every record of a world stands at the address of its own mint, and its
index is well-formed. -/
def AllWf (ch : Chain) (w : World) : Prop :=
  ∀ {k idx}, w.index? k = some idx →
    k = ch.indexKey idx.indexMint ∧ Wf ch idx.indexMint w idx

/-- The record of a mint in use is well formed. -/
theorem AllWf.wf (hW : AllWf ch w) (hm : ch.inUse m)
    (hidx : w.index? (ch.indexKey m) = some idx) : Wf ch m w idx := by
  obtain ⟨hk, hwf⟩ := hW hidx
  rw [ch.indexKey_inj hm hwf.custody.inUse hk]
  exact hwf

/-- A call that concerns an index has an effect on it, and leaves it undisturbed
otherwise. -/
theorem AllWf.call_cases {accounts : List AccountInfo} {ix : FlockInstruction} (hW : AllWf ch w)
    (hm : ch.inUse m) (signable : Signable ch accounts)
    (done : process ch w accounts ix = .ok w') :
    Effect ch m w w' accounts ix ∨ ¬ Concerns m accounts ix ∧ Undisturbed ch m w w' := by
  obtain ⟨m₀, hm₀, heff⟩ := process_effect signable (fun hm hi => (hW.wf hm hi).custody) done
  by_cases he : m = m₀
  · exact .inl (he ▸ heff)
  · obtain ⟨dS, dA, hleg⟩ := heff.leg
    refine .inr ⟨fun hc => he ?_, hleg.undisturbed hm₀ hm he⟩
    exact Option.some.inj (hc.symm.trans heff.concerns)

/-- The step lemma of the system: the index a call concerns keeps its invariant
by the effect of the call, and the others because they are left undisturbed. -/
theorem Step.allWf (h : Step ch w w') (hW : AllWf ch w) : AllWf ch w' := by
  intro k idx hidx
  cases h with
  | call signable done =>
    obtain ⟨m, hm, heff⟩ := process_effect signable (fun hm hi => (hW.wf hm hi).custody) done
    by_cases hk : k = ch.indexKey m
    · subst hk
      have hwf := heff.wf hm (hW.wf hm) hidx
      rw [hwf.custody.indexMint]
      exact ⟨rfl, hwf⟩
    · obtain ⟨dS, dA, hleg⟩ := heff.leg
      rw [hleg.records k hk] at hidx
      obtain ⟨hk', hwf⟩ := hW hidx
      have hne : idx.indexMint ≠ m := fun e => hk (hk'.trans (by rw [e]))
      exact ⟨hk', hwf.of_undisturbed (hleg.undisturbed hm hwf.custody.inUse hne)⟩
  | outside ho =>
    rw [ho.records] at hidx
    obtain ⟨hk, hwf⟩ := hW hidx
    exact ⟨hk, hwf.of_undisturbed (ho.each hwf.custody.inUse)⟩

/-- A step keeps the books of every mint. -/
theorem Step.sound (h : Step ch w w') (hW : AllWf ch w) (hs : w.Sound) : w'.Sound := by
  cases h with
  | call signable done =>
    obtain ⟨m, hm, heff⟩ := process_effect signable (fun hm hi => (hW.wf hm hi).custody) done
    obtain ⟨dS, dA, hleg⟩ := heff.leg
    exact hleg.flow.sound hs
  | outside ho => exact ho.sound hs

/-- The run lemma. -/
theorem reachable_wf (h : Reachable ch w) : AllWf ch w ∧ w.Sound := by
  obtain ⟨w₀, hg, hrun⟩ := h
  induction hrun with
  | refl =>
    refine ⟨fun {k idx} hidx => ?_, hg.sound⟩
    rw [hg.fresh] at hidx
    cases hidx
  | tail _ hstep ih => exact ⟨hstep.allWf ih.1, hstep.sound ih.1 ih.2⟩

/-- What a step reaches is reachable. -/
theorem Reachable.step (h : Reachable ch w) (hs : Step ch w w') : Reachable ch w' := by
  obtain ⟨w₀, hg, hrun⟩ := h
  exact ⟨w₀, hg, hrun.tail hs⟩

end Flock
