import Flock.System

/-!
# An index that lists itself

`add_component` does not refuse the index's own mint. Such an index is never
issued: whoever issues first has to deliver some of its tokens before any are
minted, and at zero supply there are none in any account. So wherever index
tokens are outstanding, no vault holds them (`Reachable.mint_ne`), and what a
handler mints or burns moves no vault.
-/

namespace Flock

open Outcome MachineInt

variable {ch : Chain} {m : Pubkey} {w w₁ w' : World} {idx idx' : Index}

/-- Where the index lists its own token there is no supply, and the recipe asks
for some of it. -/
def Unissued (m : Pubkey) (w : World) (idx : Index) : Prop :=
  ∀ c ∈ idx.components, c.mint = m → w.supply m = 0 ∧ c.units.toNat ≠ 0

theorem Unissued.of_components (h : Unissued m w idx)
    (hc : idx'.components.map (fun c => (c.mint, c.units))
      = idx.components.map fun c => (c.mint, c.units))
    (hS : w'.supply m ≤ w.supply m) : Unissued m w' idx' := by
  intro c hmem hown
  have hin : (c.mint, c.units) ∈ idx.components.map fun c => (c.mint, c.units) :=
    hc ▸ List.mem_map_of_mem hmem
  obtain ⟨c₀, hc₀, he⟩ := List.mem_map.mp hin
  obtain ⟨hm, hu⟩ := Prod.mk.inj he
  obtain ⟨h0, hne⟩ := h c₀ hc₀ (hm.trans hown)
  exact ⟨by omega, hu ▸ hne⟩

/-- Tokens outstanding, or none listed. -/
theorem Unissued.of_mint_ne (h : ∀ c ∈ idx.components, c.mint ≠ m) : Unissued m w idx :=
  fun c hc hown => absurd hown (h c hc)

theorem Unissued.mint_ne (h : Unissued m w idx) (hS : w.supply m ≠ 0) :
    ∀ c ∈ idx.components, c.mint ≠ m :=
  fun c hc hown => hS (h c hc hown).1

/-- A table with the same mints lists the index exactly when this one does. -/
theorem mint_ne_of_mints (h : ∀ c ∈ idx.components, c.mint ≠ m)
    (hm : idx'.components.map Component.mint = idx.components.map Component.mint) :
    ∀ c ∈ idx'.components, c.mint ≠ m := by
  intro c hc hown
  have hin : c.mint ∈ idx.components.map Component.mint := hm ▸ List.mem_map_of_mem hc
  obtain ⟨c₀, hc₀, he⟩ := List.mem_map.mp hin
  exact h c₀ hc₀ (he.trans hown)

/-- Nobody issues an index that lists itself and has no supply: what the recipe
asks of its own token does not exist. -/
theorem Issued.mint_ne {amount owed fee gross : UInt64} {maxIn : List UInt64}
    {userIndexAta feeAta : Pubkey}
    (h : Issued ch m idx w w₁ w' amount maxIn userIndexAta feeAta owed fee gross)
    (hC : Custody ch m w idx) (hs : w.Sound) (hU : Unissued m w idx) :
    ∀ c ∈ idx.components, c.mint ≠ m := by
  intro c hc hown
  obtain ⟨h0, hu⟩ := hU c hc hown
  have hL := h.accrual.leg
  have hS₁ : w₁.supply m = 0 := by
    have hsup := hL.supply
    rw [h.accrual.owed_zero h0, UInt64.toNat_zero] at hsup
    omega
  -- at no supply the refresh writes nothing, so the listed units stand
  have hc₁ : c ∈ (idx.refreshed ch m w₁ w.clock).components := by
    rw [Index.refreshed, Index.synced, if_pos hS₁]
    exact hc
  have hpaid := h.paid c hc₁
  obtain ⟨mi, hmi, hauth, -⟩ := (hC.of_flow hL.flow).mint
  have htot := (hL.flow.sound hs).minted m mi hmi (by rw [hauth]; rfl)
  rw [← World.supply_of_mint? hmi, hS₁] at htot
  rw [hown] at hpaid
  have hreq : c.units.toNat * gross.toNat ≤ c.required gross * unitScale := by
    have hceil : c.units.toNat * gross.toNat ≤ unitScale • c.required gross :=
      le_smul_ceilDiv (by decide)
    rwa [smul_eq_mul, Nat.mul_comm unitScale] at hceil
  have hzero : c.required gross = 0 := by omega
  rw [hzero, Nat.zero_mul] at hreq
  have hgross := (Nat.mul_eq_zero.mp (Nat.le_zero.mp hreq)).resolve_left hu
  have := h.gross_eq
  have := h.positive
  omega

/-- The step lemma. -/
theorem Effect.unissued {accounts : List AccountInfo} {ix : FlockInstruction}
    (h : Effect ch m w w' accounts ix)
    (hW : ∀ {idx}, w.index? (ch.indexKey m) = some idx → Wf ch m w idx) (hs : w.Sound)
    (hU : ∀ {idx}, w.index? (ch.indexKey m) = some idx → Unissued m w idx)
    (hidx' : w'.index? (ch.indexKey m) = some idx') : Unissued m w' idx' := by
  have hrewrite : ∀ {idx₀ idx₁ : Index}, w.index? (ch.indexKey m) = some idx₀ →
      w' = w.setIndex (ch.indexKey m) idx₁ →
      idx₁.components.map (fun c => (c.mint, c.units))
        = idx₀.components.map (fun c => (c.mint, c.units)) → Unissued m w' idx' := by
    intro idx₀ idx₁ before hw hcomp
    subst hw
    rw [World.index?_setIndex_self] at hidx'
    obtain rfl := Option.some.inj hidx'
    exact (hU before).of_components hcomp (by rw [World.supply_setIndex before])
  cases h with
  | initIndex key done =>
    obtain rfl := Option.some.inj (done.record.symm.trans hidx')
    exact Unissued.of_mint_ne fun c hc => absurd hc List.not_mem_nil
  | addComponent key signed before mint done =>
    obtain rfl := Option.some.inj (done.record.symm.trans hidx')
    have h0 := (hW before).unissued done.bootstrapping
    have hsup := done.leg.supply
    intro c hc hown
    refine ⟨by omega, ?_⟩
    rcases List.mem_append.mp hc with hc | hc
    · exact (hU before c hc hown).2
    · obtain rfl := List.mem_singleton.mp hc
      rw [← UInt64.toNat_zero]
      exact fun e => done.units_pos (UInt64.toNat_inj.mp e)
  | sealIndex key signed before done => exact hrewrite before done.world rfl
  | issue key before done =>
    obtain rfl := Option.some.inj (done.record.symm.trans hidx')
    exact Unissued.of_mint_ne (mint_ne_of_mints
      (done.mint_ne (hW before).custody hs (hU before)) (Index.settled_mints _ w' w.clock))
  | redeem key signed before done =>
    obtain rfl := Option.some.inj (done.record.symm.trans hidx')
    -- there was supply to burn
    have hS : w.supply m ≠ 0 := by
      intro h0
      have hsup := done.accrual.leg.supply
      rw [done.accrual.owed_zero h0, UInt64.toNat_zero] at hsup
      have := done.enough
      have := done.positive
      omega
    exact Unissued.of_mint_ne (mint_ne_of_mints ((hU before).mint_ne hS)
      (Index.settled_mints _ w' w.clock))
  | accrueFees key before done =>
    obtain rfl := Option.some.inj (done.record.symm.trans hidx')
    by_cases h0 : w.supply m = 0
    · have hsup := done.leg.supply
      rw [done.accrual.owed_zero h0, UInt64.toNat_zero] at hsup
      have h0' : w'.supply m = 0 := by omega
      rw [Index.synced, if_pos h0']
      exact (hU before).of_components rfl (by omega)
    · exact Unissued.of_mint_ne (mint_ne_of_mints ((hU before).mint_ne h0)
        (Index.synced_map ch m w' _ Component.mint fun _ _ => rfl))
  | proposeRebalance key signed before done =>
    exact hrewrite before done.world
      (writeTargets_map (fun c => (c.mint, c.units)) (fun _ _ _ => rfl) _ _ _)
  | bid key before done =>
    obtain rfl := Option.some.inj (done.record.symm.trans hidx')
    exact Unissued.of_mint_ne (mint_ne_of_mints ((hU before).mint_ne done.supply)
      (Index.synced_map ch m w' _ Component.mint fun _ _ => rfl))
  | endRebalance key signed before done =>
    have hw := done.world
    subst hw
    rw [World.index?_setIndex_self] at hidx'
    obtain rfl := Option.some.inj hidx'
    have hclosed : ∀ i : Index, i.closed.components.map (fun c => (c.mint, c.units))
        = i.components.map fun c => (c.mint, c.units) := by
      intro i
      rw [Index.closed, List.map_map]
      rfl
    by_cases h0 : w.supply m = 0
    · rw [Index.synced, if_pos h0]
      exact (hU before).of_components (hclosed _) (by rw [World.supply_setIndex before])
    · refine Unissued.of_mint_ne (mint_ne_of_mints ((hU before).mint_ne h0) ?_)
      rw [Index.closed, List.map_map]
      exact Index.synced_map ch m w _ Component.mint fun _ _ => rfl
  | setParams key signed before fees governor_eq world => exact hrewrite before world rfl
  | setAuthority key signed before governor_eq world =>
    exact hrewrite before world (by rw [Index.withAuthority_components])
  | setPaused key signed before hsealed brake release world => exact hrewrite before world rfl

/-- Every index of a world keeps to the rule. -/
def AllUnissued (ch : Chain) (w : World) : Prop :=
  ∀ {m idx}, ch.inUse m → w.index? (ch.indexKey m) = some idx → Unissued m w idx

theorem Step.allUnissued (h : Step ch w w') (hW : AllWf ch w) (hs : w.Sound)
    (hU : AllUnissued ch w) : AllUnissued ch w' := by
  intro m idx hm hidx
  cases h with
  | call signable done =>
    rcases hW.call_cases hm signable done with heff | ⟨-, hun⟩
    · exact heff.unissued (hW.wf hm) hs (hU hm) hidx
    · rw [hun.record] at hidx
      exact (hU hm hidx).of_components rfl (hun.supply_le (hW.wf hm hidx).custody)
  | outside ho =>
    rw [ho.records] at hidx
    exact (hU hm hidx).of_components rfl ((ho.each hm).supply_le (hW.wf hm hidx).custody)

/-- The run lemma. -/
theorem reachable_unissued (h : Reachable ch w) : AllUnissued ch w := by
  obtain ⟨w₀, hg, hrun⟩ := h
  induction hrun with
  | refl =>
    intro m idx _ hidx
    rw [hg.fresh] at hidx
    cases hidx
  | @tail b _ hrun hstep ih =>
    obtain ⟨hW, hs⟩ := reachable_wf ⟨w₀, hg, hrun⟩
    exact hstep.allUnissued hW hs ih

/-- Wherever index tokens are outstanding, no component is the index itself. -/
theorem Reachable.mint_ne (h : Reachable ch w) (hm : ch.inUse m)
    (hidx : w.index? (ch.indexKey m) = some idx) (hS : w.supply m ≠ 0) :
    ∀ c ∈ idx.components, c.mint ≠ m :=
  (reachable_unissued h hm hidx).mint_ne hS

end Flock
