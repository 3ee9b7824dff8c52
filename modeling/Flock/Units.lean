import Flock.Pools

/-!
# Stored units only fall for a fee or a fill

Between two syncs the stored units are covered (`Backed`), every move at a
covered quote leaves it covered, and a sync replaces a covered quote by the
pool's own, which is the largest covered one. So a handler that moves no tokens
but through `issue` and `redeem` can only raise the units. At zero supply the
sync writes nothing and the stale units are covered trivially, which is why a
run may pass through zero supply.
-/

namespace Flock

open Outcome MachineInt

variable {ch : Chain} {m : Pubkey} {w w₁ w' : World} {idx idx' idx'' : Index}

/-- To be backed is to cover every entry's units. -/
theorem backed_iff_covers : Backed ch m w idx ↔
    ∀ c ∈ idx.components, Pool.Covers unitScale c.units.toNat (w.pool ch m c) := Iff.rfl

/-- Every component of the first table is in the second at the same place, for
the same mint and with no fewer units. -/
def UnitsGrow (idx idx' : Index) : Prop :=
  ∀ (i : Nat) (c : Component), idx.components[i]? = some c →
    ∃ c', idx'.components[i]? = some c' ∧ c'.mint = c.mint ∧ c.units.toNat ≤ c'.units.toNat

namespace UnitsGrow

/-- What grows twice has grown. -/
theorem trans (h : UnitsGrow idx idx') (h' : UnitsGrow idx' idx'') : UnitsGrow idx idx'' := by
  intro i c hc
  obtain ⟨c', hc', hm, hu⟩ := h i c hc
  obtain ⟨c'', hc'', hm', hu'⟩ := h' i c' hc'
  exact ⟨c'', hc'', hm'.trans hm, hu.trans hu'⟩

/-- Where mints and units are the same, nothing has fallen. -/
theorem of_components (h : idx'.components.map (fun c => (c.mint, c.units))
    = idx.components.map fun c => (c.mint, c.units)) : UnitsGrow idx idx' := by
  intro i c hc
  have hi := congrArg (fun cs => cs[i]?) h
  simp only [List.getElem?_map, hc, Option.map_some, Option.map_eq_some_iff, Prod.mk.injEq] at hi
  obtain ⟨c', hc', hm, hu⟩ := hi
  exact ⟨c', hc', hm, by rw [hu]⟩

/-- Nothing has fallen where nothing happened. -/
theorem refl (idx : Index) : UnitsGrow idx idx := of_components rfl

/-- A sync of covered units. -/
theorem of_synced (hb : Backed ch m w idx) (hfit : w.supply m = 0 ∨ UnitsFit ch m w idx) :
    UnitsGrow idx (idx.synced ch m w) := by
  by_cases h0 : w.supply m = 0
  · rw [Index.synced, if_pos h0]
    exact refl idx
  · intro i c hc
    have hmem := List.mem_of_getElem? hc
    rw [Index.synced, if_neg h0]
    refine ⟨{ c with units := unitsOf (w.vault ch m c) (w.supply m) },
      by rw [List.getElem?_map, hc, Option.map_some], rfl, ?_⟩
    have hle := (Pool.covers_iff_le_rate (p := w.pool ch m c) (Nat.pos_of_ne_zero h0)).mp
      (hb c hmem)
    exact hle.trans (toNat_unitsOf h0 (hfit.resolve_left h0 c hmem)).ge

end UnitsGrow

/-- The refresh at the head of `issue` and `redeem`, when no fee is owed. -/
theorem Accrual.grow {feeAta : Pubkey} (h : Accrual ch m idx w w₁ feeAta 0)
    (hb : Backed ch m w idx) (hfit : w₁.supply m = 0 ∨ UnitsFit ch m w₁ idx) (now : Int64) :
    UnitsGrow idx (idx.refreshed ch m w₁ now) := by
  have hb₁ : Backed ch m w₁ (idx.accrued now) := fun c hc => by
    have hpool := h.still rfl c
    have hcov := backed_iff_covers.mp hb c hc
    rw [← hpool] at hcov
    exact hcov
  have hclock : UnitsGrow idx (idx.accrued now) := UnitsGrow.of_components rfl
  exact hclock.trans (UnitsGrow.of_synced hb₁ hfit)

/-- An issue without fees lowers no units. -/
theorem Issued.grow {amount fee gross : UInt64} {maxIn : List UInt64}
    {userIndexAta feeAta : Pubkey}
    (h : Issued ch m idx w w₁ w' amount maxIn userIndexAta feeAta 0 fee gross)
    (hb : Backed ch m w idx) :
    UnitsGrow idx ((idx.refreshed ch m w₁ w.clock).synced ch m w') := by
  have hmid : Backed ch m w₁ (idx.refreshed ch m w₁ w.clock) := backed_synced h.fits
  have hb' : Backed ch m w' (idx.refreshed ch m w₁ w.clock) := fun c hc =>
    (h.move hc).covers unitScale_pos (backed_iff_covers.mp hmid c hc)
  exact (h.accrual.grow hb h.fits w.clock).trans
    (UnitsGrow.of_synced hb' (.inr ((unitsFit_congr (Index.refreshed_mints _)).mpr h.fits')))

/-- A redemption without fees lowers no units. -/
theorem Redeemed.grow {amount fee net : UInt64} {user userIndexAta feeAta : Pubkey}
    {payees : List (AccountInfo × AccountInfo)}
    (h : Redeemed ch m idx w w₁ w' amount user userIndexAta feeAta payees 0 fee net)
    (hb : Backed ch m w idx) :
    UnitsGrow idx ((idx.refreshed ch m w₁ w.clock).synced ch m w') := by
  have hmid : Backed ch m w₁ (idx.refreshed ch m w₁ w.clock) := backed_synced (.inr h.fits)
  have hb' : Backed ch m w' (idx.refreshed ch m w₁ w.clock) := fun c hc =>
    (h.move hc).covers unitScale_pos (backed_iff_covers.mp hmid c hc)
  exact (h.accrual.grow hb (.inr h.fits) w.clock).trans
    (UnitsGrow.of_synced hb' (h.fits'.imp id (unitsFit_congr (Index.refreshed_mints _)).mpr))

/-! ## Calm runs -/

def FlockInstruction.isBid : FlockInstruction → Bool
  | .bid .. => true
  | _ => false

/-- The instructions that charge the streaming fee. -/
def FlockInstruction.accrues : FlockInstruction → Bool
  | .issue .. | .redeem .. | .accrueFees => true
  | _ => false

/-- An accrual would mint nothing now. -/
def NoFeeDue (ch : Chain) (m : Pubkey) (w : World) : Prop :=
  ∀ idx mi, w.index? (ch.indexKey m) = some idx → w.mint? m = some mi →
    streamingFeeTokens mi.supply idx.streamingFeeBps
      (saturatingSub w.clock idx.lastFeeAccrual) = .ok 0

/-- A step in which the index of `m` mints no streaming fee and fills no bid. -/
inductive Calm (ch : Chain) (m : Pubkey) (w w' : World) : Prop where
  | call {accounts : List AccountInfo} {ix : FlockInstruction} (signable : Signable ch accounts)
      (done : process ch w accounts ix = .ok w')
      (noBid : Concerns m accounts ix → ix.isBid = false)
      (noFee : Concerns m accounts ix → ix.accrues = true → NoFeeDue ch m w)
  | outside (h : Outside ch w w')

/-- A calm step is a step. -/
theorem Calm.step (h : Calm ch m w w') : Step ch w w' := by
  cases h with
  | call signable done noBid noFee => exact .call signable done
  | outside h => exact .outside h

/-- Where no fee is due none is owed. -/
theorem Accrual.owed_eq {feeAta : Pubkey} {owed : UInt64} (h : Accrual ch m idx w w₁ feeAta owed)
    (hidx : w.index? (ch.indexKey m) = some idx) (hfee : NoFeeDue ch m w) : owed = 0 := by
  obtain ⟨mi, hmi, hsft⟩ := h.fee
  exact (Except.ok.inj ((hfee idx mi hidx hmi).symm.trans hsft)).symm

/-- The step lemma. -/
theorem Calm.grow (h : Calm ch m w w') (hW : AllWf ch w) (hm : ch.inUse m)
    (hidx : w.index? (ch.indexKey m) = some idx) :
    ∃ idx', w'.index? (ch.indexKey m) = some idx' ∧ UnitsGrow idx idx' := by
  have hb := (hW.wf hm hidx).backed
  cases h with
  | outside h => exact ⟨idx, by rw [h.records, hidx], UnitsGrow.refl idx⟩
  | call signable hdone noBid noFee =>
    rcases hW.call_cases hm signable hdone with heff | ⟨-, hun⟩
    swap
    · exact ⟨idx, by rw [hun.record, hidx], UnitsGrow.refl idx⟩
    have hcon := heff.concerns
    cases heff with
    | initIndex key done =>
      have hk := done.fresh
      rw [World.accounts_of_index? hidx] at hk
      cases hk
    | addComponent key signed before mint done =>
      obtain rfl := Option.some.inj (hidx.symm.trans before)
      refine ⟨_, done.record, fun i c hc => ⟨c, ?_, rfl, le_refl _⟩⟩
      obtain ⟨hi, -⟩ := List.getElem?_eq_some_iff.mp hc
      rw [Index.withComponent, List.getElem?_append_left hi, hc]
    | sealIndex key signed before done =>
      obtain rfl := Option.some.inj (hidx.symm.trans before)
      rw [done.world]
      exact ⟨_, World.index?_setIndex_self _, UnitsGrow.of_components rfl⟩
    | issue key before done =>
      obtain rfl := Option.some.inj (hidx.symm.trans before)
      obtain rfl := done.accrual.owed_eq hidx (noFee hcon rfl)
      exact ⟨_, done.record, done.grow hb⟩
    | redeem key signed before done =>
      obtain rfl := Option.some.inj (hidx.symm.trans before)
      obtain rfl := done.accrual.owed_eq hidx (noFee hcon rfl)
      exact ⟨_, done.record, done.grow hb⟩
    | accrueFees key before done =>
      obtain rfl := Option.some.inj (hidx.symm.trans before)
      obtain rfl := done.accrual.owed_eq hidx (noFee hcon rfl)
      rw [done.world]
      exact ⟨_, World.index?_setIndex_self _, done.accrual.grow hb done.fits w.clock⟩
    | proposeRebalance key signed before done =>
      obtain rfl := Option.some.inj (hidx.symm.trans before)
      rw [done.world]
      exact ⟨_, World.index?_setIndex_self _, UnitsGrow.of_components
        (writeTargets_map (fun c => (c.mint, c.units)) (fun _ _ _ => rfl) _ _ _)⟩
    | bid key before done => exact absurd (noBid hcon) (by simp [FlockInstruction.isBid])
    | endRebalance key signed before done =>
      obtain rfl := Option.some.inj (hidx.symm.trans before)
      rw [done.world]
      refine ⟨_, World.index?_setIndex_self _, (UnitsGrow.of_synced hb done.fits).trans ?_⟩
      refine UnitsGrow.of_components ?_
      rw [Index.closed, List.map_map]
      rfl
    | setParams key signed before fees governor_eq world =>
      obtain rfl := Option.some.inj (hidx.symm.trans before)
      rw [world]
      exact ⟨_, World.index?_setIndex_self _, UnitsGrow.of_components rfl⟩
    | setAuthority key signed before governor_eq world =>
      obtain rfl := Option.some.inj (hidx.symm.trans before)
      rw [world]
      refine ⟨_, World.index?_setIndex_self _, UnitsGrow.of_components ?_⟩
      unfold Index.withAuthority
      split
      · rfl
      · split <;> rfl
    | setPaused key signed before hsealed brake release world =>
      obtain rfl := Option.some.inj (hidx.symm.trans before)
      rw [world]
      exact ⟨_, World.index?_setIndex_self _, UnitsGrow.of_components rfl⟩

/-- The run lemma. -/
theorem grow_of_calm_run (hrun : Relation.ReflTransGen (Calm ch m) w w') (hW : AllWf ch w)
    (hm : ch.inUse m) (hidx : w.index? (ch.indexKey m) = some idx) :
    AllWf ch w' ∧ ∃ idx', w'.index? (ch.indexKey m) = some idx' ∧ UnitsGrow idx idx' := by
  induction hrun with
  | refl => exact ⟨hW, idx, hidx, UnitsGrow.refl idx⟩
  | tail _ hstep ih =>
    obtain ⟨hW', idx', hidx', hgrow⟩ := ih
    obtain ⟨idx'', hidx'', hgrow'⟩ := hstep.grow hW' hm hidx'
    exact ⟨hstep.step.allWf hW', idx'', hidx'', hgrow.trans hgrow'⟩

/-- More units pay no less. -/
theorem unitsOut_mono {u u' x y y' : UInt64} (hu : u.toNat ≤ u'.toNat)
    (h : unitsOut u x = .ok y) (h' : unitsOut u' x = .ok y') : y.toNat ≤ y'.toNat := by
  rw [unitsOut_ok_iff.mp h, unitsOut_ok_iff.mp h']
  exact Nat.div_le_div_right (Nat.mul_le_mul_right _ hu)

/-- From any reachable world, over any run in which the index mints no streaming
fee and fills no bid, no component's stored units fall, and neither does what
any amount of index tokens would be paid. -/
theorem units_never_fall (h : Reachable ch w) {k : Pubkey} (hidx : w.index? k = some idx)
    (hrun : Relation.ReflTransGen (Calm ch idx.indexMint) w w') :
    ∃ idx', w'.index? k = some idx' ∧ ∀ (i : Nat) (c : Component), idx.components[i]? = some c →
      ∃ c', idx'.components[i]? = some c' ∧ c.units.toNat ≤ c'.units.toNat ∧
        ∀ x y y', unitsOut c.units x = .ok y → unitsOut c'.units x = .ok y' →
          y.toNat ≤ y'.toNat := by
  have hW : AllWf ch w := (reachable_wf h).1
  obtain ⟨rfl, hwf⟩ := hW hidx
  obtain ⟨-, idx', hidx', hgrow⟩ := grow_of_calm_run hrun hW hwf.custody.inUse hidx
  refine ⟨idx', hidx', fun i c hc => ?_⟩
  obtain ⟨c', hc', -, hu⟩ := hgrow i c hc
  exact ⟨c', hc', hu, fun x y y' hy hy' => unitsOut_mono hu hy hy'⟩

/-- An accrual on the local index would mint nothing. -/
def feeless (w : World) : Bool :=
  match w.index? localIndex, w.mint? (addr 1) with
  | some idx, some mi => decide (streamingFeeTokens mi.supply idx.streamingFeeBps
      (saturatingSub w.clock idx.lastFeeAccrual) = .ok 0)
  | _, _ => true

/-- A local index without a streaming fee owes none. -/
theorem noFeeDue_of_feeless {w : World} (h : feeless w = true) :
    NoFeeDue localnet (addr 1) w := by
  intro idx mi hidx hmi
  unfold feeless at h
  rw [show w.index? localIndex = some idx from hidx, hmi] at h
  exact decide_eq_true_eq.mp h

/-- An act that is calm in the world it starts from. -/
def calmAct (w : World) (act : Act) : Bool :=
  act.permitted && match act with
    | .call _ ix => ! ix.isBid && (! ix.accrues || feeless w)
    | _ => true

/-- An act that passes the test is a calm step. -/
theorem calmAct_calm {w w' : World} {act : Act} (hc : calmAct w act = true)
    (h : act.run localnet w = .ok w') : Calm localnet (addr 1) w w' := by
  unfold calmAct at hc
  rw [Bool.and_eq_true] at hc
  obtain ⟨hp, hc⟩ := hc
  cases act with
  | call accounts ix =>
    simp only [Bool.and_eq_true, Bool.not_eq_true', Bool.or_eq_true] at hc
    exact .call (Act.signable hp) h (fun _ => hc.1) fun _ ha =>
      noFeeDue_of_feeless (hc.2.resolve_left (by simp [ha]))
  | tick t => exact .outside (Act.outside hp (by simp) h)
  | transfer s d a x => exact .outside (Act.outside hp (by simp) h)
  | burn s m a x => exact .outside (Act.outside hp (by simp) h)

/-- A deposit raises the units; everybody leaves; the next issuer meets the
stale units, and the vault the leavers' dust is in. -/
def calmRun : List Act :=
  [.transfer (addr 21) (addr 1002) (addr 40) 987, localRedeem 123456789, localAccrue,
   .burn (addr 20) (addr 1) (addr 40) 5, localRedeem 4876543206, localIssue 777]

/-- A local index through a deposit, trades and a burn. -/
theorem units_never_fall_local : ∃ (w w' : World) (idx idx' : Index) (c c' : Component),
    Reachable localnet w ∧ w.index? localIndex = some idx ∧ w'.index? localIndex = some idx' ∧
    idx.components[0]? = some c ∧ idx'.components[0]? = some c' ∧
    c.units.toNat ≤ c'.units.toNat := by
  obtain ⟨w, idx, hreach, hidx, hp⟩ := exists_of_run
    (openFund ⟨100, 0, 0, 100⟩ 2000000 333333333 ++ [localIssue 5000000000])
    (fun w idx => decide (idx.indexMint = addr 1) &&
      idx.components.length == 2 && endsIn (perform calmAct w calmRun) fun _ => true)
    (by decide +kernel)
  simp only [Bool.and_eq_true, decide_eq_true_eq, beq_iff_eq] at hp
  obtain ⟨⟨hm, hlen⟩, hrun⟩ := hp
  obtain ⟨w', hw', -⟩ := endsIn_iff.mp hrun
  have hcalm : Relation.ReflTransGen (Calm localnet idx.indexMint) w w' := by
    rw [hm]
    exact perform_run calmAct_calm hw'
  obtain ⟨idx', hidx', hgrow⟩ := units_never_fall hreach hidx hcalm
  have hc := List.getElem?_eq_getElem (l := idx.components) (i := 0) (by omega)
  obtain ⟨c', hc', hu, -⟩ := hgrow 0 _ hc
  exact ⟨w, w', idx, idx', _, c', hreach, hidx, hidx', hc, hc', hu⟩

end Flock
