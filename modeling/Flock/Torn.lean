import Flock.Authority
import Flock.Lifecycle
import Flock.Standing

/-!
# A snapshot in two requests

`snapshot` asks for the record first, and for the mint and the vaults once it knows which
they are. The chain does not wait in between. So a snapshot can be torn: an old record,
and a supply and balances that are newer.

A sealed index keeps its table, and its rates move only with the governor's signature, so
of what the quotes read only the fee clock can be out of date. The pending fee then counts
time that has been paid for already, every unit comes out a little small, and the quotes
are never above those of a fresh snapshot (`torn_quotes_low`). They differ only if a fee
was collected in between.
-/

namespace Flock

open Outcome MachineInt

variable {ch : Chain} {m : Pubkey} {w w' w₀ w₁ : World} {idx idx' : Index}

namespace Sdk

/-- `snapshot`, with the first request answered from `w₀` and the second from `w₁`. -/
def snapshotAcross (ch : Chain) (w₀ w₁ : World) (indexMint : Pubkey) (asOf : Int) :
    Except SdkError IndexSnapshot := do
  let account ← match w₀.index? (ch.indexKey indexMint) with
    | some idx => decodeIndex idx
    | none => .error (.noIndex (ch.indexKey indexMint))
  let supply ← match w₁.mint? indexMint with
    | some mint => .ok (mint.supply.toNat : Int)
    | none => .error .indexMintMissing
  let balances ← account.components.mapM fun c => vaultAmount w₁ (ch.vaultKey indexMint c.mint)
  let units ← (if supply = 0 then .ok (account.components.map ComponentAccount.units)
    else balances.mapM fun balance => unitsFromBalance balance supply : Except SdkError (List Int))
  let pendingFee ← streamingFeeTokens supply account.streamingFeeBps (asOf - account.lastFeeAccrual)
  pure { indexMint, account, supply, balances, units, pendingFee, asOf }

theorem snapshotAcross_self (indexMint : Pubkey) (asOf : Int) :
    snapshotAcross ch w w indexMint asOf = snapshot ch w indexMint asOf := rfl

end Sdk

/-! ## The fee clock -/

theorem Index.synced_lastFeeAccrual (ch : Chain) (m : Pubkey) (w : World) (idx : Index) :
    (idx.synced ch m w).lastFeeAccrual = idx.lastFeeAccrual := by
  rw [Index.synced_eq]

/-- No call turns the fee clock back. -/
theorem Effect.lastFeeAccrual_le {accounts : List AccountInfo} {ix : FlockInstruction}
    (h : Effect ch m w w' accounts ix) (hidx : w.index? (ch.indexKey m) = some idx)
    (hsettled : idx.lastFeeAccrual ≤ w.clock) :
    ∃ idx', w'.index? (ch.indexKey m) = some idx' ∧ idx.lastFeeAccrual ≤ idx'.lastFeeAccrual := by
  cases h with
  | initIndex key done =>
    have hfresh := done.fresh
    rw [World.accounts_of_index? hidx] at hfresh
    cases hfresh
  | addComponent key signed before mint done =>
    obtain rfl := Option.some.inj (hidx.symm.trans before)
    exact ⟨_, done.record, Int64.le_refl _⟩
  | sealIndex key signed before done =>
    obtain rfl := Option.some.inj (hidx.symm.trans before)
    rw [done.world]
    exact ⟨_, World.index?_setIndex_self _, hsettled⟩
  | issue key before done =>
    obtain rfl := Option.some.inj (hidx.symm.trans before)
    refine ⟨_, done.record, ?_⟩
    rw [Index.synced_lastFeeAccrual, Index.refreshed, Index.synced_lastFeeAccrual]
    exact hsettled
  | redeem key signed before done =>
    obtain rfl := Option.some.inj (hidx.symm.trans before)
    refine ⟨_, done.record, ?_⟩
    rw [Index.synced_lastFeeAccrual, Index.refreshed, Index.synced_lastFeeAccrual]
    exact hsettled
  | accrueFees key before done =>
    obtain rfl := Option.some.inj (hidx.symm.trans before)
    refine ⟨_, done.record, ?_⟩
    rw [Index.synced_lastFeeAccrual]
    exact hsettled
  | proposeRebalance key signed before done =>
    obtain rfl := Option.some.inj (hidx.symm.trans before)
    rw [done.world]
    exact ⟨_, World.index?_setIndex_self _, Int64.le_refl _⟩
  | bid key before done =>
    obtain rfl := Option.some.inj (hidx.symm.trans before)
    refine ⟨_, done.record, ?_⟩
    rw [Index.synced_lastFeeAccrual]
    exact Int64.le_refl _
  | endRebalance key signed before done =>
    obtain rfl := Option.some.inj (hidx.symm.trans before)
    rw [done.world]
    refine ⟨_, World.index?_setIndex_self _, ?_⟩
    show idx.lastFeeAccrual ≤ (idx.synced ch m w).lastFeeAccrual
    rw [Index.synced_lastFeeAccrual]
    exact Int64.le_refl _
  | setParams key signed before fees governor_eq world =>
    obtain rfl := Option.some.inj (hidx.symm.trans before)
    rw [world]
    refine ⟨_, World.index?_setIndex_self _, ?_⟩
    show idx.lastFeeAccrual ≤ if idx.state ≠ stateBootstrapping then w.clock else idx.lastFeeAccrual
    by_cases hboot : idx.state ≠ stateBootstrapping
    · rw [if_pos hboot]
      exact hsettled
    · rw [if_neg hboot]
      exact Int64.le_refl _
  | setAuthority key signed before governor_eq world =>
    obtain rfl := Option.some.inj (hidx.symm.trans before)
    rw [world]
    refine ⟨_, World.index?_setIndex_self _, ?_⟩
    unfold Index.withAuthority
    split
    · exact Int64.le_refl _
    · split <;> exact Int64.le_refl _
  | setPaused key signed before hsealed brake release world =>
    obtain rfl := Option.some.inj (hidx.symm.trans before)
    rw [world]
    exact ⟨_, World.index?_setIndex_self _, Int64.le_refl _⟩

/-- What the quotes read of a sealed record, later and without the governor. -/
structure Abides (idx idx' : Index) : Prop where
  settings : idx'.settings = idx.settings
  sealed : StaysSealed idx idx'
  clock : idx.lastFeeAccrual ≤ idx'.lastFeeAccrual

theorem Abides.trans {idx'' : Index} (h : Abides idx idx') (h' : Abides idx' idx'') :
    Abides idx idx'' where
  settings := h'.settings.trans h.settings
  sealed := ⟨h'.sealed.sealed, h'.sealed.table.trans h.sealed.table⟩
  clock := Int64.le_trans h.clock h'.clock

theorem Abides.refl (hsealed : idx.state ≠ stateBootstrapping) : Abides idx idx :=
  ⟨rfl, ⟨hsealed, rfl⟩, Int64.le_refl _⟩

/-- One step in which the governor does not sign. -/
theorem StrangerStep.abides (hW : AllWf ch w) (hm : ch.inUse m)
    (hidx : w.index? (ch.indexKey m) = some idx) (hsealed : idx.state ≠ stateBootstrapping)
    (h : StrangerStep ch idx.governor idx.governor w w') :
    ∃ idx', w'.index? (ch.indexKey m) = some idx' ∧ Abides idx idx' := by
  cases h with
  | outside ho => exact ⟨idx, by rw [ho.records, hidx], .refl hsealed⟩
  | call signable done noGovernor _ =>
    rcases hW.call_cases hm signable done with heff | ⟨-, hun⟩
    · obtain ⟨idx', hidx', hchange⟩ := heff.record_change hidx
      obtain ⟨idx'', hidx'', hclock⟩ := heff.lastFeeAccrual_le hidx (hW.wf hm hidx).settled
      obtain rfl := Option.some.inj (hidx'.symm.trans hidx'')
      refine ⟨idx', hidx', ?_, hchange.staysSealed hsealed, hclock⟩
      by_contra hne
      exact noGovernor (hchange.authorityKept.settings hne)
    · exact ⟨idx, by rw [hun.record, hidx], .refl hsealed⟩

/-- The run lemma. -/
theorem abides_of_run (hW : AllWf ch w) (hm : ch.inUse m)
    (hidx : w.index? (ch.indexKey m) = some idx) (hsealed : idx.state ≠ stateBootstrapping)
    (hrun : Relation.ReflTransGen (StrangerStep ch idx.governor idx.governor) w w') :
    AllWf ch w' ∧ ∃ idx', w'.index? (ch.indexKey m) = some idx' ∧ Abides idx idx' := by
  induction hrun with
  | refl => exact ⟨hW, idx, hidx, .refl hsealed⟩
  | tail _ hstep ih =>
    obtain ⟨hW', idx', hidx', habides⟩ := ih
    refine ⟨hstep.step.allWf hW', ?_⟩
    have hgovernor : idx.governor = idx'.governor :=
      (congrArg Settings.governor habides.settings).symm
    rw [hgovernor] at hstep
    obtain ⟨idx'', hidx'', hstep⟩ := hstep.abides hW' hm hidx' habides.sealed.sealed
    exact ⟨idx'', hidx'', habides.trans hstep⟩

/-! ## The pending fee -/

namespace Sdk

/-- The fee for `num` basis point seconds. -/
def feeFor (supply num : Nat) : Nat := supply * num / (wholeYear - num)

theorem streamingFeeTokens_ok_iff {supply feeBps : Nat} {dt pending : Int} (hS : supply ≠ 0) :
    streamingFeeTokens supply feeBps dt = .ok pending ↔
      feeBps * dt.toNat < wholeYear ∧ pending = feeFor supply (feeBps * dt.toNat) := by
  constructor
  · intro h
    refine ⟨?_, streamingFeeTokens_ok hS h⟩
    by_contra hlong
    have hpos : 0 < feeBps * dt.toNat := lt_of_lt_of_le (by decide) (not_lt.mp hlong)
    obtain ⟨hfee, hdt⟩ := Nat.mul_ne_zero_iff.mp hpos.ne'
    obtain ⟨n, rfl⟩ := Int.eq_ofNat_of_zero_le (show 0 ≤ dt by omega)
    have hnum : (feeBps : Int) * n = ((feeBps * n : Nat) : Int) := (Nat.cast_mul _ _).symm
    have hden : bps * secondsPerYear = (wholeYear : Int) := by decide
    rw [Int.toNat_natCast] at hlong hdt
    rw [streamingFeeTokens, if_neg (by omega)] at h
    simp only [hnum, hden] at h
    rw [if_pos (by omega)] at h
    cases h
  · rintro ⟨hlt, rfl⟩
    rw [streamingFeeTokens]
    by_cases hz : (supply : Int) = 0 ∨ (feeBps : Int) = 0 ∨ dt ≤ 0
    · have hnum : feeBps * dt.toNat = 0 := by
        rw [Nat.mul_eq_zero]
        omega
      rw [if_pos hz, hnum, feeFor, Nat.mul_zero, Nat.zero_div]
      rfl
    · obtain ⟨n, rfl⟩ := Int.eq_ofNat_of_zero_le (show 0 ≤ dt by omega)
      have hnum : (feeBps : Int) * n = ((feeBps * n : Nat) : Int) := (Nat.cast_mul _ _).symm
      have hden : bps * secondsPerYear = (wholeYear : Int) := by decide
      rw [Int.toNat_natCast] at hlt ⊢
      have hsub : (wholeYear : Int) - ((feeBps * n : Nat) : Int)
          = ((wholeYear - feeBps * n : Nat) : Int) := (Nat.cast_sub hlt.le).symm
      simp only [if_neg hz, hnum, hden]
      rw [if_neg (by omega), hsub, mulDivFloor_nat _ _ (by omega)]
      rfl

/-! ## What a snapshot quotes -/

/-- A snapshot of a fund with a supply, in numbers. -/
structure Reads (snap : IndexSnapshot) (supply pendingFee : Nat) (balances : List Nat)
    (issueFeeBps redeemFeeBps : Nat) : Prop where
  supply : snap.supply = supply
  pendingFee : snap.pendingFee = pendingFee
  balances : snap.balances = balances.map Nat.cast
  issueFee : snap.account.issueFeeBps = issueFeeBps
  redeemFee : snap.account.redeemFeeBps = redeemFeeBps

/-- Units per index token once the pending fee is out. -/
def unitsAfter (supply pendingFee balance : Nat) : Nat :=
  balance * Flock.unitScale / (supply + pendingFee)

variable {snap : IndexSnapshot} {supply pendingFee issueFeeBps redeemFeeBps : Nat}
  {balances : List Nat}

theorem Reads.unitsAt (h : Reads snap supply pendingFee balances issueFeeBps redeemFeeBps)
    (hS : supply ≠ 0) : Sdk.unitsAt snap (snap.supply + snap.pendingFee)
      = .ok (balances.map fun b => (unitsAfter supply pendingFee b : Int)) := by
  have hsum : snap.supply + snap.pendingFee = ((supply + pendingFee : Nat) : Int) := by
    rw [h.supply, h.pendingFee]
    exact (Nat.cast_add _ _).symm
  rw [Sdk.unitsAt, hsum, if_neg (by omega), h.balances]
  exact mapM_map_ok fun b _ => unitsFromBalance_nat b (by omega)

theorem Reads.quoteIssue (h : Reads snap supply pendingFee balances issueFeeBps redeemFeeBps)
    (hS : supply ≠ 0) (amount : Nat) : Sdk.quoteIssue snap amount = .ok
      { required := balances.map fun b => ((unitsAfter supply pendingFee b *
          (amount + (amount * issueFeeBps) ⌈/⌉ Flock.bps)) ⌈/⌉ Flock.unitScale : Nat)
        feeTokens := ((amount * issueFeeBps) ⌈/⌉ Flock.bps : Nat) } := by
  have hceil : mulDivCeil amount snap.account.issueFeeBps bps
      = .ok (((amount * issueFeeBps) ⌈/⌉ Flock.bps : Nat) : Int) := by
    rw [h.issueFee]
    exact mulDivCeil_nat _ _ (by decide)
  have hrequired : (balances.map fun b => (unitsAfter supply pendingFee b : Int)).mapM
      (fun u => unitsIn u ((amount + (amount * issueFeeBps) ⌈/⌉ Flock.bps : Nat) : Int))
        = .ok (balances.map fun b => ((unitsAfter supply pendingFee b *
          (amount + (amount * issueFeeBps) ⌈/⌉ Flock.bps)) ⌈/⌉ Flock.unitScale : Nat)) :=
    mapM_map_ok fun b _ => mulDivCeil_nat _ _ (by decide)
  rw [Sdk.quoteIssue, h.unitsAt hS, ok_bind, hceil, ok_bind]
  dsimp only
  rw [← Nat.cast_add, hrequired]
  rfl

theorem Reads.quoteRedeem (h : Reads snap supply pendingFee balances issueFeeBps redeemFeeBps)
    (hS : supply ≠ 0) (hcap : redeemFeeBps ≤ 100) (amount : Nat) : Sdk.quoteRedeem snap amount = .ok
      { payout := balances.map fun b => (unitsAfter supply pendingFee b *
          (amount - (amount * redeemFeeBps) ⌈/⌉ Flock.bps) / Flock.unitScale : Nat)
        feeTokens := ((amount * redeemFeeBps) ⌈/⌉ Flock.bps : Nat) } := by
  have hceil : mulDivCeil amount snap.account.redeemFeeBps bps
      = .ok (((amount * redeemFeeBps) ⌈/⌉ Flock.bps : Nat) : Int) := by
    rw [h.redeemFee]
    exact mulDivCeil_nat _ _ (by decide)
  have hfee : (amount * redeemFeeBps) ⌈/⌉ Flock.bps ≤ amount := by
    apply (ceilDiv_le_iff_le_mul (by decide)).mpr
    rw [Nat.mul_comm]
    exact Nat.mul_le_mul_right amount (hcap.trans (by decide))
  have hpayout : (balances.map fun b => (unitsAfter supply pendingFee b : Int)).mapM
      (fun u => unitsOut u ((amount - (amount * redeemFeeBps) ⌈/⌉ Flock.bps : Nat) : Int))
        = .ok (balances.map fun b => (unitsAfter supply pendingFee b *
          (amount - (amount * redeemFeeBps) ⌈/⌉ Flock.bps) / Flock.unitScale : Nat)) :=
    mapM_map_ok fun b _ => mulDivFloor_nat _ _ (by decide)
  rw [Sdk.quoteRedeem, h.unitsAt hS, ok_bind, hceil, ok_bind]
  dsimp only
  rw [← Nat.cast_sub hfee, hpayout]
  rfl

/-- With more time unpaid there are fewer units to an index token. -/
theorem unitsAfter_le {pendingFee' : Nat} (hS : supply ≠ 0) (h : pendingFee' ≤ pendingFee)
    (balance : Nat) : unitsAfter supply pendingFee balance ≤ unitsAfter supply pendingFee' balance :=
  Nat.div_le_div_left (by omega) (by omega)

end Sdk

/-- Two keys that do not sign are one that does not. -/
theorem StrangerStep.ungoverned {governor manager : Pubkey}
    (h : StrangerStep ch governor manager w w') : StrangerStep ch governor governor w w' := by
  cases h with
  | call signable done noGovernor noManager => exact .call signable done noGovernor noGovernor
  | outside ho => exact .outside ho

/-! ## The two readings -/

section Readings

variable {asOf : Int} {torn : Sdk.IndexSnapshot}

/-- The vaults a record lists are open. -/
theorem Abides.vaultAmounts (h : Abides idx idx') (hwf : Wf ch m w₁ idx')
    (st : Sdk.IndexStateName) :
    (Sdk.accountOf idx st).components.mapM (fun c => Sdk.vaultAmount w₁ (ch.vaultKey m c.mint))
      = .ok (idx'.components.map fun c => (w₁.vault ch m c : Int)) := by
  have hmints : idx'.components.map Component.mint = idx.components.map Component.mint := by
    have htable := congrArg (List.map Prod.fst) h.sealed.table
    rw [Index.table, Index.table, List.map_map, List.map_map] at htable
    exact htable
  have hread : ∀ i : Index, (Sdk.accountOf i st).components.mapM
        (fun c => Sdk.vaultAmount w₁ (ch.vaultKey m c.mint))
      = (i.components.map Component.mint).mapM fun M => Sdk.vaultAmount w₁ (ch.vaultKey m M) := by
    intro i
    show ((i.components.map Sdk.decodeComponent).mapM _ : Except Sdk.SdkError _) = _
    rw [List.mapM_map, List.mapM_map]
    rfl
  rw [hread idx, ← hmints, ← hread idx']
  exact hwf.vaultAmounts st

variable (asOf) in
/-- A snapshot across two worlds, once the second has a supply: it exists if the fee clock
of the first record is recent enough, and these are its numbers. -/
theorem snapshotAcross_reads (hwf₀ : Wf ch m w₀ idx) (hidx : w₀.index? (ch.indexKey m) = some idx)
    (hwf₁ : Wf ch m w₁ idx') (h : Abides idx idx') {mi : Mint} (hmi : w₁.mint? m = some mi)
    (hS : mi.supply.toNat ≠ 0) :
    (Outcome.Succeeds (Sdk.snapshotAcross ch w₀ w₁ m asOf) ↔
      idx.streamingFeeBps.toNat * (asOf - idx.lastFeeAccrual.toInt).toNat < wholeYear) ∧
    ∀ snap, Sdk.snapshotAcross ch w₀ w₁ m asOf = .ok snap →
      snap.units = (idx'.components.map fun c => w₁.vault ch m c).map
        (fun b => ((b * unitScale / mi.supply.toNat : Nat) : Int)) ∧
      Sdk.Reads snap mi.supply.toNat
        (Sdk.feeFor mi.supply.toNat
          (idx.streamingFeeBps.toNat * (asOf - idx.lastFeeAccrual.toInt).toNat))
        (idx'.components.map fun c => w₁.vault ch m c) idx.issueFeeBps.toNat
        idx.redeemFeeBps.toNat := by
  obtain ⟨st, hdecode⟩ := hwf₀.decodeIndex
  have hunits : (idx'.components.map fun c => (w₁.vault ch m c : Int)).mapM
        (fun balance => Sdk.unitsFromBalance balance (mi.supply.toNat : Int))
      = .ok ((idx'.components.map fun c => w₁.vault ch m c).map
          fun b => ((b * unitScale / mi.supply.toNat : Nat) : Int)) := by
    rw [List.map_map]
    exact mapM_map_ok fun c _ => Sdk.unitsFromBalance_nat _ hS
  have hrun : Sdk.snapshotAcross ch w₀ w₁ m asOf
      = (Sdk.streamingFeeTokens mi.supply.toNat idx.streamingFeeBps.toNat
          (asOf - idx.lastFeeAccrual.toInt) >>= fun pendingFee => pure
            { indexMint := m
              account := Sdk.accountOf idx st
              supply := mi.supply.toNat
              balances := idx'.components.map fun c => (w₁.vault ch m c : Int)
              units := (idx'.components.map fun c => w₁.vault ch m c).map
                fun b => ((b * unitScale / mi.supply.toNat : Nat) : Int)
              pendingFee
              asOf }) := by
    rw [Sdk.snapshotAcross, hidx, hmi]
    dsimp only
    rw [hdecode, ok_bind, ok_bind, h.vaultAmounts hwf₁ st, ok_bind, if_neg (by omega), hunits,
      ok_bind]
    rfl
  rw [hrun]
  constructor
  · constructor
    · rintro ⟨snap, hsnap⟩
      obtain ⟨pending, hpending, -⟩ := bind_ok_iff.mp hsnap
      exact ((Sdk.streamingFeeTokens_ok_iff hS).mp hpending).1
    · intro hshort
      exact ⟨_, bind_ok_iff.mpr ⟨_, (Sdk.streamingFeeTokens_ok_iff hS).mpr ⟨hshort, rfl⟩, rfl⟩⟩
  · intro snap hsnap
    obtain ⟨pending, hpending, hsnap⟩ := bind_ok_iff.mp hsnap
    obtain rfl := Except.ok.inj hsnap
    refine ⟨rfl, rfl, ((Sdk.streamingFeeTokens_ok_iff hS).mp hpending).2,
      List.map_map.symm, rfl, rfl⟩

/-- A snapshot torn by whatever the governor has no part in. The fresh one exists too, has
the same supply, balances and units, and a pending fee that is no more. No quote from the
torn snapshot is above the one from the fresh snapshot, and they are the same as long as the
fee clock was not moved in between. -/
theorem torn_quotes_low (h : Reachable ch w₀) {k : Pubkey} (hidx : w₀.index? k = some idx)
    (hsealed : idx.state ≠ stateBootstrapping)
    (hrun : Relation.ReflTransGen (StrangerStep ch idx.governor idx.governor) w₀ w₁)
    (hS : w₁.supply idx.indexMint ≠ 0)
    (htorn : Sdk.snapshotAcross ch w₀ w₁ idx.indexMint asOf = .ok torn) :
    ∃ fresh, Sdk.snapshot ch w₁ idx.indexMint asOf = .ok fresh ∧
      fresh.supply = torn.supply ∧ fresh.balances = torn.balances ∧ fresh.units = torn.units ∧
      fresh.pendingFee ≤ torn.pendingFee ∧
      (∀ amount : Nat, ∃ issue issue' redeem redeem',
        Sdk.quoteIssue torn amount = .ok issue ∧ Sdk.quoteIssue fresh amount = .ok issue' ∧
        Sdk.quoteRedeem torn amount = .ok redeem ∧ Sdk.quoteRedeem fresh amount = .ok redeem' ∧
        issue.feeTokens = issue'.feeTokens ∧ redeem.feeTokens = redeem'.feeTokens ∧
        List.Forall₂ (· ≤ ·) issue.required issue'.required ∧
        List.Forall₂ (· ≤ ·) redeem.payout redeem'.payout) ∧
      ∀ idx', w₁.index? k = some idx' → idx'.lastFeeAccrual = idx.lastFeeAccrual →
        ∀ amount : Nat, Sdk.quoteIssue torn amount = Sdk.quoteIssue fresh amount ∧
          Sdk.quoteRedeem torn amount = Sdk.quoteRedeem fresh amount := by
  have hW : AllWf ch w₀ := (reachable_wf h).1
  obtain ⟨rfl, hwf₀⟩ := hW hidx
  have hm := hwf₀.custody.inUse
  obtain ⟨hW₁, idx', hidx', habides⟩ := abides_of_run hW hm hidx hsealed hrun
  have hwf₁ := hW₁.wf hm hidx'
  obtain ⟨mi, hmi⟩ : ∃ mi, w₁.mint? idx.indexMint = some mi := by
    rcases hmint : w₁.mint? idx.indexMint with _ | mi
    · rw [World.supply, hmint] at hS
      exact absurd rfl hS
    · exact ⟨mi, rfl⟩
  rw [World.supply_of_mint? hmi] at hS
  obtain ⟨hexists, hreads⟩ :=
    snapshotAcross_reads asOf hwf₀ hidx hwf₁ habides hmi hS
  obtain ⟨hexists', hreads'⟩ := snapshotAcross_reads asOf hwf₁ hidx' hwf₁
    (.refl habides.sealed.sealed) hmi hS
  have hrate : idx'.streamingFeeBps = idx.streamingFeeBps :=
    congrArg Settings.streamingFeeBps habides.settings
  have hissue : idx'.issueFeeBps = idx.issueFeeBps :=
    congrArg Settings.issueFeeBps habides.settings
  have hredeem : idx'.redeemFeeBps = idx.redeemFeeBps :=
    congrArg Settings.redeemFeeBps habides.settings
  rw [hrate] at hexists' hreads'
  rw [hissue, hredeem] at hreads'
  -- the later clock leaves less time to pay for
  have hclock := Int64.le_iff_toInt_le.mp habides.clock
  have hnum : idx.streamingFeeBps.toNat * (asOf - idx'.lastFeeAccrual.toInt).toNat
      ≤ idx.streamingFeeBps.toNat * (asOf - idx.lastFeeAccrual.toInt).toNat :=
    Nat.mul_le_mul_left _ (by omega)
  have hshort := hexists.mp ⟨torn, htorn⟩
  obtain ⟨fresh, hfresh⟩ := hexists'.mpr (lt_of_le_of_lt hnum hshort)
  obtain ⟨hunits, htorn⟩ := hreads torn htorn
  obtain ⟨hunits', hread⟩ := hreads' fresh hfresh
  have hpending := streamingFee_le mi.supply.toNat hnum hshort
  refine ⟨fresh, hfresh, hread.supply.trans htorn.supply.symm,
    hread.balances.trans htorn.balances.symm, hunits'.trans hunits.symm, ?_, ?_, ?_⟩
  · rw [hread.pendingFee, htorn.pendingFee]
    exact_mod_cast hpending
  · intro amount
    have hcap : idx.redeemFeeBps.toNat ≤ 100 := hwf₀.fees.redeem
    refine ⟨_, _, _, _, htorn.quoteIssue hS amount, hread.quoteIssue hS amount,
      htorn.quoteRedeem hS hcap amount, hread.quoteRedeem hS hcap amount, rfl, rfl, ?_, ?_⟩
    · refine List.forall₂_map_left_iff.mpr (List.forall₂_map_right_iff.mpr ?_)
      refine List.forall₂_same.mpr fun b _ => ?_
      have hle := Sdk.unitsAfter_le hS hpending b
      exact_mod_cast Rounding.ceilDiv_le_ceilDiv unitScale_pos (Nat.mul_le_mul_right _ hle)
    · refine List.forall₂_map_left_iff.mpr (List.forall₂_map_right_iff.mpr ?_)
      refine List.forall₂_same.mpr fun b _ => ?_
      have hle := Sdk.unitsAfter_le hS hpending b
      exact_mod_cast Nat.div_le_div_right (Nat.mul_le_mul_right _ hle)
  · intro idx'' hidx'' hsame amount
    obtain rfl := Option.some.inj (hidx'.symm.trans hidx'')
    have hcap : idx.redeemFeeBps.toNat ≤ 100 := hwf₀.fees.redeem
    rw [hsame] at hread
    constructor
    · exact (htorn.quoteIssue hS amount).trans (hread.quoteIssue hS amount).symm
    · exact (htorn.quoteRedeem hS hcap amount).trans (hread.quoteRedeem hS hcap amount).symm

end Readings

/-- Between the two requests half a year is collected. -/
theorem torn_quotes_low_local : ∃ (w₀ w₁ : World) (torn fresh : Sdk.IndexSnapshot),
    Sdk.snapshotAcross localnet w₀ w₁ (addr 1) 15768000 = .ok torn ∧
    Sdk.snapshot localnet w₁ (addr 1) 15768000 = .ok fresh ∧ fresh.pendingFee = 0 ∧
    torn.pendingFee = 25251887 ∧
    ∃ issue issue', Sdk.quoteIssue torn 1000000000 = .ok issue ∧
      Sdk.quoteIssue fresh 1000000000 = .ok issue' ∧
      List.Forall₂ (· ≤ ·) issue.required issue'.required := by
  obtain ⟨w₀, idx, hreach, hidx, hp⟩ := exists_of_run
    (openFund ⟨100, 0, 0, 100⟩ 2000000 333333333 ++ [localIssue 5000000000])
    (fun w idx => decide (idx.governor = addr 60 ∧ idx.indexMint = addr 1 ∧
        idx.state ≠ stateBootstrapping) &&
      endsIn (perform strangerAct w [.tick 15768000, localAccrue]) fun w₁ =>
        decide (w₁.supply (addr 1) ≠ 0) &&
        okAnd (Sdk.snapshotAcross localnet w w₁ (addr 1) 15768000) fun torn =>
          okAnd (Sdk.snapshot localnet w₁ (addr 1) 15768000) fun fresh =>
            decide (torn.pendingFee = 25251887 ∧ fresh.pendingFee = 0)) (by decide +kernel)
  simp only [Bool.and_eq_true, decide_eq_true_eq, endsIn_iff, okAnd_iff] at hp
  obtain ⟨⟨hgovernor, hmint, hsealed⟩, w₁, hw₁, hS, torn, htorn, fresh, hfresh, hpending⟩ := hp
  have hrun : Relation.ReflTransGen (StrangerStep localnet idx.governor idx.governor) w₀ w₁ := by
    rw [hgovernor]
    exact Relation.ReflTransGen.mono (fun _ _ => StrangerStep.ungoverned) _ _
      (perform_run strangerAct_stranger hw₁)
  rw [← hmint] at hS htorn hfresh
  obtain ⟨fresh', hfresh', -, -, -, -, hquotes, -⟩ :=
    torn_quotes_low hreach hidx hsealed hrun hS htorn
  obtain rfl := Except.ok.inj (hfresh.symm.trans hfresh')
  obtain ⟨issue, issue', -, -, hissue, hissue', -, -, -, -, hle, -⟩ := hquotes 1000000000
  rw [hmint] at htorn hfresh
  exact ⟨w₀, w₁, torn, fresh, htorn, hfresh, hpending.2, hpending.1, issue, issue', hissue,
    hissue', hle⟩

end Flock
