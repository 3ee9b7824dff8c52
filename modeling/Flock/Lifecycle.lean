import Flock.Localnet
import Flock.Record

/-!
# The life of an index

Handlers compute with facts about the record they do not check again: a premium
ceiling that survives a cast to `i16`, prices a bid divides by, a window that is
not empty. `AuctionInOrder` collects what a proposal establishes and nothing
else may break, and `Index.WellFormed` is the whole of what holds of a record in
every reachable world. `Index.table` is the part of a record the seal fixes for
good.
-/

namespace Flock

open Outcome MachineInt

variable {ch : Chain} {m : Pubkey} {w w' : World} {idx idx' : Index}

/-! ## Auctions in order -/

/-- What holds of a record while an auction is on. -/
structure AuctionInOrder (idx : Index) : Prop where
  sealed : idx.state ≠ stateBootstrapping
  prices : ∀ c ∈ idx.components, c.refPriceE9.toNat ≠ 0
  opens : idx.rebalance.startTs < idx.rebalance.endTs
  short : idx.rebalance.endTs.toInt ≤ idx.rebalance.startTs.toInt + 604800
  lowest : -1000 ≤ idx.rebalance.startPremiumBps.toInt
  rising : idx.rebalance.startPremiumBps.toInt ≤ idx.rebalance.endPremiumBps.toInt
  highest : idx.rebalance.endPremiumBps.toInt ≤ 1000
  loss : idx.rebalance.maxNavLossBps.toNat ≤ 1000

/-- `max_premium_bps as i16` keeps a ceiling `check_fees` let through. -/
theorem toInt_toInt16 {x : UInt16} (h : x.toNat ≤ 1000) : x.toInt16.toInt = x.toNat := by
  have hb : x.toBitVec.toNat = x.toNat := rfl
  show x.toBitVec.toInt = x.toNat
  rw [BitVec.toInt_eq_toNat_of_lt (by omega), hb]

theorem toInt_neg_toInt16 {x : UInt16} (h : x.toNat ≤ 1000) : (-x.toInt16).toInt = -x.toNat := by
  rw [Int16.toInt_neg, toInt_toInt16 h]
  exact Int.bmod_eq_of_le (by omega) (by omega)

/-- A proposal writes the targets and the prices it was given, in table order. -/
theorem writeTargets_written {cs : List Component} {targets prices : List UInt64}
    (ht : targets.length = cs.length) (hp : prices.length = cs.length) :
    (writeTargets cs targets prices).map Component.targetUnits = targets ∧
      (writeTargets cs targets prices).map Component.refPriceE9 = prices := by
  fun_induction writeTargets cs targets prices with
  | case1 c cs target targets price prices ih =>
    simp only [List.length_cons, Nat.add_right_cancel_iff] at ht hp
    obtain ⟨htargets, hprices⟩ := ih ht hp
    exact ⟨congrArg _ htargets, congrArg _ hprices⟩
  | case2 cs targets prices hne =>
    cases cs with
    | nil =>
      rw [List.length_eq_zero_iff.mp ht, List.length_eq_zero_iff.mp hp]
      exact ⟨rfl, rfl⟩
    | cons c cs =>
      obtain ⟨t, ts, rfl⟩ := List.exists_cons_of_length_eq_add_one ht
      obtain ⟨p, ps, rfl⟩ := List.exists_cons_of_length_eq_add_one hp
      exact (hne _ _ _ _ _ _ rfl rfl rfl).elim

section Proposed

variable {targets prices : List UInt64} {p : AuctionParams} {manager : Pubkey}
  {nav navFloor : UInt64} {startTs endTs : Int64}

/-- The window of a proposal lies ahead by the delay and is a week long at most. -/
theorem Proposed.window
    (h : Proposed ch m idx w w' targets prices p manager nav navFloor startTs endTs) :
    startTs.toInt = w.clock.toInt + idx.rebalanceDelay.toNat ∧
      endTs.toInt = startTs.toInt + p.duration.toNat ∧ 0 < p.duration.toNat ∧
      p.duration.toNat ≤ 604800 := by
  obtain ⟨hne, hle⟩ := h.duration
  have hlong : p.duration.toNat ≤ 604800 := UInt32.le_iff_toNat_le.mp (UInt32.not_lt.mp hle)
  have hpos : p.duration.toNat ≠ 0 := by
    rw [← UInt32.toNat_zero]
    exact fun e => hne (UInt32.toNat_inj.mp e)
  have hdelay := idx.rebalanceDelay.toNat_lt
  have hstart := h.startTs_eq
  have hend := h.endTs_eq
  rw [Int64.toInt_ofNat_of_lt (by omega)] at hstart hend
  exact ⟨hstart, hend, by omega, hlong⟩

theorem Proposed.inOrder
    (h : Proposed ch m idx w w' targets prices p manager nav navFloor startTs endTs)
    (hf : idx.maxPremiumBps.toNat ≤ 1000) :
    AuctionInOrder { idx with
      components := writeTargets idx.components targets prices
      rebalance :=
        { active := 1
          proposedAt := w.clock
          startTs := startTs
          endTs := endTs
          startPremiumBps := p.startPremiumBps
          endPremiumBps := p.endPremiumBps
          maxNavLossBps := p.maxNavLossBps
          navFloorE6 := navFloor
          proposer := manager } } := by
  obtain ⟨-, hend, hpos, hlong⟩ := h.window
  obtain ⟨hrising, hhigh, hlow, hloss⟩ := h.band
  rw [gt_iff_lt, Int16.not_lt, Int16.le_iff_toInt_le] at hrising hhigh
  rw [Int16.not_lt, Int16.le_iff_toInt_le, toInt_neg_toInt16 hf] at hlow
  rw [toInt_toInt16 hf] at hhigh
  rw [gt_iff_lt, UInt16.not_lt, UInt16.le_iff_toNat_le] at hloss
  constructor
  case sealed =>
    rw [h.live]
    decide
  case prices =>
    intro c hc h0
    have hin : c.refPriceE9 ∈ prices := by
      rw [← (writeTargets_written h.targets_length h.prices_length).2]
      exact List.mem_map_of_mem hc
    exact h.prices_pos _ hin (UInt64.toNat_inj.mp (h0.trans UInt64.toNat_zero.symm))
  case opens =>
    rw [Int64.lt_iff_toInt_lt]
    show startTs.toInt < endTs.toInt
    omega
  case short =>
    show endTs.toInt ≤ startTs.toInt + 604800
    omega
  case lowest =>
    show -1000 ≤ p.startPremiumBps.toInt
    omega
  case rising => exact hrising
  case highest =>
    show p.endPremiumBps.toInt ≤ 1000
    omega
  case loss => exact hloss.trans hf

end Proposed

/-- A record that agrees on the seal, the prices and the auction. -/
theorem AuctionInOrder.of_same (h : AuctionInOrder idx) (hst : idx'.state ≠ stateBootstrapping)
    (hp : idx'.components.map Component.refPriceE9 = idx.components.map Component.refPriceE9)
    (hr : idx'.rebalance = idx.rebalance) : AuctionInOrder idx' := by
  obtain ⟨-, hprices, hopens, hshort, hlowest, hrising, hhighest, hloss⟩ := h
  refine ⟨hst, ?_, hr ▸ hopens, hr ▸ hshort, hr ▸ hlowest, hr ▸ hrising, hr ▸ hhighest, hr ▸ hloss⟩
  intro c hc
  have hin : c.refPriceE9 ∈ idx.components.map Component.refPriceE9 :=
    hp ▸ List.mem_map_of_mem hc
  obtain ⟨c₀, hc₀, he⟩ := List.mem_map.mp hin
  rw [← he]
  exact hprices c₀ hc₀

/-- While an auction is on, it is in order. -/
def Orderly (idx : Index) : Prop := idx.rebalance.active ≠ 0 → AuctionInOrder idx

theorem Orderly.of_same (h : Orderly idx)
    (hst : idx.state ≠ stateBootstrapping → idx'.state ≠ stateBootstrapping)
    (hp : idx'.components.map Component.refPriceE9 = idx.components.map Component.refPriceE9)
    (hr : idx'.rebalance = idx.rebalance) : Orderly idx' := by
  intro hact
  have hin := h (hr ▸ hact)
  exact hin.of_same (hst hin.sealed) hp hr

/-- The step lemma, one case for each way a record changes. -/
theorem RecordChange.orderly {accounts : List AccountInfo} {ix : FlockInstruction}
    (h : RecordChange ch m w w' accounts idx ix idx') (hf : idx.maxPremiumBps.toNat ≤ 1000)
    (ho : Orderly idx) : Orderly idx' := by
  cases h with
  | market market sealed refreshes =>
    have hrec := refreshes.record
    refine ho.of_same (fun _ => ?_) (map_eq_of_shape _ (fun _ => rfl) refreshes.shape) ?_
    · rw [hrec]
      exact sealed
    · rw [hrec]
  | added signed done => exact fun hact => absurd done.bootstrapping (ho hact).sealed
  | sealed signed done => exact fun hact => absurd done.bootstrapping (ho hact).sealed
  | proposed signed done => exact fun _ => done.inOrder hf
  | ended signed done => exact fun hact => absurd rfl hact
  | params signed fees => exact ho.of_same id rfl rfl
  | authority signed =>
    obtain ⟨hst, hreb⟩ := idx.withAuthority_state _ _
    refine ho.of_same (fun hs => ?_) (by rw [Index.withAuthority_components]) hreb
    rw [hst]
    exact hs
  | paused sealed brake release =>
    refine ho.of_same (fun _ => ?_) rfl rfl
    dsimp only
    split <;> decide

/-- The run lemma. -/
theorem reachable_orderly (h : Reachable ch w) (hm : ch.inUse m)
    (hidx : w.index? (ch.indexKey m) = some idx) : Orderly idx := by
  obtain ⟨w₀, hg, hrun⟩ := h
  induction hrun generalizing idx with
  | refl =>
    rw [hg.fresh] at hidx
    cases hidx
  | @tail b c hrun hstep ih =>
    have hW : AllWf ch b := (reachable_wf ⟨w₀, hg, hrun⟩).1
    cases hstep with
    | outside ho =>
      rw [ho.records] at hidx
      exact ih hidx
    | call signable done =>
      rcases hW.record_origin hm signable done hidx with
        ⟨idx₀, hidx₀, ⟨-, rfl⟩ | ⟨-, hchange⟩⟩ | ⟨_, _, _, _, _, rfl⟩
      · exact ih hidx₀
      · exact hchange.orderly (hW.wf hm hidx₀).fees.premium (ih hidx₀)
      · -- a new record has no auction
        exact fun hact => absurd rfl hact

/-! ## The seal -/

/-- What the seal fixes. -/
def Index.table (idx : Index) : List (Pubkey × UInt8 × UInt8) :=
  idx.components.map fun c => (c.mint, c.decimals, c.vaultBump)

/-- Sealed before and after, with one table. -/
structure StaysSealed (idx idx' : Index) : Prop where
  sealed : idx'.state ≠ stateBootstrapping
  table : idx'.table = idx.table

theorem RecordChange.staysSealed {accounts : List AccountInfo} {ix : FlockInstruction}
    (h : RecordChange ch m w w' accounts idx ix idx') (hs : idx.state ≠ stateBootstrapping) :
    StaysSealed idx idx' := by
  cases h with
  | market market sealed refreshes =>
    refine ⟨?_, map_eq_of_shape _ (fun _ => rfl) refreshes.shape⟩
    rw [refreshes.record]
    exact hs
  | added signed done => exact absurd done.bootstrapping hs
  | sealed signed done => exact absurd done.bootstrapping hs
  | proposed signed done =>
    exact ⟨hs, writeTargets_map (fun c => (c.mint, c.decimals, c.vaultBump)) (fun _ _ _ => rfl) _ _ _⟩
  | ended signed done =>
    have hsync := Index.synced_eq ch m w idx
    refine ⟨?_, ?_⟩
    · rw [Index.closed, hsync]
      exact hs
    · rw [Index.table, Index.closed, List.map_map]
      exact Index.synced_map ch m w idx (fun c => (c.mint, c.decimals, c.vaultBump)) fun _ _ => rfl
  | params signed fees => exact ⟨hs, rfl⟩
  | authority signed =>
    refine ⟨?_, by rw [Index.table, Index.withAuthority_components, Index.table]⟩
    rw [(Index.withAuthority_state _ _ _).1]
    exact hs
  | paused sealed brake release =>
    refine ⟨?_, rfl⟩
    dsimp only
    split <;> decide

/-- The run lemma: a sealed index stays sealed, and its table stays. -/
theorem staysSealed_of_run (hrun : Relation.ReflTransGen (Step ch) w w') (hW : AllWf ch w)
    (hm : ch.inUse m) (hidx : w.index? (ch.indexKey m) = some idx)
    (hs : idx.state ≠ stateBootstrapping) :
    AllWf ch w' ∧ ∃ idx', w'.index? (ch.indexKey m) = some idx' ∧ StaysSealed idx idx' := by
  induction hrun with
  | refl => exact ⟨hW, idx, hidx, hs, rfl⟩
  | tail _ hstep ih =>
    obtain ⟨hW', idx', hidx', hsealed, htable⟩ := ih
    refine ⟨hstep.allWf hW', ?_⟩
    cases hstep with
    | outside ho => exact ⟨idx', by rw [ho.records, hidx'], hsealed, htable⟩
    | call signable done =>
      rcases hW'.record_cases hm hidx' signable done with ⟨-, hsame⟩ | ⟨-, idx'', hidx'', hchange⟩
      · exact ⟨idx', hsame, hsealed, htable⟩
      · obtain ⟨hsealed', htable'⟩ := hchange.staysSealed hsealed
        exact ⟨idx'', hidx'', hsealed', htable'.trans htable⟩

/-! ## The result -/

/-- What holds of the record of `m` in every reachable world. -/
structure Index.WellFormed (m : Pubkey) (w : World) (idx : Index) : Prop where
  streaming : idx.streamingFeeBps.toNat ≤ 500
  issueFee : idx.issueFeeBps.toNat ≤ 100
  redeemFee : idx.redeemFeeBps.toNat ≤ 100
  premium : idx.maxPremiumBps.toNat ≤ 1000
  delay : 300 ≤ idx.rebalanceDelay.toNat
  state : idx.state = stateBootstrapping ∨ idx.state = stateLive ∨ idx.state = statePaused
  room : idx.components.length ≤ 16
  distinct : (idx.components.map Component.mint).Nodup
  nonempty : idx.state ≠ stateBootstrapping → 1 ≤ idx.components.length
  issued : 0 < w.supply m → idx.state ≠ stateBootstrapping
  auction : idx.rebalance.active ≠ 0 → AuctionInOrder idx

/-- In every reachable world every record is well-formed; and whatever happens
after it was sealed, an index stays sealed, with the components it was sealed
with. -/
theorem reachable_wellFormed (h : Reachable ch w) {k : Pubkey} (hidx : w.index? k = some idx) :
    idx.WellFormed idx.indexMint w ∧
      (idx.state ≠ stateBootstrapping → ∀ w', Relation.ReflTransGen (Step ch) w w' →
        ∃ idx', w'.index? k = some idx' ∧ idx'.state ≠ stateBootstrapping ∧
          idx'.components.length = idx.components.length ∧ idx'.table = idx.table) := by
  have hW : AllWf ch w := (reachable_wf h).1
  obtain ⟨rfl, hwf⟩ := hW hidx
  refine ⟨?_, fun hs w' hrun => ?_⟩
  · exact
      { streaming := hwf.fees.streaming
        issueFee := hwf.fees.issue
        redeemFee := hwf.fees.redeem
        premium := hwf.fees.premium
        delay := hwf.fees.delay
        state := hwf.state
        room := hwf.room
        distinct := hwf.custody.nodup
        nonempty := fun hs => List.length_pos_iff.mpr (hwf.nonempty hs)
        issued := fun hS hb => hS.ne' (hwf.unissued hb)
        auction := reachable_orderly h hwf.custody.inUse hidx }
  · obtain ⟨-, idx', hidx', hsealed, htable⟩ := staysSealed_of_run hrun hW hwf.custody.inUse hidx hs
    have hlen := congrArg List.length htable
    rw [Index.table, Index.table, List.length_map, List.length_map] at hlen
    exact ⟨idx', hidx', hsealed, hlen, htable⟩

/-- An auction is on in the local fund, and a bid and a redemption follow. -/
theorem reachable_wellFormed_local : ∃ (w w' : World) (idx : Index), Reachable localnet w ∧
    w.index? localIndex = some idx ∧ idx.rebalance.active ≠ 0 ∧
    idx.WellFormed idx.indexMint w ∧
    ∃ idx', w'.index? localIndex = some idx' ∧ idx'.state ≠ stateBootstrapping ∧
      idx'.components.length = idx.components.length ∧ idx'.table = idx.table := by
  obtain ⟨w, idx, hreach, hidx, hp⟩ := exists_of_run
    (openFund ⟨0, 0, 0, 100⟩ 2000000 333333333 ++ [localIssue 5000000000,
      localPropose 2050000 330000000 1000000000 30000000000 0 0, .tick 300])
    (fun w idx => decide (idx.rebalance.active ≠ 0) && decide (idx.state ≠ stateBootstrapping) &&
      endsIn (perform (fun _ act => act.permitted) w
        [.call bidAccounts (.bid 1 0 5000000 10000000000), localRedeem 7]) fun _ => true)
    (by decide +kernel)
  simp only [Bool.and_eq_true, decide_eq_true_eq, endsIn_iff] at hp
  obtain ⟨⟨hact, hsealed⟩, w', hw', -⟩ := hp
  obtain ⟨hform, hlater⟩ := reachable_wellFormed hreach hidx
  exact ⟨w, w', idx, hreach, hidx, hact, hform, hlater hsealed w' (perform_run Act.step hw')⟩

end Flock
