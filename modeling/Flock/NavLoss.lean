import Flock.Convergence
import Flock.Units
import Mathlib.Algebra.Order.BigOperators.Ring.List
import Mathlib.Algebra.Order.Field.Basic
import Mathlib.Data.Rat.Cast.Order
import Mathlib.Tactic.NormNum
import Mathlib.Tactic.FieldSimp

/-!
# What an auction costs holders

A proposal fixes the NAV floor as a dollar amount, and every fill of the auction
has to leave the fund at or above it. Read as a fraction of the fund this binds
only as long as the fund is no larger than the one the proposal was made for:
entries raise the NAV and not the floor, and what they raise it by a fill may
give away. `auction_loss_bounded` is the bound for the runs in which each fill
starts from no more than the earlier fills have left of the fund proposed.
-/

namespace Flock

open Outcome MachineInt

variable {ch : Chain} {m : Pubkey} {w w₁ w' w'' : World} {idx idx' : Index}

/-- `nav_e6` of the index of `m`, as its record stands. -/
def navAt (ch : Chain) (m : Pubkey) (w : World) : Nat :=
  match w.index? (ch.indexKey m) with
  | some idx => w.nav ch m idx
  | none => 0

theorem navAt_of_index? (h : w.index? (ch.indexKey m) = some idx) :
    navAt ch m w = w.nav ch m idx := by
  unfold navAt
  rw [h]

/-! ## Runs of an auction -/

/-- An entry, an exit, an accrual, or the passing of time. -/
inductive Passage (ch : Chain) (m : Pubkey) (w w' : World) : Prop where
  | call {accounts : List AccountInfo} {ix : FlockInstruction} (signable : Signable ch accounts)
      (done : process ch w accounts ix = .ok w') (concerns : Concerns m accounts ix)
      (accrues : ix.accrues = true)
  | tick {t : Int64} (later : w.clock ≤ t) (done : w' = { w with clock := t })

/-- A run of an auction, with the NAV before and after each of its fills. -/
inductive AuctionRun (ch : Chain) (m : Pubkey) (w : World) : List (Nat × Nat) → World → Prop where
  | start : AuctionRun ch m w [] w
  | passage {fills w' w''} (run : AuctionRun ch m w fills w') (step : Passage ch m w' w'') :
      AuctionRun ch m w fills w''
  | fill {fills w' w''} (run : AuctionRun ch m w fills w') (step : Fill ch m w' w'') :
      AuctionRun ch m w (fills ++ [(navAt ch m w', navAt ch m w'')]) w''

/-- The fraction of the fund the fills have left. -/
def retained (fills : List (Nat × Nat)) : ℚ := (fills.map fun f => (f.2 : ℚ) / f.1).prod

theorem retained_concat (fills : List (Nat × Nat)) (n n' : Nat) :
    retained (fills ++ [(n, n')]) = retained fills * ((n' : ℚ) / n) := by
  simp [retained]

theorem Passage.step (h : Passage ch m w w') : Step ch w w' := by
  cases h with
  | call signable done concerns accrues => exact .call signable done
  | tick later done => exact .outside (done ▸ Outside.tick later)

theorem Fill.step (h : Fill ch m w w') : Step ch w w' := by
  obtain ⟨signable, hdone, -⟩ := h
  exact .call signable hdone

/-- Nothing but a proposal and a closing writes the auction in the record. -/
theorem Passage.rebalance (h : Passage ch m w w') (hW : AllWf ch w) (hm : ch.inUse m)
    (hidx : w.index? (ch.indexKey m) = some idx) :
    ∃ idx', w'.index? (ch.indexKey m) = some idx' ∧ idx'.rebalance = idx.rebalance := by
  cases h with
  | tick later hdone =>
    obtain rfl := hdone
    exact ⟨idx, hidx, rfl⟩
  | call signable hdone concerns accrues =>
    rcases hW.call_cases hm signable hdone with heff | ⟨hne, -⟩
    swap
    · exact absurd concerns hne
    cases heff with
    | issue key before done =>
      obtain rfl := Option.some.inj (hidx.symm.trans before)
      refine ⟨_, done.record, ?_⟩
      rw [Index.synced_eq, Index.refreshed_eq]
    | redeem key signed before done =>
      obtain rfl := Option.some.inj (hidx.symm.trans before)
      refine ⟨_, done.record, ?_⟩
      rw [Index.synced_eq, Index.refreshed_eq]
    | accrueFees key before done =>
      obtain rfl := Option.some.inj (hidx.symm.trans before)
      refine ⟨_, done.record, ?_⟩
      rw [Index.synced_eq]
      rfl
    | initIndex | addComponent | sealIndex | proposeRebalance | bid | endRebalance | setParams
    | setAuthority | setPaused => cases accrues

/-- A fill keeps the auction in the record, and leaves the fund at its floor or
above. -/
theorem Fill.rebalance (h : Fill ch m w w') (hW : AllWf ch w) (hm : ch.inUse m)
    (hidx : w.index? (ch.indexKey m) = some idx) :
    ∃ idx', w'.index? (ch.indexKey m) = some idx' ∧ idx'.rebalance = idx.rebalance ∧
      idx.rebalance.navFloorE6.toNat ≤ navAt ch m w' := by
  obtain ⟨s, b, sellAmount, maxBuyAmount, recv, pay, sell, buy, mi, premium, buyAmount, done⟩ :=
    h.filled hW hm hidx
  refine ⟨_, done.record, by rw [Index.synced_eq], ?_⟩
  rw [navAt_of_index? done.record, World.nav_synced]
  exact done.navFloor

/-- The run lemma: the floor of the proposal stands, and no fill went below it. -/
theorem AuctionRun.floor {fills : List (Nat × Nat)} (h : AuctionRun ch m w fills w')
    (hW : AllWf ch w) (hm : ch.inUse m) (hidx : w.index? (ch.indexKey m) = some idx) :
    AllWf ch w' ∧ (∃ idx', w'.index? (ch.indexKey m) = some idx' ∧
      idx'.rebalance = idx.rebalance) ∧
      ∀ f ∈ fills, idx.rebalance.navFloorE6.toNat ≤ f.2 := by
  induction h with
  | start => exact ⟨hW, ⟨idx, hidx, rfl⟩, fun f hf => absurd hf List.not_mem_nil⟩
  | passage _ hstep ih =>
    obtain ⟨hW', ⟨idx', hidx', hreb⟩, hfloor⟩ := ih
    obtain ⟨idx'', hidx'', hreb'⟩ := hstep.rebalance hW' hm hidx'
    exact ⟨hstep.step.allWf hW', ⟨idx'', hidx'', hreb'.trans hreb⟩, hfloor⟩
  | fill _ hstep ih =>
    obtain ⟨hW', ⟨idx', hidx', hreb⟩, hfloor⟩ := ih
    obtain ⟨idx'', hidx'', hreb', hlast⟩ := hstep.rebalance hW' hm hidx'
    refine ⟨hstep.step.allWf hW', ⟨idx'', hidx'', hreb'.trans hreb⟩, fun f hf => ?_⟩
    rcases List.mem_append.mp hf with hf | hf
    · exact hfloor f hf
    · obtain rfl := List.mem_singleton.mp hf
      rw [hreb] at hlast
      exact hlast

/-! ## The bound -/

theorem Proposed.floor {targets prices : List UInt64} {p : AuctionParams} {manager : Pubkey}
    {nav navFloor : UInt64} {startTs endTs : Int64}
    (h : Proposed ch m idx w w' targets prices p manager nav navFloor startTs endTs)
    (hidx : w.index? (ch.indexKey m) = some idx) (hf : idx.maxPremiumBps.toNat ≤ 1000) :
    ∃ idx', w'.index? (ch.indexKey m) = some idx' ∧
      idx'.rebalance.navFloorE6.toNat
        = navAt ch m w' * (10000 - p.maxNavLossBps.toNat) / 10000 := by
  obtain ⟨-, -, -, hloss⟩ := h.band
  have hsmall : p.maxNavLossBps.toNat ≤ 1000 :=
    (UInt16.le_iff_toNat_le.mp (UInt16.not_lt.mp hloss)).trans hf
  have hfloor := h.navFloor_eq
  rw [wrappingSub_of_le (by unfold bps; omega) (by decide), h.nav_eq] at hfloor
  have hworld := h.world
  subst hworld
  refine ⟨_, World.index?_setIndex_self _, ?_⟩
  rw [navAt_of_index? (World.index?_setIndex_self _), World.nav_setIndex hidx]
  exact hfloor

/-- What a successful proposal leaves: a record whose floor is the declared
fraction of the NAV, rounded down. -/
theorem propose_floor {accounts : List AccountInfo} {targets prices : List UInt64}
    {duration : UInt32} {startPremium endPremium : Int16} {maxNavLoss : UInt16}
    (hW : AllWf ch w) (hm : ch.inUse m) (hidx : w.index? (ch.indexKey m) = some idx)
    (signable : Signable ch accounts)
    (hpropose : process ch w accounts
      (.proposeRebalance targets prices duration startPremium endPremium maxNavLoss) = .ok w₁)
    (hcon : Concerns m accounts
      (.proposeRebalance targets prices duration startPremium endPremium maxNavLoss)) :
    ∃ idx₁, w₁.index? (ch.indexKey m) = some idx₁ ∧
      idx₁.rebalance.navFloorE6.toNat = navAt ch m w₁ * (10000 - maxNavLoss.toNat) / 10000 := by
  rcases hW.call_cases hm signable hpropose with heff | ⟨hne, -⟩
  swap
  · exact absurd hcon hne
  generalize hix : FlockInstruction.proposeRebalance targets prices duration startPremium
    endPremium maxNavLoss = ix at heff
  cases heff with
  | proposeRebalance key signed before done =>
    obtain ⟨rfl, rfl, rfl, rfl, rfl, rfl⟩ := FlockInstruction.proposeRebalance.inj hix
    obtain rfl := Option.some.inj (hidx.symm.trans before)
    exact done.floor hidx (hW.wf hm hidx).fees.premium
  | initIndex | addComponent | sealIndex | issue | redeem | accrueFees | bid | endRebalance
  | setParams | setAuthority | setPaused => cases hix

/-- The floor is the declared fraction of the NAV, but for one micro-dollar. -/
theorem fraction_le_floor {nav loss navFloor : Nat} (hnav : 0 < nav)
    (hfloor : navFloor = nav * (10000 - loss) / 10000) :
    ((10000 : ℚ) - loss) / 10000 - 1 / nav ≤ navFloor / nav := by
  have hlt : nav * (10000 - loss) < (navFloor + 1) * 10000 := by
    rw [hfloor, Nat.mul_comm (nav * (10000 - loss) / 10000 + 1)]
    exact Nat.lt_mul_div_succ _ (by decide)
  have hkept : (10000 : ℚ) - loss ≤ ((10000 - loss : ℕ) : ℚ) := by
    rw [sub_le_iff_le_add]
    exact_mod_cast (show 10000 ≤ 10000 - loss + loss by omega)
  have hnav' : (0 : ℚ) < nav := by exact_mod_cast hnav
  have hlt' : (nav : ℚ) * ((10000 - loss : ℕ) : ℚ) < (navFloor + 1) * 10000 := by
    exact_mod_cast hlt
  have hle : (nav : ℚ) * (10000 - loss) ≤ (navFloor + 1) * 10000 :=
    (mul_le_mul_of_nonneg_left hkept hnav'.le).trans hlt'.le
  rw [sub_le_iff_le_add, ← add_div, div_le_div_iff₀ (by norm_num) hnav', mul_comm _ (nav : ℚ)]
  exact hle

/-- Every fill starts from no more than the earlier fills have left of the fund
proposed. -/
def NoGrowth (proposed : Nat) (fills : List (Nat × Nat)) : Prop :=
  ∀ (pre : List (Nat × Nat)) (n n' : Nat) (post : List (Nat × Nat)),
    fills = pre ++ (n, n') :: post → (n : ℚ) ≤ proposed * retained pre

/-- Then what all the fills have left is at least what the last of them left of
the fund proposed. -/
theorem NoGrowth.last_le {proposed n n' : Nat} {fills : List (Nat × Nat)}
    (h : NoGrowth proposed (fills ++ [(n, n')])) (hproposed : 0 < proposed) (hn : 0 < n) :
    (n' : ℚ) / proposed ≤ retained (fills ++ [(n, n')]) := by
  have hn' : (0 : ℚ) < n := by exact_mod_cast hn
  have hp' : (0 : ℚ) < proposed := by exact_mod_cast hproposed
  have hlast : (n : ℚ) / proposed ≤ retained fills := by
    rw [div_le_iff₀ hp', mul_comm]
    exact h fills n n' [] rfl
  have hgain : (0 : ℚ) ≤ (n' : ℚ) / n := by positivity
  calc (n' : ℚ) / proposed = n / proposed * (n' / n) := by field_simp
    _ ≤ retained fills * (n' / n) := mul_le_mul_of_nonneg_right hlast hgain
    _ = retained (fills ++ [(n, n')]) := (retained_concat fills n n').symm

/-- From any reachable world, a proposal and any run of entries, exits, accruals
and fills: as long as no fill starts from more than the earlier ones have left of
the fund proposed, all fills together cost no more than the declared loss, but
for one micro-dollar. -/
theorem auction_loss_bounded (h : Reachable ch w) {k : Pubkey} (hidx : w.index? k = some idx)
    {accounts : List AccountInfo} (signable : Signable ch accounts)
    {targets prices : List UInt64} {duration : UInt32} {startPremium endPremium : Int16}
    {maxNavLoss : UInt16}
    (hpropose : process ch w accounts
      (.proposeRebalance targets prices duration startPremium endPremium maxNavLoss) = .ok w₁)
    (hcon : Concerns idx.indexMint accounts
      (.proposeRebalance targets prices duration startPremium endPremium maxNavLoss))
    (hnav : 0 < navAt ch idx.indexMint w₁) {fills : List (Nat × Nat)}
    (hrun : AuctionRun ch idx.indexMint w₁ fills w') (hpos : ∀ f ∈ fills, 0 < f.1)
    (hsize : NoGrowth (navAt ch idx.indexMint w₁) fills) :
    ((10000 : ℚ) - maxNavLoss.toNat) / 10000 - 1 / navAt ch idx.indexMint w₁ ≤ retained fills := by
  have hW : AllWf ch w := (reachable_wf h).1
  obtain ⟨rfl, hwf⟩ := hW hidx
  obtain ⟨idx₁, hidx₁, hfloor⟩ :=
    propose_floor hW hwf.custody.inUse hidx signable hpropose hcon
  have hW₁ : AllWf ch w₁ := (Step.call signable hpropose).allWf hW
  obtain ⟨-, -, hfloors⟩ := hrun.floor hW₁ hwf.custody.inUse hidx₁
  have hbound := fraction_le_floor hnav hfloor
  rcases List.eq_nil_or_concat' fills with rfl | ⟨pre, f, rfl⟩
  · -- no fill: the floor is no more than the NAV
    refine hbound.trans ?_
    have hle : navAt ch idx.indexMint w₁ * (10000 - maxNavLoss.toNat) / 10000
        ≤ navAt ch idx.indexMint w₁ := by
      refine Nat.div_le_of_le_mul ?_
      rw [Nat.mul_comm]
      exact Nat.mul_le_mul_right _ (Nat.sub_le _ _)
    rw [← hfloor] at hle
    exact div_le_one_of_le₀ (by exact_mod_cast hle) (by positivity)
  · obtain ⟨n, n'⟩ := f
    have hn := hpos (n, n') (List.mem_append_right _ (List.mem_singleton.mpr rfl))
    have hn' := hfloors (n, n') (List.mem_append_right _ (List.mem_singleton.mpr rfl))
    refine (hbound.trans ?_).trans (hsize.last_le hnav hn)
    exact div_le_div_of_nonneg_right (by exact_mod_cast hn') (by positivity)

/-- A successful act of the local holder that is an entry, an exit or an accrual
of the local index, or the passing of time. -/
def passageAct (_ : World) (act : Act) : Bool :=
  act.permitted && match act with
    | .call accounts ix => ix.accrues &&
        decide (accounts[ix.mintSlot]?.map AccountInfo.key = some (addr 1))
    | .tick _ => true
    | _ => false

theorem passageAct_passage {act : Act} (hc : passageAct w act = true)
    (h : act.run localnet w = .ok w') : Passage localnet (addr 1) w w' := by
  unfold passageAct at hc
  rw [Bool.and_eq_true] at hc
  obtain ⟨hp, hc⟩ := hc
  cases act with
  | call accounts ix =>
    simp only [Bool.and_eq_true, decide_eq_true_eq] at hc
    exact .call (Act.signable hp) h hc.2 hc.1
  | tick t =>
    obtain ⟨ht, rfl⟩ := Act.tick_ok h
    exact .tick ht rfl
  | transfer s d a x => cases hc
  | burn s m a x => cases hc

theorem AuctionRun.passages {fills : List (Nat × Nat)} (h : AuctionRun ch m w fills w')
    (hrun : Relation.ReflTransGen (Passage ch m) w' w'') : AuctionRun ch m w fills w'' := by
  induction hrun with
  | refl => exact h
  | tail _ hstep ih => exact ih.passage hstep

/-- The local manager proposes an auction at this premium throughout that may lose this. -/
def proposal (premium : Int16) (maxNavLoss : UInt16) : FlockInstruction :=
  .proposeRebalance [2050000, 330000000] [1000000000, 30000000000] 3600 premium premium maxNavLoss

/-- Some passages, and a fill. -/
def fillAfter (acts : List Act) (p : World → World → Bool) (w : World) : Bool :=
  endsIn (perform passageAct w acts) fun w₁ =>
    endsIn (process localnet w₁ bidAccounts (.bid 1 0 5000000 10000000000)) fun w₂ => p w₁ w₂

theorem AuctionRun.fillAfter {acts : List Act} {p : World → World → Bool} {fills : List (Nat × Nat)}
    (h : AuctionRun localnet (addr 1) w fills w') (hfill : fillAfter acts p w' = true) :
    ∃ w₁ w₂, AuctionRun localnet (addr 1) w
      (fills ++ [(navAt localnet (addr 1) w₁, navAt localnet (addr 1) w₂)]) w₂ ∧
      p w₁ w₂ = true := by
  simp only [Flock.fillAfter, endsIn_iff] at hfill
  obtain ⟨w₁, hacts, w₂, hbid, hp⟩ := hfill
  have hrun := h.passages (perform_run passageAct_passage hacts)
  exact ⟨w₁, w₂, hrun.fill (.bid bid_signable hbid rfl), hp⟩

theorem noGrowth_pair {proposed n₁ n₁' n₂ n₂' : Nat} (h₁ : n₁ ≤ proposed)
    (h₂ : (n₂ : ℚ) ≤ proposed * (n₁' / n₁)) : NoGrowth proposed [(n₁, n₁'), (n₂, n₂')] := by
  intro pre k k' post he
  rcases pre with _ | ⟨f, _ | ⟨g, pre⟩⟩
  · obtain ⟨hf, -⟩ := List.cons.inj he
    obtain ⟨rfl, -⟩ := Prod.mk.inj hf
    simpa [retained] using h₁
  · obtain ⟨rfl, hrest⟩ := List.cons.inj he
    obtain ⟨hg, -⟩ := List.cons.inj hrest
    obtain ⟨rfl, -⟩ := Prod.mk.inj hg
    simpa [retained] using h₂
  · simp at he

/-- One percent may be lost. Between two fills at a premium some tokens are redeemed and fewer
are issued. -/
theorem auction_loss_bounded_local : ∃ (w w₁ w' : World) (idx : Index)
    (fills : List (Nat × Nat)), Reachable localnet w ∧ w.index? localIndex = some idx ∧
    AuctionRun localnet idx.indexMint w₁ fills w' ∧ fills.length = 2 ∧ retained fills < 1 ∧
    ((10000 : ℚ) - (100 : UInt16).toNat) / 10000 - 1 / navAt localnet idx.indexMint w₁
      ≤ retained fills := by
  obtain ⟨w, idx, hreach, hidx, hp⟩ := exists_of_run
    (openFund ⟨0, 0, 0, 100⟩ 2000000 333333333 ++ [localIssue 5000000000])
    (fun w idx => decide (idx.indexMint = addr 1) &&
      endsIn (process localnet w proposeAccounts (proposal 100 100)) fun w₁ =>
        decide (navAt localnet (addr 1) w₁ = 59999999) &&
        fillAfter [.tick 300] (fun w₂ w₃ => decide (navAt localnet (addr 1) w₂ = 59999999) &&
          decide (navAt localnet (addr 1) w₃ = 59998499) &&
          fillAfter [localRedeem 40000000, localIssue 10000000] (fun w₄ w₅ =>
            decide (navAt localnet (addr 1) w₄ = 59638508) &&
            decide (navAt localnet (addr 1) w₅ = 59637008)) w₃) w₁)
    (by decide +kernel)
  simp only [Bool.and_eq_true, decide_eq_true_eq, endsIn_iff] at hp
  obtain ⟨hm, w₁, hpropose, hN, hfirst⟩ := hp
  obtain ⟨w₂, w₃, hrun, hp⟩ := AuctionRun.start.fillAfter hfirst
  simp only [Bool.and_eq_true, decide_eq_true_eq] at hp
  obtain ⟨⟨h₂, h₃⟩, hsecond⟩ := hp
  obtain ⟨w₄, w₅, hrun, hp⟩ := hrun.fillAfter hsecond
  simp only [Bool.and_eq_true, decide_eq_true_eq] at hp
  obtain ⟨h₄, h₅⟩ := hp
  rw [List.nil_append, List.singleton_append, h₂, h₃, h₄, h₅, ← hm] at hrun
  rw [← hm] at hN
  have hcon : Concerns idx.indexMint proposeAccounts (proposal 100 100) := congrArg some hm.symm
  have hsize : NoGrowth (navAt localnet idx.indexMint w₁)
      [(59999999, 59998499), (59638508, 59637008)] := by
    rw [hN]
    exact noGrowth_pair (le_refl _) (by norm_num)
  refine ⟨w, w₁, w₅, idx, _, hreach, hidx, hrun, rfl, by norm_num [retained],
    auction_loss_bounded hreach hidx propose_signable hpropose hcon (by omega) hrun ?_ hsize⟩
  intro f hf
  simp only [List.mem_cons, List.not_mem_nil, or_false] at hf
  rcases hf with rfl | rfl <;> decide

/-- A proposal that may lose nothing is made for a fund of 59.999999 dollars. Five
more tokens are issued, and a fill at a premium of one percent takes 1500
micro-dollars. -/
theorem auction_loses_more_than_declared : ∃ (w w₁ w' : World) (idx : Index)
    (fills : List (Nat × Nat)), Reachable localnet w ∧ w.index? localIndex = some idx ∧
    Signable localnet proposeAccounts ∧
    process localnet w proposeAccounts (proposal 100 0) = .ok w₁ ∧
    navAt localnet idx.indexMint w₁ = 59999999 ∧
    AuctionRun localnet idx.indexMint w₁ fills w' ∧ fills = [(119999999, 119998499)] ∧
    ¬ ((10000 : ℚ) - (0 : UInt16).toNat) / 10000 - 1 / navAt localnet idx.indexMint w₁
      ≤ retained fills := by
  obtain ⟨w, idx, hreach, hidx, hp⟩ := exists_of_run
    (openFund ⟨0, 0, 0, 100⟩ 2000000 333333333 ++ [localIssue 5000000000])
    (fun w idx => decide (idx.indexMint = addr 1) &&
      endsIn (process localnet w proposeAccounts (proposal 100 0)) fun w₁ =>
        decide (navAt localnet (addr 1) w₁ = 59999999) &&
        fillAfter [localIssue 5000000000, .tick 300] (fun w₂ w₃ =>
          decide (navAt localnet (addr 1) w₂ = 119999999) &&
          decide (navAt localnet (addr 1) w₃ = 119998499)) w₁)
    (by decide +kernel)
  simp only [Bool.and_eq_true, decide_eq_true_eq, endsIn_iff] at hp
  obtain ⟨hm, w₁, hpropose, hN, hfill⟩ := hp
  obtain ⟨w₂, w₃, hrun, hp⟩ := AuctionRun.start.fillAfter hfill
  simp only [Bool.and_eq_true, decide_eq_true_eq] at hp
  obtain ⟨hn, hn'⟩ := hp
  rw [List.nil_append, hn, hn', ← hm] at hrun
  rw [← hm] at hN
  refine ⟨w, w₁, w₃, idx, _, hreach, hidx, propose_signable, hpropose, hN, hrun, rfl, ?_⟩
  rw [hN, UInt16.toNat_zero]
  norm_num [retained]

end Flock
