import Flock.Lib.Dilution
import Flock.Localnet

/-!
# The streaming fee over time

The fee is a floor, and the clock it is measured by is the record's. Two
handlers move that clock without minting what the time before it is worth:
`accrue` moves it even when the floor is zero, and `set_params` moves it
unconditionally and mints nothing.

Both results are therefore equivalences. A change of parameters bills the time
before it exactly when that time was worth no token; a schedule of accruals that
mint nothing forgets the time up to the last of them, and keeps the fee exactly
when the remainder that the fee of the whole time leaves can pay for it.
-/

namespace Flock

open Outcome MachineInt

variable {ch : Chain} {m : Pubkey} {w w₁ w₃ w' w'' : World} {idx idx' : Index}

/-! ## Changing the rate -/

/-- A fee recipient who receives `minted` for the time from `t₀` to `t₂` was paid
at the rate `f` up to `t₁` and at the rate `g` from there. -/
def BilledApart (supply : UInt64) (f g : UInt16) (t₀ t₁ t₂ : Int64) (minted : Nat) : Prop :=
  ∃ m₁ grown m₂ : UInt64, streamingFeeTokens supply f (saturatingSub t₁ t₀) = .ok m₁ ∧
    grown.toNat = supply.toNat + m₁.toNat ∧
    streamingFeeTokens grown g (saturatingSub t₂ t₁) = .ok m₂ ∧ minted = m₁.toNat + m₂.toNat

/-- The fee at the new rate alone bills the time before the change exactly when
that time was worth no token. -/
theorem billedApart_iff {supply minted : UInt64} {f g : UInt16} {t₀ t₁ t₂ : Int64}
    (hS : supply.toNat ≠ 0) (h₁ : t₀ ≤ t₁) (h₂ : t₁ ≤ t₂)
    (hfee : streamingFeeTokens supply g (saturatingSub t₂ t₁) = .ok minted) :
    BilledApart supply f g t₀ t₁ t₂ minted.toNat ↔
      (supply.toNat + 1) * (f.toNat * elapsed t₀ t₁) < wholeYear := by
  constructor
  · rintro ⟨m₁, grown, m₂, hm₁, hgrown, hm₂, hsum⟩
    obtain ⟨hlt, hm₁⟩ := (streamingFeeTokens_ok_iff hS h₁).mp hm₁
    obtain ⟨-, hm₂⟩ := (streamingFeeTokens_ok_iff (by omega) h₂).mp hm₂
    obtain ⟨-, hminted⟩ := (streamingFeeTokens_ok_iff hS h₂).mp hfee
    -- the fee of the second stretch is no less on the grown supply
    have hmono : minted.toNat ≤ m₂.toNat := by
      rw [hminted, hm₂]
      exact Nat.div_le_div_right (Nat.mul_le_mul_right _ (by omega))
    have hzero : ¬ 1 ≤ m₁.toNat := by omega
    rw [hm₁, le_streamingFee_iff hlt, Nat.one_mul] at hzero
    exact Nat.not_le.mp hzero
  · intro hlt
    have hle : f.toNat * elapsed t₀ t₁ ≤ (supply.toNat + 1) * (f.toNat * elapsed t₀ t₁) :=
      Nat.le_mul_of_pos_left _ (Nat.succ_pos _)
    have hnum : f.toNat * elapsed t₀ t₁ < wholeYear := by omega
    have hnone : ¬ 1 ≤ supply.toNat * (f.toNat * elapsed t₀ t₁) /
        (wholeYear - f.toNat * elapsed t₀ t₁) := by
      rw [le_streamingFee_iff hnum]
      omega
    refine ⟨0, supply, minted, (streamingFeeTokens_ok_iff hS h₁).mpr ⟨hnum, ?_⟩, ?_, hfee, ?_⟩
    · exact (Nat.lt_one_iff.mp (Nat.not_le.mp hnone)).symm
    · rw [UInt64.toNat_zero, Nat.add_zero]
    · rw [UInt64.toNat_zero, Nat.zero_add]

/-- What `set_params` leaves of the world the next accrual reads. -/
theorem set_params_record {accounts : List AccountInfo} {g issue redeem premium : UInt16}
    {delay : UInt32} (hW : AllWf ch w) (hm : ch.inUse m) (signable : Signable ch accounts)
    (hidx : w.index? (ch.indexKey m) = some idx) (hsealed : idx.state ≠ stateBootstrapping)
    (hset : process ch w accounts (.setParams g issue redeem premium delay) = .ok w₁)
    (hcon : Concerns m accounts (.setParams g issue redeem premium delay)) :
    w₁.clock = w.clock ∧ w₁.mint? = w.mint? ∧
      w₁.index? (ch.indexKey m) = some (idx.withParams g issue redeem premium delay w.clock) ∧
      (idx.withParams g issue redeem premium delay w.clock).lastFeeAccrual = w.clock := by
  rcases hW.call_cases hm signable hset with heff | ⟨hne, -⟩
  swap
  · exact absurd hcon hne
  cases heff with
  | setParams key signed before fees governor_eq world =>
    obtain rfl := Option.some.inj (hidx.symm.trans before)
    obtain rfl := world
    have ha := World.accounts_of_index? hidx
    exact ⟨World.setIndex_clock _, World.mint?_set_of_not (by simp) (by simp [ha]),
      World.index?_setIndex_self _, if_pos hsealed⟩

/-- A governor changes the parameters of any reachable index with index tokens
outstanding, and the next accrual comes at `t₂`. The fee recipient is charged
the old rate up to the change and the new one after it exactly when the time
up to the change was worth no token. -/
theorem set_params_bills_apart_iff (h : Reachable ch w) {k : Pubkey}
    (hidx : w.index? k = some idx) {mi : Mint} (hmi : w.mint? idx.indexMint = some mi)
    (hS : 0 < mi.supply.toNat) {accounts : List AccountInfo} (signable : Signable ch accounts)
    {g issue redeem premium : UInt16} {delay : UInt32}
    (hset : process ch w accounts (.setParams g issue redeem premium delay) = .ok w₁)
    (hcon : Concerns idx.indexMint accounts (.setParams g issue redeem premium delay))
    {t₂ : Int64} (ht : w₁.clock ≤ t₂) {indexInfo indexMintInfo feeAta : AccountInfo}
    {minted : UInt64} (hi : indexInfo.key = k) (hm : indexMintInfo.key = idx.indexMint)
    (hacc : accrue ch { w₁ with clock := t₂ } indexInfo indexMintInfo feeAta t₂
      = .ok (minted, w₃)) :
    BilledApart mi.supply idx.streamingFeeBps g idx.lastFeeAccrual w.clock t₂
        (w₃.supply idx.indexMint - w.supply idx.indexMint) ↔
      (mi.supply.toNat + 1) * (idx.streamingFeeBps.toNat * elapsed idx.lastFeeAccrual w.clock)
        < wholeYear := by
  have hW : AllWf ch w := (reachable_wf h).1
  obtain ⟨rfl, hwf⟩ := hW hidx
  have hsealed : idx.state ≠ stateBootstrapping := fun hb => by
    have h0 := hwf.unissued hb
    rw [World.supply_of_mint? hmi] at h0
    omega
  obtain ⟨hclock, hmints, hrec, hlast⟩ :=
    set_params_record hW hwf.custody.inUse signable hidx hsealed hset hcon
  have hA : Accrual ch indexMintInfo.key (idx.withParams g issue redeem premium delay w.clock)
      { w₁ with clock := t₂ } w₃ feeAta.key minted := accrue_accrual hacc (hm ▸ hi) (hi ▸ hrec)
  rw [hm] at hA
  obtain ⟨mi', hmi', hfee⟩ := hA.fee
  obtain rfl : mi = mi' := Option.some.inj (hmi.symm.trans (hmints ▸ hmi'))
  have hsup := hA.leg.supply
  have hsame : World.supply { w₁ with clock := t₂ } idx.indexMint = w.supply idx.indexMint :=
    congrFun (World.supply_congr hmints) _
  have hminted : w₃.supply idx.indexMint - w.supply idx.indexMint = minted.toNat := by omega
  rw [hlast] at hfee
  rw [hminted]
  exact billedApart_iff hS.ne' hwf.settled (hclock ▸ ht) hfee

/-- The governor of the local fund changes the rate to `g`, and an accrual comes
at `t₂`. -/
def changeRate (g : UInt16) (t₂ : Int64) (p : World → Index → Mint → World → Bool) (w : World)
    (idx : Index) : Bool :=
  decide (idx.indexMint = addr 1) && match w.mint? (addr 1) with
    | some mi => endsIn (process localnet w [signer 60, indexAccount, account 1]
        (.setParams g 0 0 100 300)) fun w₁ => decide (w₁.clock ≤ t₂) &&
          endsIn (accrue localnet { w₁ with clock := t₂ } indexAccount (account 1) (account 30) t₂)
            fun r => p w idx mi r.2
    | none => false

theorem changeRate_iff {g : UInt16} {t₂ : Int64} {p : World → Index → Mint → World → Bool} :
    changeRate g t₂ p w idx = true ↔ idx.indexMint = addr 1 ∧
      ∃ mi w₁ minted w₃, w.mint? (addr 1) = some mi ∧
        process localnet w [signer 60, indexAccount, account 1] (.setParams g 0 0 100 300)
          = .ok w₁ ∧ w₁.clock ≤ t₂ ∧
        accrue localnet { w₁ with clock := t₂ } indexAccount (account 1) (account 30) t₂
          = .ok (minted, w₃) ∧ p w idx mi w₃ = true := by
  unfold changeRate
  rw [Bool.and_eq_true, decide_eq_true_eq]
  refine and_congr_right fun _ => ?_
  cases w.mint? (addr 1) <;> simp [endsIn_iff]

theorem governor_signable : Signable localnet [signer 60, indexAccount, account 1] := by
  have hp : (Act.call [signer 60, indexAccount, account 1] .sealIndex).permitted = true := by
    decide +kernel
  exact Act.signable hp

/-- On a million base units the rate is raised after 3000 seconds that are worth no token,
and a year at the new rate follows. -/
theorem set_params_bills_apart_local : ∃ (w w₃ : World) (idx : Index) (mi : Mint),
    Reachable localnet w ∧ w.index? localIndex = some idx ∧ w.mint? idx.indexMint = some mi ∧
    idx.lastFeeAccrual = 0 ∧ w.clock = 3000 ∧
    w.supply idx.indexMint < w₃.supply idx.indexMint ∧
    BilledApart mi.supply idx.streamingFeeBps 500 idx.lastFeeAccrual w.clock 31539000
      (w₃.supply idx.indexMint - w.supply idx.indexMint) := by
  obtain ⟨w, idx, hreach, hidx, hp⟩ := exists_of_run
    (openFund ⟨100, 0, 0, 100⟩ 2000000 333333333 ++ [localIssue 1000000, .tick 3000])
    (changeRate 500 31539000 fun w idx mi w₃ => decide (0 < mi.supply.toNat) &&
      decide (idx.lastFeeAccrual = 0) && decide (w.clock = 3000) &&
      decide (w.supply (addr 1) < w₃.supply (addr 1)) &&
      decide ((mi.supply.toNat + 1) *
        (idx.streamingFeeBps.toNat * elapsed idx.lastFeeAccrual w.clock) < wholeYear))
    (by decide +kernel)
  obtain ⟨hm, mi, w₁, minted, w₃, hmi, hset, ht, hacc, hp⟩ := changeRate_iff.mp hp
  simp only [Bool.and_eq_true, decide_eq_true_eq] at hp
  obtain ⟨⟨⟨⟨hS, hlast⟩, hclock⟩, hgrow⟩, hcond⟩ := hp
  rw [← hm] at hmi hgrow
  have hkey : indexAccount.key = localIndex := rfl
  have hcon : Concerns idx.indexMint [signer 60, indexAccount, account 1]
      (.setParams 500 0 0 100 300) := congrArg some hm.symm
  exact ⟨w, w₃, idx, mi, hreach, hidx, hmi, hlast, hclock, hgrow,
    (set_params_bills_apart_iff hreach hidx hmi hS governor_signable hset hcon ht hkey hm.symm
      hacc).mpr hcond⟩

/-- A year passes, the parameters are set to what they are, and the accrual that
follows mints nothing: a fee of 50505050 base units is forgiven. -/
theorem set_params_forgives_a_year : ∃ (w w₁ w₃ : World) (idx : Index) (mi : Mint)
    (minted : UInt64), Reachable localnet w ∧ w.index? localIndex = some idx ∧
    idx.state = stateLive ∧ w.mint? idx.indexMint = some mi ∧ 0 < mi.supply.toNat ∧
    Signable localnet [signer 60, indexAccount, account 1] ∧
    process localnet w [signer 60, indexAccount, account 1]
      (.setParams idx.streamingFeeBps idx.issueFeeBps idx.redeemFeeBps idx.maxPremiumBps
        idx.rebalanceDelay) = .ok w₁ ∧
    accrue localnet { w₁ with clock := w.clock } indexAccount (account 1) (account 30) w.clock
      = .ok (minted, w₃) ∧
    streamingFeeTokens mi.supply idx.streamingFeeBps (saturatingSub w.clock idx.lastFeeAccrual)
      = .ok 50505050 ∧
    ¬ BilledApart mi.supply idx.streamingFeeBps idx.streamingFeeBps idx.lastFeeAccrual w.clock
      w.clock (w₃.supply idx.indexMint - w.supply idx.indexMint) := by
  obtain ⟨w, idx, hreach, hidx, hp⟩ := exists_of_run
    (openFund ⟨100, 0, 0, 100⟩ 2000000 333333333 ++
      [localIssue 5000000000, .tick 31536000])
    (changeRate 100 31536000 fun w idx mi w₃ => decide (0 < mi.supply.toNat) &&
      decide (w₃.supply (addr 1) = w.supply (addr 1)) && decide (w.clock = 31536000) &&
      decide (idx.state = stateLive) &&
      decide (idx.streamingFeeBps = 100 ∧ idx.issueFeeBps = 0 ∧ idx.redeemFeeBps = 0 ∧
        idx.maxPremiumBps = 100 ∧ idx.rebalanceDelay = 300) &&
      decide (streamingFeeTokens mi.supply idx.streamingFeeBps
        (saturatingSub w.clock idx.lastFeeAccrual) = .ok 50505050))
    (by decide +kernel)
  obtain ⟨hm, mi, w₁, minted, w₃, hmi, hset, -, hacc, hp⟩ := changeRate_iff.mp hp
  simp only [Bool.and_eq_true, decide_eq_true_eq] at hp
  obtain ⟨⟨⟨⟨⟨hS, hsame⟩, hclock⟩, hlive⟩, hf, hif, hrf, hmp, hrd⟩, hfee⟩ := hp
  rw [← hm] at hmi hsame
  rw [← hclock] at hacc
  refine ⟨w, w₁, w₃, idx, mi, minted, hreach, hidx, hlive, hmi, hS, governor_signable,
    by rw [hf, hif, hrf, hmp, hrd]; exact hset, hacc, hfee, ?_⟩
  rintro ⟨m₁, grown, m₂, hm₁, -, -, hsum⟩
  obtain rfl := Except.ok.inj (hfee.symm.trans hm₁)
  have h50 : (50505050 : UInt64).toNat = 50505050 := by decide
  omega

/-! ## Accruals that mint nothing -/

/-- A stranger's accrual that mints nothing, with the time it is made at, or the passing
of time. -/
inductive IdleAccrual (ch : Chain) (m : Pubkey) (w : World) : List Int64 → World → Prop where
  | call {accounts : List AccountInfo} {w' : World} (signable : Signable ch accounts)
      (done : process ch w accounts .accrueFees = .ok w') (concerns : Concerns m accounts .accrueFees)
      (nothing : w'.supply m = w.supply m) : IdleAccrual ch m w [w.clock] w'
  | tick {t : Int64} (later : w.clock ≤ t) : IdleAccrual ch m w [] { w with clock := t }

/-- A schedule of such accruals, with the times they are made at. -/
inductive IdleSchedule (ch : Chain) (m : Pubkey) (w : World) : List Int64 → World → Prop where
  | refl : IdleSchedule ch m w [] w
  | tail {calls now : List Int64} {v w' : World} (run : IdleSchedule ch m w calls v)
      (step : IdleAccrual ch m v now w') : IdleSchedule ch m w (calls ++ now) w'

theorem IdleAccrual.step {now : List Int64} (h : IdleAccrual ch m w now w') : Step ch w w' := by
  cases h with
  | call signable done concerns nothing => exact .call signable done
  | tick later => exact .outside (.tick later)

/-- The step lemma: an idle accrual keeps the rate and the supply, and the record's clock
is moved to the time of the call. -/
theorem IdleAccrual.kept {now : List Int64} (h : IdleAccrual ch m w now w') (hW : AllWf ch w)
    (hm : ch.inUse m) (hidx : w.index? (ch.indexKey m) = some idx) :
    ∃ idx', w'.index? (ch.indexKey m) = some idx' ∧
      idx'.streamingFeeBps = idx.streamingFeeBps ∧
      idx'.lastFeeAccrual = now.getLastD idx.lastFeeAccrual ∧
      idx.lastFeeAccrual ≤ idx'.lastFeeAccrual ∧ w'.supply m = w.supply m := by
  cases h with
  | call signable hdone concerns nothing =>
    rcases hW.call_cases hm signable hdone with heff | ⟨hne, -⟩
    swap
    · exact absurd concerns hne
    cases heff with
    | accrueFees key before done =>
      obtain rfl := Option.some.inj (hidx.symm.trans before)
      refine ⟨_, done.record, ?_, ?_, ?_, nothing⟩ <;> rw [Index.synced_eq]
      · rfl
      · rfl
      · exact (hW.wf hm hidx).settled
  | tick later => exact ⟨idx, hidx, rfl, rfl, Int64.le_refl _, rfl⟩

/-- The run lemma. -/
theorem IdleSchedule.kept {calls : List Int64} (hrun : IdleSchedule ch m w calls w')
    (hW : AllWf ch w) (hm : ch.inUse m) (hidx : w.index? (ch.indexKey m) = some idx) :
    AllWf ch w' ∧ ∃ idx', w'.index? (ch.indexKey m) = some idx' ∧
      idx'.streamingFeeBps = idx.streamingFeeBps ∧
      idx'.lastFeeAccrual = calls.getLastD idx.lastFeeAccrual ∧
      idx.lastFeeAccrual ≤ idx'.lastFeeAccrual ∧ w'.supply m = w.supply m := by
  induction hrun with
  | refl => exact ⟨hW, idx, hidx, rfl, rfl, Int64.le_refl _, rfl⟩
  | tail _ hstep ih =>
    obtain ⟨hW', idx', hidx', hrate, hlast, hle, hsup⟩ := ih
    obtain ⟨idx'', hidx'', hrate', hlast', hle', hsup'⟩ := hstep.kept hW' hm hidx'
    refine ⟨hstep.step.allWf hW', idx'', hidx'', hrate'.trans hrate, ?_, Int64.le_trans hle hle',
      hsup'.trans hsup⟩
    rw [hlast', hlast]
    cases hstep with
    | call => rw [List.getLastD_concat, List.getLastD_cons, List.getLastD_nil]
    | tick => rw [List.append_nil, List.getLastD_nil]

/-- The fee of `time` seconds on a supply, and the remainder of its division. -/
def feeOf (supply rate time : Nat) : Nat := supply * (rate * time) / (wholeYear - rate * time)

def feeRemainder (supply rate time : Nat) : Nat :=
  supply * (rate * time) % (wholeYear - rate * time)

/-- After any schedule of idle accruals the next accrual mints the fee of the whole time
since the last one that counted, exactly when the time fits the formula and the remainder of
that fee pays for the time up to the last call: for its part of the supply, and of the fee. -/
theorem idle_accruals_keep_time_iff (h : Reachable ch w) {k : Pubkey}
    (hidx : w.index? k = some idx) {mi : Mint} (hmi : w.mint? idx.indexMint = some mi)
    (hS : 0 < mi.supply.toNat) {calls : List Int64}
    (hrun : IdleSchedule ch idx.indexMint w calls w') {indexInfo indexMintInfo feeAta : AccountInfo}
    {minted : UInt64} (hi : indexInfo.key = k) (hm : indexMintInfo.key = idx.indexMint)
    (hacc : accrue ch w' indexInfo indexMintInfo feeAta w'.clock = .ok (minted, w'')) :
    streamingFeeTokens mi.supply idx.streamingFeeBps
        (saturatingSub w'.clock idx.lastFeeAccrual) = .ok minted ↔
      idx.streamingFeeBps.toNat * elapsed idx.lastFeeAccrual w'.clock < wholeYear ∧
      (mi.supply.toNat + feeOf mi.supply.toNat idx.streamingFeeBps.toNat
          (elapsed idx.lastFeeAccrual w'.clock)) *
        (idx.streamingFeeBps.toNat *
          elapsed idx.lastFeeAccrual (calls.getLastD idx.lastFeeAccrual)) ≤
        feeRemainder mi.supply.toNat idx.streamingFeeBps.toNat
          (elapsed idx.lastFeeAccrual w'.clock) := by
  have hW : AllWf ch w := (reachable_wf h).1
  obtain ⟨rfl, hwf⟩ := hW hidx
  obtain ⟨hW', idx', hidx', hrate, hlast, hle, hsup⟩ := hrun.kept hW hwf.custody.inUse hidx
  have hsettled := (hW'.wf hwf.custody.inUse hidx').settled
  have hA := accrue_accrual hacc (hm ▸ hi) (hi ▸ hidx')
  rw [hm] at hA
  obtain ⟨mi', hmi', hfee⟩ := hA.fee
  have hsame : mi'.supply.toNat = mi.supply.toNat := by
    rw [← World.supply_of_mint? hmi, ← World.supply_of_mint? hmi', hsup]
  obtain ⟨-, hminted⟩ := (streamingFeeTokens_ok_iff (by omega) hsettled).mp hfee
  rw [hsame, hrate] at hminted
  rw [streamingFeeTokens_ok_iff hS.ne' (Int64.le_trans hle hsettled), ← hlast]
  refine and_congr_right fun hlong => ?_
  -- the time that is left is the whole time without what the record has forgotten
  have hsplit : elapsed idx'.lastFeeAccrual w'.clock = elapsed idx.lastFeeAccrual w'.clock -
      elapsed idx.lastFeeAccrual idx'.lastFeeAccrual ∧
      elapsed idx.lastFeeAccrual idx'.lastFeeAccrual ≤ elapsed idx.lastFeeAccrual w'.clock := by
    have h₁ := Int64.le_iff_toInt_le.mp hle
    have h₂ := Int64.le_iff_toInt_le.mp hsettled
    unfold elapsed
    omega
  rw [hminted, hsplit.1, Nat.mul_sub]
  exact Dilution.charge_sub_eq_iff hlong (Nat.mul_le_mul_left _ hsplit.2)

/-- An act that is an idle accrual of the local index. -/
def idleAct (w : World) (act : Act) : Bool :=
  act.permitted && match act with
    | .call accounts ix => decide (ix = .accrueFees) &&
        decide (accounts[ix.mintSlot]?.map AccountInfo.key = some (addr 1)) &&
        endsIn (process localnet w accounts ix) fun w' =>
          decide (w'.supply (addr 1) = w.supply (addr 1))
    | .tick _ => true
    | _ => false

theorem idleAct_idle {act : Act} (hc : idleAct w act = true) (h : act.run localnet w = .ok w') :
    ∃ now, IdleAccrual localnet (addr 1) w now w' := by
  unfold idleAct at hc
  rw [Bool.and_eq_true] at hc
  obtain ⟨hp, hc⟩ := hc
  cases act with
  | call accounts ix =>
    simp only [Bool.and_eq_true, decide_eq_true_eq, endsIn_iff] at hc
    obtain ⟨⟨rfl, hcon⟩, w₁, hw₁, hsup⟩ := hc
    obtain rfl := Except.ok.inj (hw₁.symm.trans h)
    exact ⟨_, .call (Act.signable hp) h hcon hsup⟩
  | tick t =>
    obtain ⟨ht, rfl⟩ := Act.tick_ok h
    exact ⟨_, .tick ht⟩
  | transfer s d a x => cases hc
  | burn s m a x => cases hc

theorem exists_idleSchedule {acts : List Act} (h : perform idleAct w acts = .ok w') :
    ∃ calls, IdleSchedule localnet (addr 1) w calls w' := by
  have hrun := perform_run (R := fun v v' => ∃ now, IdleAccrual localnet (addr 1) v now v')
    idleAct_idle h
  clear h
  induction hrun with
  | refl => exact ⟨[], .refl⟩
  | tail _ hstep ih =>
    obtain ⟨calls, hcalls⟩ := ih
    obtain ⟨now, hnow⟩ := hstep
    exact ⟨calls ++ now, .tail hcalls hnow⟩

/-- The local fund is left to idle accruals, and then an accrual comes. -/
def thenAccrue (idle : List Act) (p : World → Index → Mint → World → Index → UInt64 → Bool)
    (w : World) (idx : Index) : Bool :=
  decide (idx.indexMint = addr 1) && match w.mint? (addr 1) with
    | some mi => endsIn (perform idleAct w idle) fun w' =>
        endsIn (accrue localnet w' indexAccount (account 1) (account 30) w'.clock) fun r =>
          indexPasses (fun w' idx' => p w idx mi w' idx' r.1) w'
    | none => false

theorem thenAccrue_iff {idle : List Act}
    {p : World → Index → Mint → World → Index → UInt64 → Bool} :
    thenAccrue idle p w idx = true ↔ idx.indexMint = addr 1 ∧
      ∃ mi w' minted w'' idx', w.mint? (addr 1) = some mi ∧ perform idleAct w idle = .ok w' ∧
        accrue localnet w' indexAccount (account 1) (account 30) w'.clock = .ok (minted, w'') ∧
        w'.index? localIndex = some idx' ∧ p w idx mi w' idx' minted = true := by
  unfold thenAccrue
  rw [Bool.and_eq_true, decide_eq_true_eq]
  refine and_congr_right fun _ => ?_
  cases w.mint? (addr 1) <;> simp [endsIn_iff, indexPasses_iff]

/-- On a million base units at one percent a year a token falls due every 3154 seconds. An
accrual after 3000 of them mints nothing, and what is left of 6200 is enough for the one
token they are worth. -/
theorem idle_accruals_keep_time_local : ∃ (w w' : World) (idx : Index) (mi : Mint)
    (calls : List Int64) (minted : UInt64), Reachable localnet w ∧
    w.index? localIndex = some idx ∧ w.mint? idx.indexMint = some mi ∧
    IdleSchedule localnet idx.indexMint w calls w' ∧ idx.lastFeeAccrual = 0 ∧
    calls.getLastD idx.lastFeeAccrual = 3000 ∧ w'.clock = 6200 ∧ minted = 1 ∧
    streamingFeeTokens mi.supply idx.streamingFeeBps
      (saturatingSub w'.clock idx.lastFeeAccrual) = .ok minted := by
  obtain ⟨w, idx, hreach, hidx, hp⟩ := exists_of_run
    (openFund ⟨100, 0, 0, 100⟩ 2000000 333333333 ++ [localIssue 1000000])
    (thenAccrue [.tick 3000, localAccrue, .tick 6200] fun _ idx mi w' idx' minted =>
      decide (mi.supply.toNat = 1000000) && decide (idx.streamingFeeBps = 100) &&
      decide (idx.lastFeeAccrual = 0) && decide (idx'.lastFeeAccrual = 3000) &&
      decide (w'.clock = 6200) && decide (minted = 1))
    (by decide +kernel)
  obtain ⟨hm, mi, w', minted, w'', idx', hmi, hidle, hacc, hidx', hp⟩ := thenAccrue_iff.mp hp
  simp only [Bool.and_eq_true, decide_eq_true_eq] at hp
  obtain ⟨⟨⟨⟨⟨hS, hrate⟩, hstart⟩, hend⟩, hclock⟩, hminted⟩ := hp
  obtain ⟨calls, hrun⟩ := exists_idleSchedule hidle
  rw [← hm] at hrun hmi
  -- the record's clock stands at the last call
  have hW : AllWf localnet w := (reachable_wf hreach).1
  obtain ⟨hkey', hwf⟩ := hW hidx
  obtain ⟨-, i, hi, -, hlast, -⟩ := hrun.kept hW hwf.custody.inUse (hkey' ▸ hidx)
  obtain rfl := Option.some.inj (hidx'.symm.trans (hkey' ▸ hi))
  have hkey : indexAccount.key = localIndex := rfl
  refine ⟨w, w', idx, mi, calls, minted, hreach, hidx, hmi, hrun, hstart, by rw [← hlast, hend],
    hclock, hminted, (idle_accruals_keep_time_iff hreach hidx hmi (by omega) hrun hkey hm.symm
      hacc).mpr ?_⟩
  rw [← hlast, hend, hstart, hclock, hS, hrate]
  decide

/-- An accrual every 3000 seconds over a million base units at one percent a
year: each mints nothing, and the token that falls due after 3154 seconds is
never minted. -/
theorem idle_accruals_lose_time : ∃ (w w' w'' : World) (idx : Index) (mi : Mint)
    (calls : List Int64) (minted : UInt64), Reachable localnet w ∧
    w.index? localIndex = some idx ∧ idx.state = stateLive ∧
    w.mint? idx.indexMint = some mi ∧ 0 < mi.supply.toNat ∧
    IdleSchedule localnet idx.indexMint w calls w' ∧
    accrue localnet w' indexAccount (account 1) (account 30) w'.clock = .ok (minted, w'') ∧
    minted = 0 ∧ streamingFeeTokens mi.supply idx.streamingFeeBps
      (saturatingSub w'.clock idx.lastFeeAccrual) = .ok 1 := by
  obtain ⟨w, idx, hreach, hidx, hp⟩ := exists_of_run
    (openFund ⟨100, 0, 0, 100⟩ 2000000 333333333 ++ [localIssue 1000000])
    (thenAccrue [.tick 3000, localAccrue, .tick 6000] fun _ idx mi w' _ minted =>
      decide (0 < mi.supply.toNat) && decide (idx.state = stateLive) && decide (minted = 0) &&
      decide (streamingFeeTokens mi.supply idx.streamingFeeBps
        (saturatingSub w'.clock idx.lastFeeAccrual) = .ok 1))
    (by decide +kernel)
  obtain ⟨hm, mi, w', minted, w'', idx', hmi, hidle, hacc, -, hp⟩ := thenAccrue_iff.mp hp
  simp only [Bool.and_eq_true, decide_eq_true_eq] at hp
  obtain ⟨⟨⟨hS, hlive⟩, h0⟩, hone⟩ := hp
  obtain ⟨calls, hrun⟩ := exists_idleSchedule hidle
  rw [← hm] at hmi hrun
  exact ⟨w, w', w'', idx, mi, calls, minted, hreach, hidx, hlive, hmi, hS, hrun, hacc, h0, hone⟩

end Flock
