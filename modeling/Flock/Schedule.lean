import Flock.Lib.Dilution
import Flock.Localnet

/-!
# Schedules of accruals

Whoever calls `AccrueFees` chooses when, so the fee is charged over a schedule of
intervals nobody agreed on. Each charge is a gross-up of the supply by a floor,
and gross-ups compound: `Dilution.Within.trans` is what keeps the compounded
charge below the one for the whole period.

`Accruals` is such a schedule as a run of the system performs it, with the steps
of others in between that leave the supply alone.
-/

namespace Flock

open Outcome MachineInt Dilution

variable {ch : Chain} {m : Pubkey} {w w' : World}

/-- An interval between two accruals, at the rate in force. -/
structure Interval where
  feeBps : UInt16
  dt : Int64
  bounded : feeBps.toNat ≤ 500
  forward : 0 ≤ dt

/-- The part of `wholeYear` that is charged for. -/
def Interval.part (i : Interval) : Nat := i.feeBps.toNat * i.dt.toInt.toNat

def totalPart (is : List Interval) : Nat := (is.map Interval.part).sum

@[simp] theorem totalPart_cons (i : Interval) (is : List Interval) :
    totalPart (i :: is) = i.part + totalPart is := by
  simp [totalPart]

/-- Charge the intervals one by one, each on the supply the last one grew. -/
def accrueEach : UInt64 → List Interval → Except FlockError UInt64
  | supply, [] => .ok supply
  | supply, i :: is => do
    let owed ← streamingFeeTokens supply i.feeBps i.dt
    let grown ← checkedAdd supply owed
    accrueEach grown is

theorem accrueEach_cons_ok_iff {supply last : UInt64} {i : Interval} {is : List Interval} :
    accrueEach supply (i :: is) = .ok last ↔
      ∃ owed grown : UInt64, streamingFeeTokens supply i.feeBps i.dt = .ok owed ∧
        grown.toNat = supply.toNat + owed.toNat ∧ accrueEach grown is = .ok last := by
  simp only [accrueEach, checkedAdd, bind_ok_iff, toU64_ok_iff]
  constructor
  · intro h
    obtain ⟨owed, howed, grown, hgrown, hrest⟩ := h
    exact ⟨owed, grown, howed, hgrown, hrest⟩
  · intro h
    obtain ⟨owed, grown, howed, hgrown, hrest⟩ := h
    exact ⟨owed, howed, grown, hgrown, hrest⟩

/-! ## One interval -/

/-- The fee of one interval is within its gross-up. -/
theorem interval_within {supply owed : UInt64} {i : Interval} (h : i.part < wholeYear)
    (howed : streamingFeeTokens supply i.feeBps i.dt = .ok owed) :
    Within (wholeYear : ℤ) i.part supply.toNat (supply.toNat + owed.toNat) := by
  have hfee : owed.toNat ≤ supply.toNat * i.part / (wholeYear - i.part) := by
    by_cases h0 : supply.toNat = 0
    · -- nothing is charged on no supply
      rw [streamingFeeTokens, if_pos (.inl (UInt64.toNat_inj.mp h0))] at howed
      rw [← Except.ok.inj howed, UInt64.toNat_zero]
      exact Nat.zero_le _
    · exact ((streamingFeeTokens_dt_ok_iff h0).mp howed).2.le
  rw [le_streamingFee_iff h] at hfee
  rw [within_iff_share, add_sub_cancel_left]
  exact_mod_cast hfee

/-- An interval can be charged wherever its gross-up fits. -/
theorem interval_succeeds {supply : UInt64} {i : Interval} (h : i.part < wholeYear)
    (hroom : supply.toNat * wholeYear < 2 ^ 64 * (wholeYear - i.part)) :
    ∃ owed grown : UInt64, streamingFeeTokens supply i.feeBps i.dt = .ok owed ∧
      grown.toNat = supply.toNat + owed.toNat := by
  have hgrown : supply.toNat + supply.toNat * i.part / (wholeYear - i.part) < 2 ^ 64 := by
    have hfee := (le_streamingFee_iff h).mp (le_refl (supply.toNat * i.part / (wholeYear - i.part)))
    refine Nat.lt_of_mul_lt_mul_right (lt_of_le_of_lt ?_ hroom)
    rw [Nat.mul_sub, Nat.add_mul]
    omega
  by_cases h0 : supply.toNat = 0
  · refine ⟨0, supply, ?_, rfl⟩
    rw [streamingFeeTokens, if_pos (.inl (UInt64.toNat_inj.mp h0))]
  · have hfits : ∀ n, n < 2 ^ 64 → ∃ x : UInt64, x.toNat = n :=
      fun n hn => ⟨UInt64.ofNat n, UInt64.toNat_ofNat_of_lt' hn⟩
    obtain ⟨owed, howed⟩ := hfits _ (lt_of_le_of_lt (Nat.le_add_left _ _) hgrown)
    obtain ⟨grown, hg⟩ := hfits _ hgrown
    exact ⟨owed, grown, (streamingFeeTokens_dt_ok_iff h0).mpr ⟨h, howed⟩, by rw [hg, howed]⟩

/-! ## A schedule -/

/-- The invariant of the schedule is the gross-up of the part charged so far, and
one more interval multiplies another factor to it. -/
theorem accrueEach_within {is : List Interval} : ∀ {supply last : UInt64},
    accrueEach supply is = .ok last → totalPart is < wholeYear →
    supply.toNat ≤ last.toNat ∧ Within (wholeYear : ℤ) (totalPart is) supply.toNat last.toNat := by
  induction is with
  | nil =>
    intro supply last h _
    obtain rfl := Except.ok.inj h
    exact ⟨le_refl _, Within.refl _ _⟩
  | cons i is ih =>
    intro supply last h hA
    rw [totalPart_cons] at hA ⊢
    obtain ⟨owed, grown, howed, hgrown, hrest⟩ := accrueEach_cons_ok_iff.mp h
    obtain ⟨hle, hwithin⟩ := ih hrest (by omega)
    have hfirst := interval_within (by omega) howed
    rw [← Nat.cast_add, ← hgrown] at hfirst
    refine ⟨by omega, ?_⟩
    rw [Nat.cast_add]
    exact hfirst.trans hwithin (Nat.cast_nonneg _) (Nat.cast_nonneg _) (Nat.cast_nonneg _)
      (by exact_mod_cast hA)

theorem accrueEach_succeeds {is : List Interval} : ∀ {supply : UInt64},
    totalPart is < wholeYear →
    supply.toNat * wholeYear < 2 ^ 64 * (wholeYear - totalPart is) →
    Succeeds (accrueEach supply is) := by
  induction is with
  | nil => exact fun _ _ => ⟨_, rfl⟩
  | cons i is ih =>
    intro supply hA hroom
    rw [totalPart_cons] at hA hroom
    have hpart : i.part < wholeYear := by omega
    obtain ⟨owed, grown, howed, hgrown⟩ := interval_succeeds hpart
      (lt_of_lt_of_le hroom (Nat.mul_le_mul_left _ (by omega)))
    have hfirst := interval_within (by omega) howed
    rw [← Nat.cast_add, ← hgrown] at hfirst
    have hroom' : (supply.toNat : ℤ) * wholeYear < 2 ^ 64 * (wholeYear - (i.part + totalPart is)) := by
      rw [← Nat.cast_add, ← Nat.cast_sub hA.le]
      exact_mod_cast hroom
    have hleft : (grown.toNat : ℤ) * wholeYear < 2 ^ 64 * (wholeYear - totalPart is) :=
      hfirst.room (Nat.cast_nonneg _) (Nat.cast_nonneg _) (by decide) (by exact_mod_cast hA) hroom'
    rw [← Nat.cast_sub (by omega)] at hleft
    obtain ⟨last, hlast⟩ := ih (by omega) (by exact_mod_cast hleft)
    exact ⟨last, accrueEach_cons_ok_iff.mpr ⟨owed, grown, howed, hgrown, hlast⟩⟩

/-- Accruals for `part` of a year's basis points took a supply to `grown`, and
cost its holders no more than one charge for the whole would have. -/
structure NotOvercharged (part supply grown : Nat) : Prop where
  grows : supply ≤ grown
  bound : grown * (wholeYear - part) ≤ supply * wholeYear
  /-- No more is minted than one grossed-up charge would mint. -/
  minted : grown - supply ≤ supply * part / (wholeYear - part)
  /-- The recipient's share of the final supply. -/
  share : (grown - supply) * wholeYear ≤ grown * part

theorem notOvercharged_of_within {part supply grown : Nat} (hA : part < wholeYear)
    (hle : supply ≤ grown) (h : Within (wholeYear : ℤ) part supply grown) :
    NotOvercharged part supply grown := by
  have hshare : (grown - supply) * wholeYear ≤ grown * part := by
    have hs := within_iff_share.mp h
    rw [← Nat.cast_sub hle] at hs
    exact_mod_cast hs
  have hbound : grown * (wholeYear - part) ≤ supply * wholeYear := by
    unfold Within at h
    rw [← Nat.cast_sub hA.le] at h
    exact_mod_cast h
  refine ⟨hle, hbound, ?_, hshare⟩
  rw [le_streamingFee_iff hA, Nat.add_sub_cancel' hle]
  exact hshare

/-! ## Schedules on the chain -/

/-- A run in which the index of `m` is accrued at the intervals `is`, by anyone,
and in which every other step leaves its supply alone. -/
inductive Accruals (ch : Chain) (m : Pubkey) : List Interval → World → World → Prop where
  | done (w : World) : Accruals ch m [] w w
  | accrue {w w₁ w' : World} {accounts : List AccountInfo} {idx : Index} {i : Interval}
      {is : List Interval} (signable : Signable ch accounts)
      (call : process ch w accounts .accrueFees = .ok w₁)
      (concerns : Concerns m accounts .accrueFees)
      (record : w.index? (ch.indexKey m) = some idx) (rate : i.feeBps = idx.streamingFeeBps)
      (since : i.dt = saturatingSub w.clock idx.lastFeeAccrual)
      (rest : Accruals ch m is w₁ w') : Accruals ch m (i :: is) w w'
  | other {w w₁ w' : World} {is : List Interval} (step : Step ch w w₁)
      (kept : w₁.supply m = w.supply m) (rest : Accruals ch m is w₁ w') : Accruals ch m is w w'

/-- The supply after one accrual. -/
theorem accrueFees_interval {accounts : List AccountInfo} {idx : Index} {i : Interval}
    (hW : AllWf ch w) (hm : ch.inUse m) (signable : Signable ch accounts)
    (call : process ch w accounts .accrueFees = .ok w') (concerns : Concerns m accounts .accrueFees)
    (record : w.index? (ch.indexKey m) = some idx) (rate : i.feeBps = idx.streamingFeeBps)
    (since : i.dt = saturatingSub w.clock idx.lastFeeAccrual) :
    ∃ supply owed grown : UInt64, w.supply m = supply.toNat ∧ w'.supply m = grown.toNat ∧
      streamingFeeTokens supply i.feeBps i.dt = .ok owed ∧
      grown.toNat = supply.toNat + owed.toNat := by
  rcases hW.call_cases hm signable call with heff | ⟨hne, -⟩
  swap
  · exact absurd concerns hne
  cases heff with
  | accrueFees key before done =>
    obtain rfl := Option.some.inj (record.symm.trans before)
    obtain ⟨mi, hmi, hfee⟩ := done.accrual.fee
    obtain ⟨mi', hmi', -⟩ := done.leg.flow.mint?_of hmi
    have hsup := done.leg.supply
    rw [World.supply_of_mint? hmi, World.supply_of_mint? hmi'] at hsup
    rw [← rate, ← since] at hfee
    exact ⟨mi.supply, _, mi'.supply, World.supply_of_mint? hmi, World.supply_of_mint? hmi', hfee,
      by omega⟩

/-- The run lemma: a run charges its own schedule. -/
theorem Accruals.accrueEach {is : List Interval} (h : Accruals ch m is w w') (hW : AllWf ch w)
    (hm : ch.inUse m) {supply : UInt64} (hS : w.supply m = supply.toNat) :
    ∃ last, Flock.accrueEach supply is = .ok last ∧ w'.supply m = last.toNat := by
  induction h generalizing supply with
  | done w => exact ⟨supply, rfl, hS⟩
  | accrue signable call concerns record rate since rest ih =>
    obtain ⟨supply', owed, grown, hS', hG, howed, hgrown⟩ :=
      accrueFees_interval hW hm signable call concerns record rate since
    obtain rfl := UInt64.toNat_inj.mp (hS'.symm.trans hS)
    obtain ⟨last, hlast, hL⟩ := ih (Step.allWf (.call signable call) hW) hG
    exact ⟨last, accrueEach_cons_ok_iff.mpr ⟨owed, grown, howed, hgrown, hlast⟩, hL⟩
  | other step kept rest ih => exact ih (step.allWf hW) (kept.trans hS)

/-- For every schedule of intervals that charges less than a whole year's basis
points: charging it interval by interval costs holders no more than one charge
for the whole period, it goes through wherever that one charge fits, and so does
every run on a chain that performs the schedule, whoever calls. -/
theorem schedule_never_overcharges (supply : UInt64) (is : List Interval)
    (hA : totalPart is < wholeYear) :
    (∀ last, accrueEach supply is = .ok last →
      NotOvercharged (totalPart is) supply.toNat last.toNat) ∧
    (supply.toNat * wholeYear < 2 ^ 64 * (wholeYear - totalPart is) →
      Succeeds (accrueEach supply is)) ∧
    ∀ (ch : Chain) (m : Pubkey) (w w' : World), Reachable ch w → ch.inUse m →
      w.supply m = supply.toNat → Accruals ch m is w w' →
      NotOvercharged (totalPart is) (w.supply m) (w'.supply m) := by
  have hlist : ∀ last, accrueEach supply is = .ok last →
      NotOvercharged (totalPart is) supply.toNat last.toNat := by
    intro last h
    obtain ⟨hle, hwithin⟩ := accrueEach_within h hA
    exact notOvercharged_of_within hA hle hwithin
  refine ⟨hlist, accrueEach_succeeds hA, ?_⟩
  intro ch m w w' hreach hm hS hrun
  have hW : AllWf ch w := (reachable_wf hreach).1
  obtain ⟨last, hlast, hL⟩ := hrun.accrueEach hW hm hS
  rw [hS, hL]
  exact hlist last hlast

/-- Half a year at one percent. -/
def halfYear : Interval := ⟨100, 15768000, by decide, by decide⟩

/-- A stranger accrues the local fund after half a year, and again after another. -/
theorem schedule_never_overcharges_local : ∃ w w' : World, Reachable localnet w ∧
    Accruals localnet (addr 1) [halfYear, halfYear] w w' ∧
    w.supply (addr 1) < w'.supply (addr 1) ∧
    NotOvercharged (totalPart [halfYear, halfYear]) (w.supply (addr 1)) (w'.supply (addr 1)) := by
  have hinUse : localnet.inUse (addr 1) := by
    show (addr 1).val.toNat < 2 * localBase
    decide
  obtain ⟨w, idx, hreach, hidx, hp⟩ := exists_of_run
    (openFund ⟨100, 0, 0, 100⟩ 2000000 333333333 ++ [localIssue 5000000000, .tick 15768000])
    (fun w idx => decide (halfYear.feeBps = idx.streamingFeeBps) &&
      decide (halfYear.dt = saturatingSub w.clock idx.lastFeeAccrual) && (localAccrue.permitted &&
      endsIn (localAccrue.run localnet w) fun w₁ => decide (w₁.clock ≤ 31536000) &&
        indexPasses (fun w₂ idx₂ => decide (halfYear.feeBps = idx₂.streamingFeeBps) &&
          decide (halfYear.dt = saturatingSub w₂.clock idx₂.lastFeeAccrual) &&
          endsIn (localAccrue.run localnet w₂) fun w' =>
            decide (w.supply (addr 1) < w'.supply (addr 1))) { w₁ with clock := 31536000 }))
    (by decide +kernel)
  simp only [Bool.and_eq_true, decide_eq_true_eq, endsIn_iff, indexPasses_iff] at hp
  obtain ⟨⟨hrate, hsince⟩, hperm, w₁, hrun, hlater, idx₂, hidx₂, ⟨hrate₂, hsince₂⟩, w', hrun₂,
    hgrow⟩ := hp
  have hsecond : Accruals localnet (addr 1) [halfYear] { w₁ with clock := 31536000 } w' :=
    .accrue (Act.signable hperm) hrun₂ rfl hidx₂ hrate₂ hsince₂ (.done w')
  have hacc : Accruals localnet (addr 1) [halfYear, halfYear] w w' :=
    .accrue (Act.signable hperm) hrun rfl hidx hrate hsince
      (.other (.outside (Outside.tick hlater)) rfl hsecond)
  obtain ⟨supply, hS⟩ : ∃ supply : UInt64, w.supply (addr 1) = supply.toNat := by
    unfold World.supply
    split
    · exact ⟨_, rfl⟩
    · exact ⟨0, rfl⟩
  exact ⟨w, w', hreach, hacc, hgrow, (schedule_never_overcharges supply [halfYear, halfYear]
    (by decide)).2.2 localnet (addr 1) w w' hreach hinUse hS hacc⟩

end Flock
