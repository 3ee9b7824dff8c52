import Flock.PerToken
import Flock.Quotes
import Mathlib.Algebra.BigOperators.Ring.List

/-!
# Issuing in pieces

The first piece is billed at the units a single issue would be billed at, and the
units only rise from one piece to the next. So each piece delivers at least what
those first units ask for it (`Billed`), and what a ceiling asks for the pieces is
no less than what it asks for their sum. The fee on a piece is a ceiling too.
-/

namespace Flock

open Outcome MachineInt Rounding

variable {ch : Chain} {m : Pubkey} {w w₁ w₂ w' w'' : World} {idx idx' : Index}

/-- One piece after the other is issued, by anybody, while no time passes. -/
inductive IssueRun (ch : Chain) (m : Pubkey) (w : World) : List UInt64 → World → Prop where
  | first {w' : World} {accounts : List AccountInfo} {amount : UInt64} {maxIn : List UInt64}
      (signable : Signable ch accounts)
      (done : process ch w accounts (.issue amount maxIn) = .ok w')
      (concerns : Concerns m accounts (.issue amount maxIn)) : IssueRun ch m w [amount] w'
  | next {amounts w' w''} {accounts : List AccountInfo} {amount : UInt64} {maxIn : List UInt64}
      (run : IssueRun ch m w amounts w') (signable : Signable ch accounts)
      (done : process ch w' accounts (.issue amount maxIn) = .ok w'')
      (concerns : Concerns m accounts (.issue amount maxIn)) :
      IssueRun ch m w (amounts ++ [amount]) w''

/-- What a component is billed for one issue, at the units the pool of `w₁` gives. -/
def Index.bill (idx : Index) (ch : Chain) (m : Pubkey) (w₁ : World) (c : Component)
    (amount : UInt64) : Nat :=
  ((w₁.freshUnits ch m c).toNat * idx.grossIssue amount) ⌈/⌉ unitScale

/-- A bill reads the pool, and the stored units where there are no shares. -/
theorem Index.bill_congr {c : Component} (h : w₂.pool ch m c = w₁.pool ch m c) (amount : UInt64) :
    idx.bill ch m w₂ c amount = idx.bill ch m w₁ c amount := by
  obtain ⟨hS, hB⟩ := Pool.State.mk.inj h
  rw [Index.bill, World.freshUnits, hS, hB, Index.bill, World.freshUnits]

theorem freshUnits_eq_rate (hS : w₁.supply m ≠ 0) (hfit : UnitsFit ch m w₁ idx) {c : Component}
    (hc : c ∈ idx.components) :
    (w₁.freshUnits ch m c).toNat = Pool.rate unitScale (w₁.pool ch m c) := by
  rw [World.freshUnits, if_neg hS, toNat_unitsOf hS (hfit c hc)]
  rfl

section Issued

variable {amount owed fee gross : UInt64} {maxIn : List UInt64} {userIndexAta feeAta : Pubkey}

/-- An issue moves the supply and the vaults by the bill. -/
theorem Issued.billed
    (h : Issued ch m idx w w₁ w' amount maxIn userIndexAta feeAta owed fee gross)
    (hC : Custody ch m w idx) (hne : ∀ c ∈ idx.components, c.mint ≠ m) :
    w'.supply m = w₁.supply m + idx.grossIssue amount ∧
      ∀ c ∈ idx.components, w'.vault ch m c = w₁.vault ch m c + idx.bill ch m w₁ c amount := by
  obtain ⟨dA, hl⟩ := h.leg
  have hsupply := hl.supply
  have hgross : gross.toNat = idx.grossIssue amount := by
    rw [h.gross_eq, h.fee_eq, Index.grossIssue]
  refine ⟨by omega, ?_⟩
  intro c hc
  have hmem : { c with units := w₁.freshUnits ch m c }
      ∈ (idx.refreshed ch m w₁ w.clock).components := by
    rw [Index.refreshed_components]
    exact List.mem_map_of_mem hc
  have hv := h.vault_eq hC hmem (hne c hc)
  rw [Component.required, hgross] at hv
  exact hv

/-- The units of the first bill are covered. -/
theorem Issued.covers
    (h : Issued ch m idx w w₁ w' amount maxIn userIndexAta feeAta owed fee gross)
    {c : Component} (hc : c ∈ idx.components) :
    Pool.Covers unitScale (w₁.freshUnits ch m c).toNat (w₁.pool ch m c) := by
  by_cases hS : w₁.supply m = 0
  · unfold Pool.Covers
    show _ * w₁.supply m ≤ _
    rw [hS]
    exact Nat.zero_le _
  · rw [freshUnits_eq_rate hS (h.fits.resolve_left hS) hc]
    exact Pool.covers_rate _ _

/-- What an issue leaves of the record. -/
theorem Issued.record_fields
    (h : Issued ch m idx w w₁ w' amount maxIn userIndexAta feeAta owed fee gross) :
    ∃ idx', w'.index? (ch.indexKey m) = some idx' ∧
      idx'.components.map Component.mint = idx.components.map Component.mint ∧
      idx'.issueFeeBps = idx.issueFeeBps ∧ idx'.lastFeeAccrual = w'.clock := by
  obtain ⟨dA, hl⟩ := h.leg
  have hclock : w'.clock = w.clock := by
    rw [hl.flow.clock, h.accrual.leg.flow.clock]
  refine ⟨_, h.record, Index.settled_mints w₁ w' w.clock, ?_, ?_⟩
  · rw [Index.synced_eq, Index.refreshed_eq]
  · rw [Index.synced_eq, Index.refreshed_eq, hclock]

end Issued

/-- No time, no fee. -/
theorem Accrual.owed_settled {feeAta : Pubkey} {owed : UInt64}
    (h : Accrual ch m idx w w₁ feeAta owed) (hset : idx.lastFeeAccrual = w.clock) : owed = 0 := by
  obtain ⟨mi, -, hfee⟩ := h.fee
  have hdt : saturatingSub w.clock w.clock ≤ 0 := by
    rw [Int64.le_iff_toInt_le, toInt_saturatingSub, Int64.toInt_zero]
    omega
  rw [hset, streamingFeeTokens, if_pos (.inr (.inr hdt))] at hfee
  exact (Except.ok.inj hfee).symm

section Accrual

variable {feeAta feeAta' : Pubkey} {owed owed' : UInt64}

/-- To which account the fee goes makes no difference to a pool of another mint. -/
theorem Accrual.pool_eq (h : Accrual ch m idx w w₁ feeAta owed)
    (h' : Accrual ch m idx w w₂ feeAta' owed') (hC : Custody ch m w idx) {c : Component}
    (hc : c ∈ idx.components) (hne : c.mint ≠ m) : w₂.pool ch m c = w₁.pool ch m c := by
  rw [World.pool, World.pool, h.supply_unique h', h.vault_eq hC hc hne, h'.vault_eq hC hc hne]

end Accrual

/-- After the issues of `amounts`, each was billed at least at the units of `w₁`. -/
structure Billed (ch : Chain) (m : Pubkey) (idx : Index) (w₁ : World) (amounts : List UInt64)
    (w' : World) : Prop where
  wf : AllWf ch w'
  record : ∃ idx', w'.index? (ch.indexKey m) = some idx' ∧
    idx'.components.map Component.mint = idx.components.map Component.mint ∧
    idx'.issueFeeBps = idx.issueFeeBps ∧ idx'.lastFeeAccrual = w'.clock
  positive : w'.supply m ≠ 0
  supply : w'.supply m = w₁.supply m + (amounts.map idx.grossIssue).sum
  covered : ∀ c ∈ idx.components,
    Pool.Covers unitScale (w₁.freshUnits ch m c).toNat (w'.pool ch m c)
  delivered : ∀ c ∈ idx.components,
    w₁.vault ch m c + (amounts.map (idx.bill ch m w₁ c)).sum ≤ w'.vault ch m c

section Pieces

variable {accounts : List AccountInfo} {amount owed fee gross : UInt64} {maxIn : List UInt64}
  {userIndexAta feeAta : Pubkey}

/-- The first piece. -/
theorem Issued.billed_first
    (h : Issued ch m idx w w₁ w' amount maxIn userIndexAta feeAta owed fee gross)
    (hW' : AllWf ch w') (hC : Custody ch m w idx) (hne : ∀ c ∈ idx.components, c.mint ≠ m) :
    Billed ch m idx w₁ [amount] w' := by
  obtain ⟨hsupply, hvault⟩ := h.billed hC hne
  have hpos := h.positive
  refine ⟨hW', h.record_fields, ?_, ?_, ?_, ?_⟩
  · rw [hsupply, Index.grossIssue]
    omega
  · rw [List.map_singleton, List.sum_singleton, hsupply]
  · intro c hc
    refine (Pool.Move.enter (idx.grossIssue amount) ?_ ?_).covers unitScale_pos (h.covers hc)
    · exact hsupply
    · exact (hvault c hc).ge
  · intro c hc
    rw [List.map_singleton, List.sum_singleton, hvault c hc]

/-- The step lemma: one more piece. -/
theorem Billed.issued {amounts : List UInt64} (hb : Billed ch m idx w₁ amounts w')
    (hidx' : w'.index? (ch.indexKey m) = some idx')
    (h : Issued ch m idx' w' w₂ w'' amount maxIn userIndexAta feeAta owed fee gross)
    (hW'' : AllWf ch w'') (hC : Custody ch m w' idx')
    (hne : ∀ c ∈ idx.components, c.mint ≠ m) : Billed ch m idx w₁ (amounts ++ [amount]) w'' := by
  obtain ⟨idx₁, hidx₁, hmints, hfee, hset⟩ := hb.record
  obtain rfl := Option.some.inj (hidx'.symm.trans hidx₁)
  have howed := h.accrual.owed_settled hset
  have hstill : ∀ c, w₂.pool ch m c = w'.pool ch m c := h.accrual.still howed
  have hS₂ : w₂.supply m = w'.supply m := by
    have hsup := h.accrual.leg.supply
    rw [howed, UInt64.toNat_zero] at hsup
    omega
  have hpos := hb.positive
  obtain ⟨hsupply, hvault⟩ := h.billed hC (mint_ne_of_mints hne hmints)
  have hgross : idx'.grossIssue amount = idx.grossIssue amount := by
    rw [Index.grossIssue, hfee, Index.grossIssue]
  rw [hgross] at hsupply
  -- the piece is billed at the pool's own units, which are no fewer than the first ones
  have hpiece : ∀ c ∈ idx.components,
      Pool.Covers unitScale (w₁.freshUnits ch m c).toNat (w''.pool ch m c) ∧
        w'.vault ch m c + idx.bill ch m w₁ c amount ≤ w''.vault ch m c := by
    intro c hc
    obtain ⟨c', hc', he⟩ := exists_of_mints hmints hc
    have hv := hvault c' hc'
    rw [Index.bill, hgross, freshUnits_eq_rate (by omega) (h.fits.resolve_left (by omega)) hc',
      hstill, World.pool_congr he, World.vault_congr he, World.vault_congr he] at hv
    have hsame : w₂.vault ch m c = w'.vault ch m c := congrArg Pool.State.assets (hstill c)
    rw [hsame] at hv
    refine Pool.covers_of_enter (p := w'.pool ch m c) unitScale_pos (Nat.pos_of_ne_zero hpos)
      (hb.covered c hc) ?_ hv
    show w''.supply m = w'.supply m + idx.grossIssue amount
    omega
  refine ⟨hW'', ?_, by omega, ?_, fun c hc => (hpiece c hc).1, ?_⟩
  · obtain ⟨idx'', hidx'', hmints', hfee', hset'⟩ := h.record_fields
    exact ⟨idx'', hidx'', hmints'.trans hmints, hfee'.trans hfee, hset'⟩
  · have := hb.supply
    rw [List.map_append, List.sum_append, List.map_singleton, List.sum_singleton]
    omega
  · intro c hc
    have := hb.delivered c hc
    have := (hpiece c hc).2
    rw [List.map_append, List.sum_append, List.map_singleton, List.sum_singleton]
    omega

end Pieces

/-- The run lemma. -/
theorem IssueRun.billed {amounts : List UInt64} (hrun : IssueRun ch m w amounts w')
    (hW : AllWf ch w) (hs : w.Sound) (hm : ch.inUse m)
    (hidx : w.index? (ch.indexKey m) = some idx) (hU : Unissued m w idx) :
    (∀ c ∈ idx.components, c.mint ≠ m) ∧
      ∃ w₁ feeAta owed, Accrual ch m idx w w₁ feeAta owed ∧ Billed ch m idx w₁ amounts w' := by
  induction hrun with
  | first signable done concerns =>
    have hC := (hW.wf hm hidx).custody
    rcases hW.call_cases hm signable done with heff | ⟨hother, -⟩
    swap
    · exact absurd concerns hother
    cases heff with
    | issue key before iss =>
      obtain rfl := Option.some.inj (hidx.symm.trans before)
      have hne := iss.mint_ne hC hs hU
      exact ⟨hne, _, _, _, iss.accrual,
        iss.billed_first ((Step.call signable done).allWf hW) hC hne⟩
  | next run signable done concerns ih =>
    obtain ⟨hne, w₁, feeAta, owed, hacc, hb⟩ := ih
    have hW' : AllWf ch _ := hb.wf
    obtain ⟨idx', hidx', -⟩ := hb.record
    have hC := (hW'.wf hm hidx').custody
    rcases hW'.call_cases hm signable done with heff | ⟨hother, -⟩
    swap
    · exact absurd concerns hother
    cases heff with
    | issue key before iss =>
      obtain rfl := Option.some.inj (hidx'.symm.trans before)
      exact ⟨hne, w₁, feeAta, owed, hacc,
        hb.issued hidx' iss ((Step.call signable done).allWf hW') hC hne⟩

/-! ## In pieces and at once -/

section Sum

variable {amounts : List UInt64} {amount : UInt64}
  (hsum : amount.toNat = (amounts.map UInt64.toNat).sum)
include hsum

theorem Index.grossIssue_le (idx : Index) :
    idx.grossIssue amount ≤ (amounts.map idx.grossIssue).sum := by
  have hfees : (amount.toNat * idx.issueFeeBps.toNat) ⌈/⌉ bps
      ≤ (amounts.map fun a => (a.toNat * idx.issueFeeBps.toNat) ⌈/⌉ bps).sum := by
    rw [hsum, ← List.sum_map_mul_right]
    exact ceilDiv_sum_le (by decide) _ amounts
  have hsplit : (amounts.map idx.grossIssue).sum = (amounts.map UInt64.toNat).sum
      + (amounts.map fun a => (a.toNat * idx.issueFeeBps.toNat) ⌈/⌉ bps).sum := by
    rw [← List.sum_map_add]
    rfl
  rw [hsplit, Index.grossIssue, ← hsum]
  omega

theorem Index.bill_le (idx : Index) (c : Component) :
    idx.bill ch m w₁ c amount ≤ (amounts.map (idx.bill ch m w₁ c)).sum := by
  have hgross := Nat.mul_le_mul_left (w₁.freshUnits ch m c).toNat (idx.grossIssue_le hsum)
  rw [← List.sum_map_mul_left] at hgross
  calc idx.bill ch m w₁ c amount
      ≤ (amounts.map fun a => (w₁.freshUnits ch m c).toNat * idx.grossIssue a).sum
          ⌈/⌉ unitScale := ceilDiv_le_ceilDiv unitScale_pos hgross
    _ ≤ _ := ceilDiv_sum_le unitScale_pos _ amounts

end Sum

/-- From every reachable world, supply or no supply: whoever issues an amount in
pieces delivers at least as much of every component as whoever issues it at once,
and at least as many fee tokens are minted. -/
theorem split_issue_dearer (h : Reachable ch w) {k : Pubkey} (hidx : w.index? k = some idx)
    {amounts : List UInt64} (hrun : IssueRun ch idx.indexMint w amounts w')
    {accounts : List AccountInfo} (signable : Signable ch accounts) {amount : UInt64}
    {maxIn : List UInt64} (concerns : Concerns idx.indexMint accounts (.issue amount maxIn))
    (hsum : amount.toNat = (amounts.map UInt64.toNat).sum)
    (done : process ch w accounts (.issue amount maxIn) = .ok w'') :
    (∀ c ∈ idx.components,
      (w''.vault ch idx.indexMint c : ℤ) - w.vault ch idx.indexMint c
        ≤ w'.vault ch idx.indexMint c - w.vault ch idx.indexMint c) ∧
    (w''.supply idx.indexMint : ℤ) - w.supply idx.indexMint - amount.toNat
      ≤ w'.supply idx.indexMint - w.supply idx.indexMint - (amounts.map UInt64.toNat).sum := by
  obtain ⟨hW, hs⟩ := reachable_wf h
  obtain ⟨rfl, hwf⟩ := hW hidx
  have hm := hwf.custody.inUse
  obtain ⟨hne, w₁, feeAta, owed, hacc, hb⟩ :=
    hrun.billed hW hs hm hidx (reachable_unissued h hm hidx)
  rcases hW.call_cases hm signable done with heff | ⟨hother, -⟩
  swap
  · exact absurd concerns hother
  cases heff with
  | issue key before iss =>
    obtain rfl := Option.some.inj (hidx.symm.trans before)
    obtain ⟨hsupply, hvault⟩ := iss.billed hwf.custody hne
    -- both start from the pools the accrual leaves
    have hpool := fun c hc => hacc.pool_eq iss.accrual hwf.custody hc (hne c hc)
    refine ⟨?_, ?_⟩
    · intro c hc
      have hdel := hb.delivered c hc
      have hv := hvault c hc
      have hbill : idx.bill ch idx.indexMint w₁ c amount
          ≤ (amounts.map (idx.bill ch idx.indexMint w₁ c)).sum := idx.bill_le hsum c
      rw [Index.bill_congr (hpool c hc), iss.accrual.vault_eq hwf.custody hc (hne c hc)] at hv
      rw [hacc.vault_eq hwf.custody hc (hne c hc)] at hdel
      omega
    · have hgross := idx.grossIssue_le hsum
      have hS := hb.supply
      have hsame := hacc.supply_unique iss.accrual
      omega

/-- Seven base units at one third of a percent are issued in two pieces and at once. -/
theorem split_issue_dearer_local : ∃ (w w' w'' : World) (idx : Index),
    Reachable localnet w ∧ w.index? localIndex = some idx ∧
    IssueRun localnet idx.indexMint w [3, 4] w' ∧ w.supply idx.indexMint = 0 ∧
    w'.supply idx.indexMint = 9 ∧ w''.supply idx.indexMint = 8 ∧
    ∀ c ∈ idx.components,
      (w''.vault localnet idx.indexMint c : ℤ) - w.vault localnet idx.indexMint c
        ≤ w'.vault localnet idx.indexMint c - w.vault localnet idx.indexMint c := by
  obtain ⟨w, idx, hreach, hidx, hp⟩ := exists_of_run (openFund ⟨0, 33, 0, 100⟩ 2000000 333333333)
    (fun w idx => decide (idx.indexMint = addr 1) && decide (w.supply (addr 1) = 0) &&
      endsIn (process localnet w tradeAccounts
        (.issue 3 [2000000000000000000, 2000000000000000000])) (fun w₁ =>
          endsIn (process localnet w₁ tradeAccounts
            (.issue 4 [2000000000000000000, 2000000000000000000])) fun w' =>
              decide (w'.supply (addr 1) = 9)) &&
      endsIn (process localnet w tradeAccounts
        (.issue 7 [2000000000000000000, 2000000000000000000])) fun w'' =>
          decide (w''.supply (addr 1) = 8))
    (by decide +kernel)
  simp only [Bool.and_eq_true, decide_eq_true_eq] at hp
  obtain ⟨⟨⟨hm, hS⟩, hsplit⟩, hwhole⟩ := hp
  obtain ⟨w₁, hw₁, hsplit⟩ := endsIn_iff.mp hsplit
  obtain ⟨w', hw', hS'⟩ := endsIn_iff.mp hsplit
  obtain ⟨w'', hw'', hS''⟩ := endsIn_iff.mp hwhole
  rw [← hm] at hS
  have hS₁ := of_decide_eq_true hS'
  have hS₂ := of_decide_eq_true hS''
  rw [← hm] at hS₁ hS₂
  have hrun : IssueRun localnet idx.indexMint w ([3] ++ [4]) w' :=
    .next (.first trade_signable hw₁ (congrArg some hm.symm)) trade_signable hw'
      (congrArg some hm.symm)
  have hdearer := split_issue_dearer hreach hidx hrun trade_signable (congrArg some hm.symm) rfl hw''
  exact ⟨w, w', w'', idx, hreach, hidx, hrun, hS, hS₁, hS₂, hdearer.1⟩

end Flock
