import Flock.PerToken

/-!
# The first issuance

A sealed index without supply has a recipe and nothing behind it. Whoever issues
first delivers the recipe rounded up per component, and the units are then
quoted from what was delivered. `first_issue_composition` says what that makes
of the recipe: nothing, from one whole token on; below that the recipe is lifted
by what the rounding is worth on so small a supply.
-/

namespace Flock

open Outcome MachineInt

variable {ch : Chain} {m : Pubkey} {w w₁ w' : World} {idx : Index}

/-- A first issuance of `g` base units in all wrote `c'` over the recipe `c`. -/
structure Seeded (g : Nat) (c c' : Component) : Prop where
  mint : c'.mint = c.mint
  le : c.units.toNat ≤ c'.units.toNat
  lift : c'.units.toNat * g < c.units.toNat * g + unitScale
  within_one : c'.units.toNat ≤ c.units.toNat + 1 ↔
    (c.units.toNat * g) ⌈/⌉ unitScale * unitScale < (c.units.toNat + 2) * g
  whole : unitScale ≤ g → c'.units = c.units

/-- The quote of a vault that holds the first delivery and nothing else. -/
theorem seeded_of_founded {g : Nat} {c c' : Component} (hg : 0 < g) (hm : c'.mint = c.mint)
    (hu : c'.units.toNat = Pool.rate unitScale (Pool.founded unitScale c.units.toNat g)) :
    Seeded g c c' where
  mint := hm
  le := by
    rw [hu]
    exact Pool.le_rate_founded unitScale_pos hg
  lift := by
    rw [hu]
    exact Pool.rate_founded_mul_lt unitScale_pos g
  within_one := by
    rw [hu]
    exact Pool.rate_founded_le_iff hg
  whole := by
    intro hwhole
    rw [← UInt64.toNat_inj, hu]
    exact Pool.rate_founded_eq unitScale_pos hwhole

section FirstIssue

variable {amount owed fee gross : UInt64} {maxIn : List UInt64} {userIndexAta feeAta : Pubkey}
  (h : Issued ch m idx w w₁ w' amount maxIn userIndexAta feeAta owed fee gross)
  (hS : w.supply m = 0)
include h hS

/-- There is nothing to derive units from, so the recipe stands. -/
theorem Issued.recipe : (idx.refreshed ch m w₁ w.clock).components = idx.components := by
  have hsup := h.accrual.leg.supply
  rw [h.accrual.owed_zero hS, UInt64.toNat_zero] at hsup
  have hS₁ : w₁.supply m = 0 := by omega
  rw [Index.refreshed, Index.synced, if_pos hS₁]
  rfl

theorem Issued.first_supply : w'.supply m = idx.grossIssue amount := by
  have hsup₁ := h.accrual.leg.supply
  rw [h.accrual.owed_zero hS, UInt64.toNat_zero] at hsup₁
  obtain ⟨dA, hl⟩ := h.leg
  have hsup := hl.supply
  rw [Index.grossIssue, ← h.fee_eq, ← h.gross_eq]
  omega

/-- The pool the first delivery makes of an empty vault. -/
theorem Issued.founded (hC : Custody ch m w idx) {c : Component} (hc : c ∈ idx.components)
    (hempty : w.vault ch m c = 0) (hne : c.mint ≠ m) :
    w'.pool ch m c = Pool.founded unitScale c.units.toNat (idx.grossIssue amount) := by
  have hB₁ : w₁.vault ch m c = 0 :=
    (congrArg Pool.State.assets (h.accrual.still (h.accrual.owed_zero hS) c)).trans hempty
  have hgross : gross.toNat = idx.grossIssue amount := by
    rw [h.gross_eq, h.fee_eq, Index.grossIssue]
  have hvault := h.vault_eq hC (h.recipe hS ▸ hc) hne
  rw [hB₁, Nat.zero_add, Component.required, hgross] at hvault
  rw [World.pool, hvault, h.first_supply hS, Pool.founded]

end FirstIssue

/-- Whatever the first issuance of an index is, it leaves every component at its
recipe or above, and above by no more than the rounding of the delivery is worth
on the issued supply. -/
theorem first_issue_composition (h : Reachable ch w) {k : Pubkey} (hidx : w.index? k = some idx)
    (hS : w.supply idx.indexMint = 0)
    (hempty : ∀ c ∈ idx.components, w.vault ch idx.indexMint c = 0)
    {accounts : List AccountInfo} (signable : Signable ch accounts) {amount : UInt64}
    {maxIn : List UInt64} (hdone : process ch w accounts (.issue amount maxIn) = .ok w')
    (hcon : Concerns idx.indexMint accounts (.issue amount maxIn)) :
    ∃ idx', w'.index? k = some idx' ∧
      List.Forall₂ (Seeded (idx.grossIssue amount)) idx.components idx'.components := by
  obtain ⟨hW, hsound⟩ := reachable_wf h
  obtain ⟨rfl, hwf⟩ := hW hidx
  have hm := hwf.custody.inUse
  rcases AllWf.call_cases (fun {k idx} => hW) hm signable hdone with heff | ⟨hne, -⟩
  swap
  · exact absurd hcon hne
  cases heff with
  | issue key before done =>
    obtain rfl := Option.some.inj (hidx.symm.trans before)
    have hmint := done.mint_ne hwf.custody hsound (reachable_unissued h hm hidx)
    refine ⟨_, done.record, ?_⟩
    have hpos : 0 < idx.grossIssue amount := by
      have := done.positive
      unfold Index.grossIssue
      omega
    have hsup := done.first_supply hS
    have hS' : w'.supply idx.indexMint ≠ 0 := by omega
    rw [Index.synced, if_neg hS', List.forall₂_map_right_iff, done.recipe hS, List.forall₂_same]
    intro c hc
    refine seeded_of_founded hpos rfl ?_
    rw [← done.founded hS hwf.custody hc (hempty c hc) (hmint c hc)]
    exact toNat_unitsOf hS' (done.fits' c hc)

/-- The local holder issues `amount` of an index nobody has issued before. -/
def seedsTo (amount : UInt64) (p : Index → Index → Bool) (w : World) (idx : Index) : Bool :=
  decide (idx.indexMint = addr 1) && decide (w.supply (addr 1) = 0) &&
    (idx.components.all fun c => decide (w.vault localnet (addr 1) c = 0)) &&
    endsIn (process localnet w tradeAccounts
      (.issue amount [2000000000000000000, 2000000000000000000]))
      fun w' => indexPasses (fun _ idx' => p idx idx') w'

theorem seedsTo_iff {amount : UInt64} {p : Index → Index → Bool} :
    seedsTo amount p w idx = true ↔ idx.indexMint = addr 1 ∧ w.supply (addr 1) = 0 ∧
      (∀ c ∈ idx.components, w.vault localnet (addr 1) c = 0) ∧
      ∃ w' idx', process localnet w tradeAccounts
          (.issue amount [2000000000000000000, 2000000000000000000]) = .ok w' ∧
        w'.index? localIndex = some idx' ∧ p idx idx' = true := by
  unfold seedsTo
  simp [endsIn_iff, indexPasses_iff, and_assoc]

/-- Five whole tokens, less the fee on them, leave the recipe as it was. -/
theorem first_issue_composition_local : ∃ (w w' : World) (idx idx' : Index),
    Reachable localnet w ∧ w.index? localIndex = some idx ∧ w'.index? localIndex = some idx' ∧
    w.supply idx.indexMint = 0 ∧ idx.components ≠ [] ∧
    List.Forall₂ (Seeded (idx.grossIssue 5000000000)) idx.components idx'.components := by
  obtain ⟨w, idx, hreach, hidx, hp⟩ := exists_of_run (openFund ⟨100, 30, 0, 100⟩ 2000000 333333333)
    (seedsTo 5000000000 fun idx _ => decide (idx.components ≠ []))
    (by decide +kernel)
  obtain ⟨hm, hS, hempty, w', idx', hdone, hidx', hp⟩ := seedsTo_iff.mp hp
  rw [← hm] at hS hempty
  obtain ⟨i, hi, hseeded⟩ :=
    first_issue_composition hreach hidx hS hempty trade_signable hdone (congrArg some hm.symm)
  obtain rfl := Option.some.inj (hidx'.symm.trans hi)
  exact ⟨w, w', idx, idx', hreach, hidx, hidx', hS, of_decide_eq_true hp, hseeded⟩

/-- Whoever issues one base unit first delivers one base unit of every component,
and the recipe for a whole token becomes a thousand million of each. -/
theorem first_issue_rewrites_recipe : ∃ (w w' : World) (idx idx' : Index) (c c' : Component),
    Reachable localnet w ∧ w.index? localIndex = some idx ∧ idx.state = stateLive ∧
    w.supply idx.indexMint = 0 ∧
    (∀ c ∈ idx.components, w.vault localnet idx.indexMint c = 0) ∧
    Signable localnet tradeAccounts ∧ process localnet w tradeAccounts
      (.issue 1 [2000000000000000000, 2000000000000000000]) = .ok w' ∧
    w'.index? localIndex = some idx' ∧ idx.components[0]? = some c ∧
    idx'.components[0]? = some c' ∧ c.units = 2000000 ∧ c'.units = 1000000000 ∧
    ¬ c'.units.toNat ≤ c.units.toNat + 1 := by
  obtain ⟨w, idx, hreach, hidx, hp⟩ := exists_of_run (openFund ⟨0, 0, 0, 100⟩ 2000000 333333333)
    (seedsTo 1 fun idx idx' => decide (idx.state = stateLive) &&
      decide (idx.components[0]?.map Component.units = some 2000000) &&
      decide (idx'.components[0]?.map Component.units = some 1000000000))
    (by decide +kernel)
  obtain ⟨hm, hS, hempty, w', idx', hdone, hidx', hp⟩ := seedsTo_iff.mp hp
  rw [← hm] at hS hempty
  simp only [Bool.and_eq_true, decide_eq_true_eq, Option.map_eq_some_iff] at hp
  obtain ⟨⟨hlive, c, hc, hu⟩, c', hc', hu'⟩ := hp
  refine ⟨w, w', idx, idx', c, c', hreach, hidx, hlive, hS, hempty, trade_signable, hdone, hidx',
    hc, hc', hu, hu', ?_⟩
  rw [hu, hu']
  decide

end Flock
