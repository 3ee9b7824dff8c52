import Flock.Legs
import Flock.Localnet

/-!
# A plan, sent whole

What goes first is an accrual, if the fee is worth it: it grows the supply, and
with it the targets, before the bids that were sized without it. Then comes the
closing of an expired auction, or the bids. `plan_goes_through_iff` says when
every action of a plan is accepted, in terms of what it is made from: the fee can be
delivered, and on every leg the sizes of its pairs, added up, keep to the target and
the cap at the supply the accrual leaves, and to the inventory.
-/

namespace Flock

open Outcome MachineInt

variable {ch : Chain} {m : Pubkey} {w w₁ w' : World} {idx : Index}
  {ata : Keeper.AssociatedTokens} {keeper : Pubkey} {input : Keeper.PlanInput}

/-! ## The keeper's side of the chain -/

/-- The keeper holds what it planned with, and no account it needs is frozen. -/
structure Equipped (ch : Chain) (ata : Keeper.AssociatedTokens) (keeper m : Pubkey) (w : World)
    (idx : Index) (inventory : List Int) : Prop where
  outsider : ch.Outsider keeper
  inventory : inventory = idx.components.map fun c => (w.amount (ata.address c.mint keeper) : Int)
  till : ∀ c ∈ idx.components, Till ata w c.mint keeper
  apart : ∀ c ∈ idx.components, ∀ d ∈ idx.components,
    ata.address c.mint keeper = ata.address d.mint keeper → c.mint = d.mint
  thawed : ∀ c ∈ idx.components, Thawed w (ch.vaultKey m c.mint)
  feeThawed : ∀ t, w.token? (ata.address m idx.feeRecipient) = some t → t.frozen = false

theorem Equipped.held (h : Equipped ch ata keeper m w idx input.inventory) (i : Nat) :
    0 ≤ input.inventory.getD i 0 ∧ input.inventory.getD i 0 < 2 ^ 64 := by
  rw [h.inventory, List.getD_eq_getElem?_getD, List.getElem?_map]
  cases idx.components[i]? with
  | none =>
    show (0 : Int) ≤ 0 ∧ (0 : Int) < 2 ^ 64
    decide
  | some c =>
    have hlt := w.amount_lt (ata.address c.mint keeper)
    show 0 ≤ (w.amount _ : Int) ∧ (w.amount _ : Int) < 2 ^ 64
    omega

/-- Before the first action the book shows the chain. -/
theorem Equipped.midway (h : Equipped ch ata keeper m w idx input.inventory)
    (hidx : w.index? (ch.indexKey m) = some idx) (hC : Custody ch m w idx) (hsound : w.Sound) :
    Midway ch ata keeper m idx w.clock (w.supply m) w (w.book ch m idx ata keeper) where
  record := ⟨idx, hidx, .refl idx, hC⟩
  clock := rfl
  sound := hsound
  supply := rfl
  thawed := h.thawed
  till := h.till
  apart := h.apart
  vault := fun hc => by simp only [World.book, hc]
  held := fun hc => by simp only [World.book, hc]

/-! ## The accrual -/

/-- The streaming fee an accrual mints now. -/
def World.feeDue (w : World) (m : Pubkey) (idx : Index) : Nat :=
  match w.mint? m with
  | some mi =>
    match streamingFeeTokens mi.supply idx.streamingFeeBps
      (saturatingSub w.clock idx.lastFeeAccrual) with
    | .ok owed => owed.toNat
    | .error _ => 0
  | none => 0

/-- The plan opens with an accrual. -/
def Keeper.PlanInput.Accrues (input : Keeper.PlanInput) : Prop :=
  input.snapshot.pendingFee ≥ input.policy.minAccrualTokens

instance (input : Keeper.PlanInput) : Decidable input.Accrues :=
  inferInstanceAs (Decidable (_ ≥ _))

/-- The supply the bids of a plan meet. -/
def World.supplyAtBids (w : World) (m : Pubkey) (idx : Index) (input : Keeper.PlanInput) : Nat :=
  if input.Accrues then w.supply m + w.feeDue m idx else w.supply m

/-- The fee has an account to go to, if it is collected and not zero. -/
def FeeDeliverable (w : World) (m : Pubkey) (idx : Index)
    (ata : Keeper.AssociatedTokens) (input : Keeper.PlanInput) : Prop :=
  input.Accrues → w.feeDue m idx ≠ 0 → ∃ t, w.token? (ata.address m idx.feeRecipient) = some t ∧
    t.mint = m ∧ t.owner = idx.feeRecipient

theorem planAccrual_actions : (Keeper.planAccrual input).actions
    = if input.Accrues then [.accrue input.snapshot.pendingFee] else [] := by
  unfold Keeper.planAccrual
  split
  next h =>
    rw [if_pos (show input.Accrues from h)]
    rfl
  next h =>
    rw [if_neg (show ¬ input.Accrues from h)]
    split <;> rfl

theorem World.feeDue_eq {mi : Mint} {owed : UInt64} (hmi : w.mint? m = some mi)
    (h : streamingFeeTokens mi.supply idx.streamingFeeBps
      (saturatingSub w.clock idx.lastFeeAccrual) = .ok owed) : w.feeDue m idx = owed.toNat := by
  rw [World.feeDue, hmi]
  dsimp only
  rw [h]

section Accrual

variable {snap : Sdk.IndexSnapshot} (hS : Seen ch m w idx snap)
include hS

theorem submit_accrue {pendingFee : Int} :
    Keeper.submit ch ata keeper snap (.accrue pendingFee) =
      (⟨ch.indexKey m, false⟩ :: ⟨m, false⟩ :: ⟨ata.address m idx.feeRecipient, false⟩ ::
        ⟨ch.token.id, false⟩ :: idx.components.map (fun c => ⟨ch.vaultKey m c.mint, false⟩),
        .accrueFees) := by
  obtain ⟨st, hacc⟩ := hS.account
  have hrecipient : snap.account.feeRecipient = idx.feeRecipient := by
    rw [hacc]
    rfl
  simp only [Keeper.submit, hS.vaultAccounts, hS.mint, hrecipient]

end Accrual

/-- An accrual moves no component, and leaves the book as it was. -/
theorem Accrued.midway {owed : UInt64} {inventory : List Int}
    (h : Accrued ch m idx w w₁ w' (ata.address m idx.feeRecipient) owed)
    (hnone : w.OpensNone w') (hC : Custody ch m w idx) (hsound : w.Sound)
    (hne : w.supply m ≠ 0 → ∀ c ∈ idx.components, c.mint ≠ m)
    (hkeeper : Equipped ch ata keeper m w idx inventory) :
    Midway ch ata keeper m idx w.clock (w.supply m + owed.toNat) w'
      (w.book ch m idx ata keeper) := by
  have hL := h.accrual.leg
  have hrec := h.accrual.record
  have hflow := hL.flow.trans (Flow.of_setIndex hrec (idx.refreshed ch m w₁ w.clock))
  -- the fee is of another mint than every component, or it is zero
  have hstill : ∀ c ∈ idx.components, ∀ k, (∃ t, w.token? k = some t ∧ t.mint = c.mint) →
      w'.amount k = w.amount k := by
    intro c hc k ht
    obtain ⟨t, ht, htm⟩ := ht
    have hk := hL.flow.amount k
    have hoff : (Pi.single (ata.address m idx.feeRecipient) (owed.toNat : ℤ) : Pubkey → ℤ) k = 0 := by
      by_cases h0 : w.supply m = 0
      · rw [h.accrual.owed_zero h0, UInt64.toNat_zero, Nat.cast_zero, Pi.single_zero, Pi.zero_apply]
      · exact h.accrual.off ht (htm ▸ hne h0 c hc)
    rw [h.world, World.amount_setIndex hrec]
    omega
  rw [← h.world] at hflow
  exact {
    record := by
      refine ⟨idx.refreshed ch m w₁ w.clock, ?_, (Index.Refreshes.accrued idx w.clock).of_synced w₁,
        ((hC.of_flow hflow).accrued w.clock).synced w₁⟩
      rw [h.world]
      exact World.index?_setIndex_self _
    clock := hflow.clock
    sound := hflow.sound hsound
    supply := by
      have hsupply := hL.supply
      rw [h.world, World.supply_setIndex hrec]
      omega
    thawed := fun c hc => (hkeeper.thawed c hc).of_flow hflow
    till := fun c hc => (hkeeper.till c hc).of_flow hflow hnone
    apart := hkeeper.apart
    vault := by
      intro i c hc
      obtain ⟨t, ht, htm, -⟩ := hC.vaults c (List.mem_of_getElem? hc)
      simp only [World.book, hc]
      exact hstill c (List.mem_of_getElem? hc) _ ⟨t, ht, htm⟩
    held := by
      intro i c hc
      simp only [World.book, hc]
      rcases hkeeper.till c (List.mem_of_getElem? hc) with ⟨t, ht, htm, -⟩ | ⟨hempty, -⟩
      · exact hstill c (List.mem_of_getElem? hc) _ ⟨t, ht, htm⟩
      · rw [World.amount_of_empty hempty, World.amount_of_empty (hnone _ hempty)] }

section Accrual

variable {snap : Sdk.IndexSnapshot} {pendingFee : Int} {inventory : List Int}
  (hS : Seen ch m w idx snap) (hidx : w.index? (ch.indexKey m) = some idx)
  (hC : Custody ch m w idx) (hsound : w.Sound)
  (hkeeper : Equipped ch ata keeper m w idx inventory)
include hS hidx hC hsound hkeeper

/-- An accrual that was accepted found the fee an account. -/
theorem accrue_taken (hne : w.supply m ≠ 0 → ∀ c ∈ idx.components, c.mint ≠ m)
    (h : Keeper.send ch ata keeper snap w (.accrue pendingFee) = .ok w') :
    (w.feeDue m idx ≠ 0 → ∃ t, w.token? (ata.address m idx.feeRecipient) = some t ∧
      t.mint = m ∧ t.owner = idx.feeRecipient) ∧
      Midway ch ata keeper m idx w.clock (w.supply m + w.feeDue m idx) w'
        (w.book ch m idx ata keeper) := by
  unfold Keeper.send at h
  rw [submit_accrue hS] at h
  obtain ⟨idx₁, w₁, owed, hidx₁, hA, hnone⟩ := accrueFees_accrued (m := m) rfl h
    fun h₁ => Option.some.inj (hidx.symm.trans h₁) ▸ hC
  obtain rfl := Option.some.inj (hidx.symm.trans hidx₁)
  obtain ⟨mi, hmi, hfee⟩ := hA.accrual.fee
  rw [World.feeDue_eq hmi hfee]
  refine ⟨fun h0 => hA.accrual.account ?_, hA.midway hnone hC hsound hne hkeeper⟩
  intro he
  rw [he, UInt64.toNat_zero] at h0
  exact h0 rfl

/-- With an account for the fee, an accrual is refused for an excused reason only. -/
theorem accrue_refused (hsealed : idx.state ≠ stateBootstrapping)
    (hroom : w.supply m + w.feeDue m idx < 2 ^ 64)
    (hfee : w.feeDue m idx ≠ 0 → ∃ t, w.token? (ata.address m idx.feeRecipient) = some t ∧
      t.mint = m ∧ t.owner = idx.feeRecipient) :
    Only (Custom Excused) (Keeper.send ch ata keeper snap w (.accrue pendingFee)) := by
  unfold Keeper.send
  rw [submit_accrue hS]
  refine accrueFees_only (m := m) (.inl rfl) rfl rfl hidx hC ?_ hsound rfl hsealed ?_
  · rw [Index.vaultKeys, List.map_map]
    rfl
  · intro mi owed hmi howed h0
    rw [World.feeDue_eq hmi howed] at hroom hfee
    rw [World.supply_of_mint? hmi] at hroom
    obtain ⟨t, ht, htm, hto⟩ := hfee fun e => h0 (UInt64.toNat_inj.mp (by rw [e, UInt64.toNat_zero]))
    exact ⟨hroom, t, ht, htm, hto, hkeeper.feeThawed t ht⟩

end Accrual

/-! ## The auction -/

/-- Once its window is over nothing is bid. -/
theorem soleBids_of_expired
    (h : input.snapshot.account.rebalance.endTs < input.now) : Keeper.soleBids input = [] := by
  unfold Keeper.soleBids
  dsimp only
  split
  next =>
    have hprem : ∀ a b c d, d < input.now →
        Sdk.premiumAt a b c d input.now = .error .auctionNotOpen := by
      intro a b c d hlate
      rw [Sdk.premiumAt, if_pos (.inr hlate)]
    rw [hprem _ _ _ _ h]
  next => rfl

/-- Anybody closes an auction whose window is over. -/
theorem Midway.end_refused {w₀ : World} {snap : Sdk.IndexSnapshot} {now : Int64} {S : Nat}
    {book : Book} (hM : Midway ch ata keeper m idx now S w book)
    (hS : Seen ch m w₀ idx snap) (hact : idx.rebalance.active ≠ 0)
    (hlate : idx.rebalance.endTs < now) :
    Only (Custom Excused) (Keeper.send ch ata keeper snap w .endExpired) := by
  obtain ⟨idx', hidx', href, hC'⟩ := hM.record
  unfold Keeper.send
  simp only [Keeper.submit, hS.vaultAccounts, hS.mint]
  refine endRebalance_only (m := m) (.inl rfl) rfl rfl hidx' hC' ?_ rfl ?_ ?_
  · rw [href.vaultKeys, List.map_map]
    rfl
  · rwa [href.rebalance]
  · rwa [href.rebalance, hM.clock]

section Plan

variable {w₀ : World} {p : Keeper.Plan} (hS : Seen ch m w₀ idx input.snapshot)
  (hnow : input.now = w₀.clock.toInt) (hlive : idx.state = stateLive)
  (hlen : idx.components.length ≤ maxComponents)
  (horder : idx.rebalance.active ≠ 0 → AuctionInOrder idx)
  (hshare : 0 ≤ input.policy.maxLegShareBps ∧ input.policy.maxLegShareBps ≤ 10000)
  (hkeeper : Equipped ch ata keeper m w₀ idx input.inventory)
include hS hnow hlive hlen horder hshare hkeeper

/-- What a plan does after the accrual: it goes through, excuses apart, exactly
when the bids fit the book. -/
theorem Midway.auction {S : Nat} {book : Book}
    (hM : Midway ch ata keeper m idx w₀.clock S w book) :
    (∀ w', Replay.run (Keeper.send ch ata keeper input.snapshot) w
        (Keeper.auctionActions input) = .ok w' →
      Replay.Fits (Book.Admits idx S) Book.after book (Keeper.soleBids input)) ∧
    (Replay.Fits (Book.Admits idx S) Book.after book (Keeper.soleBids input) →
      Only (Custom Excused) (Replay.run (Keeper.send ch ata keeper input.snapshot) w
        (Keeper.auctionActions input))) := by
  have hbooks : Replay.Books (Keeper.send ch ata keeper input.snapshot)
      (Book.Admits idx S) Book.after (Midway ch ata keeper m idx w₀.clock S)
      (Sole ch m w₀ idx input.inventory w₀.clock) (Custom Excused) :=
    midway_books hS hkeeper.outsider hlive hlen horder fun i => (hkeeper.held i).2
  have hsole : ∀ a ∈ Keeper.soleBids input, Sole ch m w₀ idx input.inventory w₀.clock a := by
    intro a ha
    rw [Sole, ← hnow]
    exact soleBids_offered hS hshare (fun i => (hkeeper.held i).1) horder ha
  unfold Keeper.auctionActions
  split
  next hexpired =>
    rw [soleBids_of_expired hexpired.2]
    refine ⟨fun _ _ => trivial, fun _ => ?_⟩
    obtain ⟨hone, hlate⟩ := hexpired
    rw [hS.rebalance] at hone hlate
    refine bind_only (hM.end_refused hS ?_ ?_) fun w₁ _ => only_ok _ w₁
    · rw [of_decide_eq_true hone]
      decide
    · rw [hnow] at hlate
      exact Int64.lt_iff_toInt_lt.mpr hlate
  next => exact ⟨fun w' h => hbooks.run_ok hM hsole h, hbooks.run_only hM hsole⟩

end Plan

/-- Excuses apart, every action of a plan is accepted exactly when the fee, if
collected, can be delivered, and the bids fit the book at the supply it leaves. -/
theorem plan_accepted_iff (h : Reachable ch w) {k : Pubkey} (hidx : w.index? k = some idx)
    (hlive : idx.state = stateLive) {asOf : Int}
    (hsnap : Sdk.snapshot ch w idx.indexMint asOf = .ok input.snapshot)
    (hnow : input.now = w.clock.toInt)
    (hshare : 0 ≤ input.policy.maxLegShareBps ∧ input.policy.maxLegShareBps ≤ 10000)
    (hkeeper : Equipped ch ata keeper idx.indexMint w idx input.inventory)
    {p : Keeper.Plan} (hplan : Keeper.plan input = .ok p)
    (hroom : input.Accrues → w.supply idx.indexMint + w.feeDue idx.indexMint idx < 2 ^ 64)
    (hexcuse : ∀ e, Custom Excused e →
      Replay.run (Keeper.send ch ata keeper input.snapshot) w p.actions ≠ .error e) :
    Succeeds (Replay.run (Keeper.send ch ata keeper input.snapshot) w p.actions) ↔
      FeeDeliverable w idx.indexMint idx ata input ∧
        Replay.Fits (Book.Admits idx (w.supplyAtBids idx.indexMint idx input)) Book.after
          (w.book ch idx.indexMint idx ata keeper) (Keeper.soleBids input) := by
  obtain ⟨hW, hsound⟩ := reachable_wf h
  obtain ⟨rfl, hwf⟩ := hW hidx
  have hC := hwf.custody
  have hS := hwf.seen hidx hsnap
  have horder := reachable_orderly h hC.inUse hidx
  have hne := h.mint_ne hC.inUse hidx
  have hsealed : idx.state ≠ stateBootstrapping := by
    rw [hlive]
    decide
  have hacts := Keeper.plan_actions hplan
  rw [planAccrual_actions] at hacts
  unfold FeeDeliverable World.supplyAtBids
  by_cases hac : input.Accrues
  · rw [if_pos hac, List.singleton_append] at hacts
    rw [hacts] at hexcuse ⊢
    rw [if_pos hac]
    constructor
    · intro hrun
      obtain ⟨w', hrun⟩ := hrun
      obtain ⟨w₁, hsend, hrest⟩ := bind_ok_iff.mp hrun
      obtain ⟨hfee, hM⟩ := accrue_taken hS hidx hC hsound hkeeper hne hsend
      exact ⟨fun _ => hfee, (hM.auction hS hnow hlive hwf.room horder hshare hkeeper).1 w' hrest⟩
    · intro hok
      obtain ⟨hfee, hfits⟩ := hok
      refine Only.succeeds (bind_only (accrue_refused hS hidx hC hsound hkeeper hsealed (hroom hac)
        (hfee hac)) fun w₁ hw₁ => ?_) hexcuse
      obtain ⟨-, hM⟩ := accrue_taken hS hidx hC hsound hkeeper hne hw₁
      exact (hM.auction hS hnow hlive hwf.room horder hshare hkeeper).2 hfits
  · rw [if_neg hac, List.nil_append] at hacts
    rw [hacts] at hexcuse ⊢
    rw [if_neg hac]
    have hM := (hkeeper.midway hidx hC hsound).auction hS hnow hlive hwf.room horder hshare hkeeper
    constructor
    · intro hrun
      obtain ⟨w', hrun⟩ := hrun
      exact ⟨fun h => absurd h hac, hM.1 w' hrun⟩
    · intro hok
      exact (hM.2 hok.2).succeeds hexcuse

/-- Excuses apart, every action of a plan is accepted exactly when the fee, if
collected, can be delivered, and every leg keeps to its target, its cap and the
inventory at the supply the accrual leaves: all that the pairs of the leg are sized
to on their own, at the snapshot's supply, fits together. -/
theorem plan_goes_through_iff (h : Reachable ch w) {k : Pubkey} (hidx : w.index? k = some idx)
    (hlive : idx.state = stateLive) {asOf : Int}
    (hsnap : Sdk.snapshot ch w idx.indexMint asOf = .ok input.snapshot)
    (hnow : input.now = w.clock.toInt)
    (hshare : 0 ≤ input.policy.maxLegShareBps ∧ input.policy.maxLegShareBps ≤ 10000)
    (hkeeper : Equipped ch ata keeper idx.indexMint w idx input.inventory)
    {p : Keeper.Plan} (hplan : Keeper.plan input = .ok p)
    (hroom : input.Accrues → w.supply idx.indexMint + w.feeDue idx.indexMint idx < 2 ^ 64)
    (hexcuse : ∀ e, Custom Excused e →
      Replay.run (Keeper.send ch ata keeper input.snapshot) w p.actions ≠ .error e) :
    Succeeds (Replay.run (Keeper.send ch ata keeper input.snapshot) w p.actions) ↔
      FeeDeliverable w idx.indexMint idx ata input ∧
        ∀ i c, idx.components[i]? = some c →
          w.LegFits ch idx.indexMint idx input (w.supplyAtBids idx.indexMint idx input) i c := by
  rw [plan_accepted_iff h hidx hlive hsnap hnow hshare hkeeper hplan hroom hexcuse]
  obtain ⟨rfl, hwf⟩ := (reachable_wf h).1 hidx
  rw [fits_soleBids_iff (hwf.seen hidx hsnap) (reachable_orderly h hwf.custody.inUse hidx) hshare
    (fun i => (hkeeper.held i).1) hkeeper.inventory]

/-- Without an accrual in front, the first bid always fits: the keeper bids for
what is there, and what it can pay for. -/
theorem first_bid_fits {inventory : List Int} {now : Int64} {action : Keeper.Action}
    (h : Sole ch m w idx inventory now action)
    (hkeeper : Equipped ch ata keeper m w idx inventory) :
    (w.book ch m idx ata keeper).Admits idx (w.supply m) action := by
  obtain ⟨s, b, x, y, premium, edge, -, -, rfl, hoffer⟩ := h
  obtain ⟨sell, buy, hsell, hbuy, -, hexcess, hroom⟩ := hoffer.legs
  have hheld := hoffer.held
  rw [hkeeper.inventory, List.getD_eq_getElem?_getD, List.getElem?_map, hbuy] at hheld
  refine ⟨sell, buy, hsell, hbuy, ?_, ?_, ?_⟩
  · simp only [World.book, hsell]
    exact hexcess
  · simp only [World.book, hbuy]
    exact hroom
  · simp only [World.book, hbuy]
    exact Int.ofNat_le.mp hheld

/-! ## A holder of the local fund keeps it -/

/-- The token accounts of the local fund, by mint and owner. -/
def localTokens (mint owner : Pubkey) : Pubkey :=
  if owner = addr 41 then addr 30
  else if mint = addr 2 then addr 21
  else if mint = addr 3 then addr 22
  else addr 20

def localCreate (w : World) (mint owner : Pubkey) : Except ProgramError World :=
  match w.accounts (localTokens mint owner) with
  | .token t => if t.mint = mint ∧ t.owner = owner then pure w else .error (.cpi 3)
  | .empty => do
    failIf (w.mint? mint).isNone (.cpi 2)
    pure (w.set (localTokens mint owner)
      (.token { mint, owner, amount := 0, delegate := none, frozen := false }))
  | _ => .error (.cpi 6)

theorem localCreate_ok {mint owner : Pubkey} (h : localCreate w mint owner = .ok w') :
    ((∃ t, w.token? (localTokens mint owner) = some t ∧ t.mint = mint ∧ t.owner = owner) ∧
        w' = w) ∨
      (w.accounts (localTokens mint owner) = .empty ∧ w' = w.set (localTokens mint owner)
        (.token { mint, owner, amount := 0, delegate := none, frozen := false })) := by
  unfold localCreate at h
  split at h
  next t ht =>
    split at h
    next heq => exact .inl ⟨⟨t, by rw [World.token?, ht], heq⟩, (pure_ok_iff.mp h).symm⟩
    next => cases h
  next hempty =>
    obtain ⟨-, -, h⟩ := bind_ok_iff.mp h
    exact .inr ⟨hempty, (pure_ok_iff.mp h).symm⟩
  next => cases h

theorem localCreate_accepts {mint owner : Pubkey}
    (h : (∃ t, w.token? (localTokens mint owner) = some t ∧ t.mint = mint ∧ t.owner = owner) ∨
      (w.accounts (localTokens mint owner) = .empty ∧ ∃ mi, w.mint? mint = some mi)) :
    Succeeds (localCreate w mint owner) := by
  unfold localCreate
  rcases h with ⟨t, ht, heq⟩ | ⟨hempty, mi, hmi⟩
  · rw [World.accounts_of_token? ht]
    dsimp only
    rw [if_pos heq]
    exact succeeds_ok w
  · rw [hempty]
    dsimp only
    rw [hmi]
    exact succeeds_ok _

def localAssociated : Keeper.AssociatedTokens where
  address := localTokens
  createIdempotent := localCreate
  create_ok := localCreate_ok
  create_accepts := localCreate_accepts

/-- The market prices of the local fund, when they are the reference ones. -/
def localPrices : List Int := [1000000000, 30000000000]

/-- Bidding at most this share of a leg, and the defaults. -/
def sharePolicy (share : Int) : Keeper.KeeperPolicy :=
  { Keeper.defaultPolicy with maxLegShareBps := share }

/-- What holder 40 plans under a policy, at these market prices. -/
def localPlan (policy : Keeper.KeeperPolicy) (prices : List Int)
    (p : Keeper.PlanInput → Keeper.Plan → Bool) (w : World) : Bool :=
  match Sdk.snapshot localnet w (addr 1) w.clock.toInt with
  | .ok snapshot =>
    let input : Keeper.PlanInput :=
      { snapshot
        marketPricesE9 := prices
        now := w.clock.toInt
        policy
        inventory := [w.amount (addr 21), w.amount (addr 22)] }
    match Keeper.plan input with
    | .ok plan => p input plan
    | .error _ => false
  | .error _ => false

theorem localPlan_iff {policy : Keeper.KeeperPolicy} {prices : List Int}
    {p : Keeper.PlanInput → Keeper.Plan → Bool} (h : localPlan policy prices p w = true) :
    ∃ (input : Keeper.PlanInput) (plan : Keeper.Plan),
      Sdk.snapshot localnet w (addr 1) w.clock.toInt = .ok input.snapshot ∧
      input.now = w.clock.toInt ∧ input.policy = policy ∧ input.marketPricesE9 = prices ∧
      Keeper.plan input = .ok plan ∧ p input plan = true := by
  unfold localPlan at h
  split at h
  next snapshot hsnap =>
    dsimp only at h
    split at h
    next plan hplan => exact ⟨_, plan, hsnap, rfl, rfl, rfl, hplan, h⟩
    next => cases h
  next => cases h

/-- Holder 40 is equipped for a plan. -/
def localEquipped (w : World) (idx : Index) (inventory : List Int) : Bool :=
  decide (inventory
      = idx.components.map fun c => (w.amount (localTokens c.mint (addr 40)) : Int)) &&
    decide (∀ c ∈ idx.components, Purse w (localTokens c.mint (addr 40)) c.mint (addr 40)) &&
    decide (∀ c ∈ idx.components, Thawed w (localnet.vaultKey (addr 1) c.mint)) &&
    decide (Thawed w (localTokens (addr 1) idx.feeRecipient))

theorem localEquipped_iff {inventory : List Int} (h : localEquipped w idx inventory = true) :
    Equipped localnet localAssociated (addr 40) (addr 1) w idx inventory := by
  simp only [localEquipped, Bool.and_eq_true, decide_eq_true_eq] at h
  obtain ⟨⟨⟨hinventory, hpurse⟩, hthawed⟩, hfee⟩ := h
  exact {
    outsider := localnet_outsider (by decide)
    inventory := hinventory
    till := fun c hc => .inl (hpurse c hc)
    apart := by
      intro c hc d hd he
      -- one account is of one mint
      obtain ⟨t, ht, htm, -⟩ := hpurse c hc
      obtain ⟨t', ht', htm', -⟩ := hpurse d hd
      rw [show localTokens c.mint (addr 40) = localTokens d.mint (addr 40) from he, ht',
        Option.some.injEq] at ht
      rw [← htm, ← ht, htm']
    thawed := hthawed
    feeThawed := by
      intro t ht
      obtain ⟨t', ht', hf⟩ := hfee
      rw [show w.token? (localTokens (addr 1) idx.feeRecipient) = some t from ht,
        Option.some.injEq] at ht'
      rw [ht', hf] }

/-- The run that ends in an open auction with a fee pending. -/
def localAuction : List Act :=
  openFund ⟨100, 0, 0, 100⟩ 2000000 333333333 ++ [localIssue 12500000000000,
    localPropose 2100000 330000000 1000000000 30000000000 100 100, .tick 300]

/-- A plan of an accrual and a bid for half of the excess goes through. -/
theorem plan_goes_through_local : ∃ (w : World) (idx : Index) (input : Keeper.PlanInput)
    (p : Keeper.Plan), Reachable localnet w ∧ w.index? localIndex = some idx ∧
    p.actions.length = 2 ∧
    (Succeeds (Replay.run (Keeper.send localnet localAssociated (addr 40) input.snapshot) w
        p.actions) ↔
      FeeDeliverable w idx.indexMint idx localAssociated input ∧
        ∀ i c, idx.components[i]? = some c → w.LegFits localnet idx.indexMint idx input
          (w.supplyAtBids idx.indexMint idx input) i c) := by
  obtain ⟨w, idx, hreach, hidx, hp⟩ := exists_of_run localAuction
    (fun w idx => decide (idx.indexMint = addr 1 ∧ idx.state = stateLive ∧
        w.supply (addr 1) + w.feeDue (addr 1) idx < 2 ^ 64) &&
      localPlan (sharePolicy 5000) localPrices (fun input p => localEquipped w idx input.inventory &&
        decide (p.actions.length = 2) &&
        endsIn (Replay.run (Keeper.send localnet localAssociated (addr 40) input.snapshot) w
          p.actions) fun _ => true) w)
    (by decide +kernel)
  simp only [Bool.and_eq_true, decide_eq_true_eq] at hp
  obtain ⟨⟨hm, hlive, hroom⟩, hp⟩ := hp
  obtain ⟨input, p, hsnap, hnow, hpolicy, -, hplan, hp⟩ := localPlan_iff hp
  simp only [Bool.and_eq_true, decide_eq_true_eq] at hp
  obtain ⟨⟨hequipped, hlen⟩, hdone⟩ := hp
  obtain ⟨w', hrun, -⟩ := endsIn_iff.mp hdone
  rw [← hm] at hsnap hroom
  have hkeeper := localEquipped_iff hequipped
  rw [← hm] at hkeeper
  refine ⟨w, idx, input, p, hreach, hidx, hlen, ?_⟩
  refine plan_goes_through_iff hreach hidx hlive hsnap hnow ?_ hkeeper hplan (fun _ => hroom) ?_
  · rw [hpolicy]
    decide
  · intro e _ he
    rw [hrun] at he
    cases he

/-- With the default policy the same keeper plans the same accrual and a bid for
all of the excess, and the accrual takes some of the excess away. -/
theorem plan_spoils_itself : ∃ (w : World) (idx : Index) (input : Keeper.PlanInput)
    (p : Keeper.Plan), Reachable localnet w ∧ w.index? localIndex = some idx ∧
    idx.state = stateLive ∧
    Sdk.snapshot localnet w idx.indexMint w.clock.toInt = .ok input.snapshot ∧
    input.now = w.clock.toInt ∧ input.policy = Keeper.defaultPolicy ∧
    Equipped localnet localAssociated (addr 40) idx.indexMint w idx input.inventory ∧
    Keeper.plan input = .ok p ∧ p.actions.length = 2 ∧
    Replay.run (Keeper.send localnet localAssociated (addr 40) input.snapshot) w p.actions
      = .error (.custom .sellAmountExceedsExcess) := by
  obtain ⟨w, idx, hreach, hidx, hp⟩ := exists_of_run localAuction
    (fun w idx => decide (idx.indexMint = addr 1 ∧ idx.state = stateLive) &&
      localPlan Keeper.defaultPolicy localPrices (fun input p => localEquipped w idx input.inventory &&
        decide (p.actions.length = 2) &&
        failsWith (Replay.run (Keeper.send localnet localAssociated (addr 40) input.snapshot) w
          p.actions) (.custom .sellAmountExceedsExcess)) w)
    (by decide +kernel)
  simp only [Bool.and_eq_true, decide_eq_true_eq] at hp
  obtain ⟨⟨hm, hlive⟩, hp⟩ := hp
  obtain ⟨input, p, hsnap, hnow, hpolicy, -, hplan, hp⟩ := localPlan_iff hp
  simp only [Bool.and_eq_true, decide_eq_true_eq] at hp
  obtain ⟨⟨hequipped, hlen⟩, hfails⟩ := hp
  have hkeeper := localEquipped_iff hequipped
  rw [← hm] at hsnap hkeeper
  exact ⟨w, idx, input, p, hreach, hidx, hlive, hsnap, hnow, hpolicy, hkeeper, hplan, hlen,
    failsWith_iff.mp hfails⟩

end Flock
