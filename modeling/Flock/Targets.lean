import Flock.Record
import Flock.Redemption
import Flock.SplitIssue

/-!
# Targets and units of an idle index

A component's target is written where its units are when it enters the table and
when an auction closes, and by a proposal. In between every trade and every
accrual derives the units again and leaves the target alone. So the targets of an
index with no auction on are its units just as long as what is derived is what
was stored. `HoldsUnits` says of a call, before it is made, that it is: the division
that gave the units left a remainder in every vault, and what the fee dilutes and a
trade is rounded by has to fit into it.
-/

namespace Flock

open Outcome MachineInt

variable {ch : Chain} {m : Pubkey} {w w₀ w₁ w' : World} {idx idx' : Index}

/-- With no auction on, the targets are the units. -/
def OnTarget (idx : Index) : Prop :=
  idx.rebalance.active = 0 → ∀ c ∈ idx.components, c.targetUnits = c.units

/-- The pool of a component with the streaming fee charged. -/
def World.charged (w : World) (ch : Chain) (m : Pubkey) (idx : Index) (c : Component) :
    Pool.State :=
  { shares := idx.grown w.clock (w.supply m), assets := w.vault ch m c }

/-- What the vault of a component holds over the target for every token there is, in units
of 10⁻⁹. While the units are the target it is the remainder that their division left. -/
def World.leftover (w : World) (ch : Chain) (m : Pubkey) (c : Component) : ℤ :=
  w.vault ch m c * unitScale - c.targetUnits.toNat * w.supply m

/-- The streaming fee due since the last accrual. -/
def Index.feeDue (idx : Index) (now : Int64) (supply : Nat) : Nat :=
  supply * (idx.streamingFeeBps.toNat * elapsed idx.lastFeeAccrual now) /
    (wholeYear - idx.streamingFeeBps.toNat * elapsed idx.lastFeeAccrual now)

/-- What of the remainder the fee leaves: each of its tokens takes the target. -/
def World.diluted (w : World) (ch : Chain) (m : Pubkey) (idx : Index) (c : Component) : ℤ :=
  w.leftover ch m c - c.targetUnits.toNat * idx.feeDue w.clock (w.supply m)

/-- By how many units the next accrual moves the quote off the target: by none, if the fee
leaves something of the remainder. -/
def World.drift (w : World) (ch : Chain) (m : Pubkey) (idx : Index) (c : Component) : ℤ :=
  w.diluted ch m idx c / (idx.grown w.clock (w.supply m) : ℤ)

/-- The units a trade goes by. -/
def World.tradeUnits (w : World) (ch : Chain) (m : Pubkey) (idx : Index) (c : Component) : Nat :=
  (c.targetUnits.toNat + w.drift ch m idx c).toNat

/-- What a payout of `net` tokens is rounded down by, or all of it where the account named
for it is the vault itself. -/
def World.unpaid (w : World) (ch : Chain) (m : Pubkey) (idx : Index) (net : Nat)
    (x : Component × AccountInfo × AccountInfo) : Nat :=
  if x.2.2.key = ch.vaultKey m x.1.mint then w.tradeUnits ch m idx x.1 * net
  else w.tradeUnits ch m idx x.1 * net % unitScale

/-- A remainder that makes no unit more of this supply, and none less. -/
def Within (left : ℤ) (supply : Nat) : Prop := 0 ≤ left ∧ left < supply

instance (left : ℤ) (supply : Nat) : Decidable (Within left supply) :=
  inferInstanceAs (Decidable (_ ∧ _))

/-- The remainders have room for the call: for the dilution of the streaming fee, and for
what a delivery or a payout is rounded by. An issue of tokens at units off the target also
brings the difference, and a redemption takes it. -/
def HoldsUnits (ch : Chain) (m : Pubkey) (w : World) (idx : Index) (accounts : List AccountInfo) :
    FlockInstruction → Prop
  | .issue amount _ => ∀ c ∈ idx.components,
      Within (w.diluted ch m idx c + w.drift ch m idx c * idx.grossIssue amount +
          Pool.priceDust unitScale (w.tradeUnits ch m idx c) (idx.grossIssue amount))
        (idx.grown w.clock (w.supply m) + idx.grossIssue amount)
  | .redeem amount _ => ∀ x ∈ idx.components.zip (pairs (accounts.drop 6)),
      if idx.grown w.clock (w.supply m) = idx.netOf amount.toNat then
        Within (w.diluted ch m idx x.1) (idx.grown w.clock (w.supply m))
      else
        Within (w.diluted ch m idx x.1 - w.drift ch m idx x.1 * idx.netOf amount.toNat +
            w.unpaid ch m idx (idx.netOf amount.toNat) x)
          (idx.grown w.clock (w.supply m) - idx.netOf amount.toNat)
  | .accrueFees => idx.grown w.clock (w.supply m) = 0 ∨ ∀ c ∈ idx.components,
      Within (w.diluted ch m idx c) (idx.grown w.clock (w.supply m))
  | _ => True

instance (ch : Chain) (m : Pubkey) (w : World) (idx : Index) (accounts : List AccountInfo) :
    (ix : FlockInstruction) → Decidable (HoldsUnits ch m w idx accounts ix)
  | .issue .. => inferInstanceAs (Decidable (∀ c ∈ idx.components, _))
  | .redeem .. => inferInstanceAs (Decidable (∀ x ∈ idx.components.zip _, _))
  | .accrueFees => inferInstanceAs (Decidable (_ ∨ _))
  | .initIndex .. | .addComponent .. | .sealIndex | .proposeRebalance .. | .bid .. | .endRebalance
  | .setParams .. | .setAuthority .. | .setPaused .. => inferInstanceAs (Decidable True)

/-! ## Remainders are margins -/

section Margins

variable (w : World) (ch : Chain) (m : Pubkey) (idx : Index) (c : Component)

/-- The remainder after the fee is the margin over the target, with the fee charged. -/
theorem World.diluted_eq :
    w.diluted ch m idx c = Pool.margin unitScale c.targetUnits.toNat (w.charged ch m idx c) :=
  (Pool.margin_dilute unitScale c.targetUnits.toNat (idx.feeDue w.clock (w.supply m))
    (w.pool ch m c)).symm

/-- The pool after the fee quotes the target when the diluted remainder has room for the
supply. -/
theorem World.charged_quotes_iff :
    Pool.Quotes unitScale c.targetUnits.toNat (w.charged ch m idx c) ↔
      Within (w.diluted ch m idx c) (idx.grown w.clock (w.supply m)) := by
  rw [Pool.quotes_iff_margin, ← World.diluted_eq]
  rfl

/-- With tokens outstanding the units of the next trade are the quote with the fee charged. -/
theorem World.rate_charged (hG : idx.grown w.clock (w.supply m) ≠ 0) :
    (Pool.rate unitScale (w.charged ch m idx c) : ℤ)
      = c.targetUnits.toNat + w.drift ch m idx c := by
  rw [World.drift, World.diluted_eq]
  exact Pool.rate_eq_add_margin (p := w.charged ch m idx c) (Nat.pos_of_ne_zero hG)

/-- The units of a trade are the target and the drift. -/
theorem World.tradeUnits_eq :
    (w.tradeUnits ch m idx c : ℤ) = c.targetUnits.toNat + w.drift ch m idx c := by
  refine Int.toNat_of_nonneg ?_
  by_cases hG : idx.grown w.clock (w.supply m) = 0
  · rw [World.drift, hG, Nat.cast_zero, Int.ediv_zero]
    omega
  · rw [← w.rate_charged ch m idx c hG]
    omega

/-- With tokens outstanding the units of a trade are the quote after the fee. -/
theorem World.tradeUnits_of_supply (hG : idx.grown w.clock (w.supply m) ≠ 0) :
    w.tradeUnits ch m idx c = Pool.rate unitScale (w.charged ch m idx c) := by
  have h := w.tradeUnits_eq ch m idx c
  rw [← w.rate_charged ch m idx c hG] at h
  exact_mod_cast h

/-- On no supply a trade goes by the target. -/
theorem World.tradeUnits_of_none (hG : idx.grown w.clock (w.supply m) = 0) :
    w.tradeUnits ch m idx c = c.targetUnits.toNat := by
  have h := w.tradeUnits_eq ch m idx c
  rw [World.drift, hG, Nat.cast_zero, Int.ediv_zero, add_zero] at h
  exact_mod_cast h

/-- The drift is what the units of a trade are over the target. -/
theorem World.drift_eq :
    w.drift ch m idx c = w.tradeUnits ch m idx c - c.targetUnits.toNat := by
  rw [World.tradeUnits_eq]
  omega

/-- The pool after an issue quotes the target. -/
theorem World.issue_quotes_iff (g : Nat) :
    Pool.Quotes unitScale c.targetUnits.toNat
        { shares := idx.grown w.clock (w.supply m) + g
          assets := w.vault ch m c + (w.tradeUnits ch m idx c * g) ⌈/⌉ unitScale } ↔
      Within (w.diluted ch m idx c + w.drift ch m idx c * g +
        Pool.priceDust unitScale (w.tradeUnits ch m idx c) g)
        (idx.grown w.clock (w.supply m) + g) := by
  have hmargin := Pool.margin_enter unitScale_pos c.targetUnits.toNat (w.tradeUnits ch m idx c) g
    (w.charged ch m idx c)
  rw [← World.diluted_eq, ← World.drift_eq] at hmargin
  rw [Pool.quotes_iff_margin, Within, ← hmargin]
  rfl

/-- The pool after a redemption quotes the target. -/
theorem World.redeem_quotes_iff {n : Nat} (hG : idx.grown w.clock (w.supply m) ≠ 0)
    (hn : n ≤ idx.grown w.clock (w.supply m)) (x : Component × AccountInfo × AccountInfo) :
    Pool.Quotes unitScale x.1.targetUnits.toNat
        { shares := idx.grown w.clock (w.supply m) - n
          assets := w.vault ch m x.1 - w.pays ch m (idx.grown w.clock (w.supply m)) n x } ↔
      Within (w.diluted ch m idx x.1 - w.drift ch m idx x.1 * n + w.unpaid ch m idx n x)
        (idx.grown w.clock (w.supply m) - n) := by
  have hunits := w.tradeUnits_of_supply ch m idx x.1 hG
  rw [Pool.quotes_iff_margin, Within]
  unfold World.pays World.unpaid
  by_cases hself : x.2.2.key = ch.vaultKey m x.1.mint
  · -- the vault pays itself
    have hmargin := Pool.margin_leave (e := unitScale) (u := x.1.targetUnits.toNat)
      (p := w.charged ch m idx x.1) hn (Nat.zero_le _)
    rw [← World.diluted_eq, Nat.cast_zero, zero_mul, sub_zero] at hmargin
    have hleft : w.diluted ch m idx x.1 - w.drift ch m idx x.1 * n +
        (w.tradeUnits ch m idx x.1 * n : Nat) = w.diluted ch m idx x.1 + x.1.targetUnits.toNat * n := by
      rw [World.drift_eq]
      push_cast
      ring
    rw [if_pos hself, if_pos hself, hleft, ← hmargin]
    rfl
  · have hcover : w.tradeUnits ch m idx x.1 * n / unitScale ≤ w.vault ch m x.1 := by
      rw [hunits]
      exact Pool.rate_mul_div_le (p := w.charged ch m idx x.1) hn
    have hmargin := Pool.margin_leave_at (p := w.charged ch m idx x.1) x.1.targetUnits.toNat hn hcover
    rw [← World.diluted_eq, ← World.drift_eq] at hmargin
    rw [if_neg hself, if_neg hself, ← hmargin, hunits]
    rfl

/-- A redemption holds the units where every pool after it quotes the target. -/
theorem holdsUnits_redeem_iff {accounts : List AccountInfo} {amount : UInt64} {minOut : List UInt64}
    (hG : idx.grown w.clock (w.supply m) ≠ 0)
    (hn : idx.netOf amount.toNat ≤ idx.grown w.clock (w.supply m)) :
    HoldsUnits ch m w idx accounts (.redeem amount minOut) ↔
      ∀ x ∈ idx.components.zip (pairs (accounts.drop 6)), Pool.Quotes unitScale
        x.1.targetUnits.toNat
        (if idx.grown w.clock (w.supply m) = idx.netOf amount.toNat then w.charged ch m idx x.1
        else
          { shares := idx.grown w.clock (w.supply m) - idx.netOf amount.toNat
            assets := w.vault ch m x.1 -
              w.pays ch m (idx.grown w.clock (w.supply m)) (idx.netOf amount.toNat) x }) := by
  refine forall₂_congr fun x _ => ?_
  split
  next => exact (w.charged_quotes_iff ch m idx x.1).symm
  next => exact (w.redeem_quotes_iff ch m idx hG hn x).symm

end Margins

/-! ## What a sync stores -/

/-- A sync stores the targets just where the pools quote them. -/
theorem synced_onTarget_iff (hS : w.supply m ≠ 0) (hfit : UnitsFit ch m w idx) :
    (∀ c ∈ (idx.synced ch m w).components, c.targetUnits = c.units) ↔
      ∀ c ∈ idx.components, Pool.Quotes unitScale c.targetUnits.toNat (w.pool ch m c) := by
  rw [Index.synced, if_neg hS]
  rw [List.forall_mem_map]
  refine forall₂_congr fun c hc => ?_
  have hu : (unitsOf (w.vault ch m c) (w.supply m)).toNat
      = Pool.rate unitScale (w.pool ch m c) := toNat_unitsOf hS (hfit c hc)
  rw [Pool.quotes_iff (p := w.pool ch m c) (Nat.pos_of_ne_zero hS), ← hu, UInt64.toNat_inj]

/-- A refresh changes neither targets nor mints. -/
theorem refreshed_quotes_iff (w₁ : World) (now : Int64) (w' : World) :
    (∀ c ∈ (idx.refreshed ch m w₁ now).components,
        Pool.Quotes unitScale c.targetUnits.toNat (w'.pool ch m c)) ↔
      ∀ c ∈ idx.components, Pool.Quotes unitScale c.targetUnits.toNat (w'.pool ch m c) := by
  rw [Index.refreshed_components, List.forall_mem_map]
  rfl

/-- A synced record is on target when every pool quotes its target. -/
theorem settled_onTarget_iff (w₁ : World) (now : Int64) (hS : w'.supply m ≠ 0)
    (hfit : UnitsFit ch m w' idx) :
    (∀ c ∈ ((idx.refreshed ch m w₁ now).synced ch m w').components, c.targetUnits = c.units) ↔
      ∀ c ∈ idx.components, Pool.Quotes unitScale c.targetUnits.toNat (w'.pool ch m c) := by
  have hfit' : UnitsFit ch m w' (idx.refreshed ch m w₁ now) :=
    (unitsFit_congr (Index.refreshed_mints now)).mpr hfit
  rw [synced_onTarget_iff hS hfit', refreshed_quotes_iff]

/-! ## The accrual in front -/

section Accrual

variable {feeAta : Pubkey} {owed : UInt64}

/-- After an accrual the supply is the grown one. -/
theorem Accrual.supply_grown (h : Accrual ch m idx w w₁ feeAta owed)
    (hsettled : idx.lastFeeAccrual ≤ w.clock) :
    w₁.supply m = idx.grown w.clock (w.supply m) := by
  by_cases hS : w.supply m = 0
  · have hsup := h.leg.supply
    rw [h.owed_zero hS, UInt64.toNat_zero] at hsup
    rw [hS, Index.grown, Nat.zero_mul, Nat.zero_div]
    omega
  · exact (h.grown hsettled hS).2

/-- After an accrual a pool is the charged one. -/
theorem Accrual.charged (h : Accrual ch m idx w w₁ feeAta owed)
    (hsettled : idx.lastFeeAccrual ≤ w.clock) (hC : Custody ch m w idx) {c : Component}
    (hc : c ∈ idx.components) (hne : c.mint ≠ m) : w₁.pool ch m c = w.charged ch m idx c := by
  rw [World.pool, h.supply_grown hsettled, h.vault_eq hC hc hne, World.charged]

end Accrual

/-! ## One call -/

section Calls

variable {amount owed fee gross net : UInt64} {maxIn : List UInt64}
  {user userIndexAta feeAta : Pubkey} {payees : List (AccountInfo × AccountInfo)}
  (hC : Custody ch m w idx) (hsettled : idx.lastFeeAccrual ≤ w.clock)
include hC hsettled

/-- An issue leaves units on target when the pre-state says so. -/
theorem Issued.onTarget_iff
    (h : Issued ch m idx w w₁ w' amount maxIn userIndexAta feeAta owed fee gross)
    (hne : ∀ c ∈ idx.components, c.mint ≠ m)
    (hbefore : ∀ c ∈ idx.components, c.targetUnits = c.units) (accounts : List AccountInfo) :
    (∀ c ∈ ((idx.refreshed ch m w₁ w.clock).synced ch m w').components,
        c.targetUnits = c.units) ↔
      HoldsUnits ch m w idx accounts (.issue amount maxIn) := by
  obtain ⟨hsupply, hvault⟩ := h.billed hC hne
  have hgrown := h.accrual.supply_grown hsettled
  have hpos := h.positive
  have hS' : w'.supply m ≠ 0 := by
    rw [hsupply, Index.grossIssue]
    omega
  rw [settled_onTarget_iff w₁ w.clock hS' h.fits']
  refine forall₂_congr fun c hc => ?_
  -- the units of the refresh are those the trade goes by
  have hunits : (w₁.freshUnits ch m c).toNat = w.tradeUnits ch m idx c := by
    by_cases h0 : w₁.supply m = 0
    · rw [World.freshUnits, if_pos h0, ← hbefore c hc,
        w.tradeUnits_of_none ch m idx c (hgrown ▸ h0)]
    · rw [freshUnits_eq_rate h0 (h.fits.resolve_left h0) hc,
        h.accrual.charged hsettled hC hc (hne c hc),
        w.tradeUnits_of_supply ch m idx c (hgrown ▸ h0)]
  have hbill := hvault c hc
  rw [Index.bill, hunits, h.accrual.vault_eq hC hc (hne c hc)] at hbill
  rw [World.pool, hsupply, hbill, hgrown]
  exact w.issue_quotes_iff ch m idx c (idx.grossIssue amount)

/-- A redemption leaves units on target when the pre-state says so. -/
theorem Redeemed.onTarget_iff
    (h : Redeemed ch m idx w w₁ w' amount user userIndexAta feeAta payees owed fee net)
    (hne : ∀ c ∈ idx.components, c.mint ≠ m) {accounts : List AccountInfo} {minOut : List UInt64}
    (hpayees : pairs (accounts.drop 6) = payees) :
    (∀ c ∈ ((idx.refreshed ch m w₁ w.clock).synced ch m w').components,
        c.targetUnits = c.units) ↔
      HoldsUnits ch m w idx accounts (.redeem amount minOut) := by
  obtain ⟨dA, hl⟩ := h.leg
  have hS₁ : w₁.supply m ≠ 0 := by
    have := h.positive
    have := h.enough
    omega
  have hgrown := h.accrual.supply_grown hsettled
  have hsupply := hl.supply
  have hnet : net.toNat = idx.netOf amount.toNat := by
    have hsum := h.net_eq
    rw [Index.netOf, ← h.fee_eq]
    omega
  have hlen : payees.length = idx.components.length := by
    have hkeys := congrArg List.length h.vaults
    simpa only [Index.vaultKeys, List.length_map] using hkeys
  rw [holdsUnits_redeem_iff w ch m idx (hgrown ▸ hS₁) (by omega), hpayees, ← hgrown, ← hnet]
  by_cases hall : w₁.supply m = net.toNat
  · -- nobody is left: the second sync writes nothing
    have hS' : w'.supply m = 0 := by omega
    simp only [if_pos hall]
    have hfit : UnitsFit ch m w₁ (idx.accrued w.clock) := h.fits
    rw [Index.synced, if_pos hS', Index.refreshed, synced_onTarget_iff hS₁ hfit]
    constructor
    · intro hall x hx
      have hc := (List.of_mem_zip hx).1
      rw [← h.accrual.charged hsettled hC hc (hne _ hc)]
      exact hall _ hc
    · intro hall c hc
      obtain ⟨p, hp⟩ := exists_mem_zip hlen hc
      rw [h.accrual.charged hsettled hC hc (hne c hc)]
      exact hall (c, p) hp
  · have hS' : w'.supply m ≠ 0 := by omega
    simp only [if_neg hall]
    rw [settled_onTarget_iff w₁ w.clock hS' (h.fits'.resolve_left hS')]
    have hvault : ∀ c ∈ idx.components, w₁.vault ch m c = w.vault ch m c :=
      fun c hc => h.accrual.vault_eq hC hc (hne c hc)
    have hmints : (idx.refreshed ch m w₁ w.clock).components.map Component.mint
        = idx.components.map Component.mint := Index.refreshed_mints w.clock
    have hleft := left_eq hS₁ h.fits hvault fun x hx =>
      h.vault_eq hC hx (mint_ne_of_mints hne hmints _ (List.of_mem_zip hx).1)
    have hpool : ∀ x ∈ idx.components.zip payees, w'.pool ch m x.1 =
        { shares := w₁.supply m - net.toNat
          assets := w.vault ch m x.1 - w.pays ch m (w₁.supply m) net.toNat x } := by
      intro x hx
      rw [World.pool, hleft x hx, show w'.supply m = w₁.supply m - net.toNat by omega]
    constructor
    · intro hall x hx
      rw [← hpool x hx]
      exact hall _ (List.of_mem_zip hx).1
    · intro hall c hc
      obtain ⟨p, hp⟩ := exists_mem_zip hlen hc
      rw [hpool (c, p) hp]
      exact hall (c, p) hp

/-- An `AccrueFees` leaves units on target when the pre-state says so. -/
theorem Accrued.onTarget_iff (h : Accrued ch m idx w w₁ w' feeAta owed)
    (hne : w.supply m ≠ 0 → ∀ c ∈ idx.components, c.mint ≠ m)
    (hbefore : ∀ c ∈ idx.components, c.targetUnits = c.units) (accounts : List AccountInfo) :
    (∀ c ∈ (idx.refreshed ch m w₁ w.clock).components, c.targetUnits = c.units) ↔
      HoldsUnits ch m w idx accounts .accrueFees := by
  have hgrown := h.accrual.supply_grown hsettled
  simp only [HoldsUnits]
  rw [← hgrown, Index.refreshed]
  by_cases h0 : w₁.supply m = 0
  · rw [Index.synced, if_pos h0]
    exact iff_of_true hbefore (.inl h0)
  · have hsup := h.accrual.leg.supply
    have hS : w.supply m ≠ 0 := by
      intro hS
      rw [h.accrual.owed_zero hS, UInt64.toNat_zero] at hsup
      omega
    have hfit : UnitsFit ch m w₁ (idx.accrued w.clock) := h.fits.resolve_left h0
    rw [synced_onTarget_iff h0 hfit, or_iff_right h0]
    refine forall₂_congr fun c hc => ?_
    rw [h.accrual.charged hsettled hC hc (hne hS c hc), w.charged_quotes_iff, ← hgrown]

end Calls

/-! ## Runs -/

/-- A step in which no trade or accrual moves the units of the index of `m` away
from the targets while no auction is on. -/
inductive Holding (ch : Chain) (m : Pubkey) (w w' : World) : Prop where
  | call {accounts : List AccountInfo} {ix : FlockInstruction} (signable : Signable ch accounts)
      (done : process ch w accounts ix = .ok w')
      (holds : Concerns m accounts ix → ∀ idx, w.index? (ch.indexKey m) = some idx →
        idx.rebalance.active = 0 → HoldsUnits ch m w idx accounts ix)
  | outside (h : Outside ch w w')

/-- A holding step is a step. -/
theorem Holding.step (h : Holding ch m w w') : Step ch w w' := by
  cases h with
  | call signable done holds => exact .call signable done
  | outside h => exact .outside h

section Steps

variable {accounts : List AccountInfo} {ix : FlockInstruction}

/-- A call that syncs the units of an idle index leaves it on target exactly where
the call holds the units. -/
theorem Effect.onTarget_iff (h : Effect ch m w w' accounts ix) (hreach : Reachable ch w)
    (hm : ch.inUse m) (hidx : w.index? (ch.indexKey m) = some idx)
    (hidx' : w'.index? (ch.indexKey m) = some idx') (hsyncs : ix.accrues = true)
    (hon : ∀ c ∈ idx.components, c.targetUnits = c.units) :
    (∀ c ∈ idx'.components, c.targetUnits = c.units) ↔ HoldsUnits ch m w idx accounts ix := by
  obtain ⟨hW, hs⟩ := reachable_wf hreach
  have hwf : Wf ch m w idx := AllWf.wf hW hm hidx
  have hC := hwf.custody
  have hU := reachable_unissued hreach hm hidx
  cases h with
  | issue key before iss =>
    obtain rfl := Option.some.inj (hidx.symm.trans before)
    obtain rfl := Option.some.inj (hidx'.symm.trans iss.record)
    exact iss.onTarget_iff hC hwf.settled (iss.mint_ne hC hs hU) hon _
  | redeem key signed before red =>
    obtain rfl := Option.some.inj (hidx.symm.trans before)
    obtain rfl := Option.some.inj (hidx'.symm.trans red.record)
    exact red.onTarget_iff hC hwf.settled (hU.mint_ne red.supply_ne_zero) rfl
  | accrueFees key before acc =>
    obtain rfl := Option.some.inj (hidx.symm.trans before)
    rw [acc.world, World.index?_setIndex_self] at hidx'
    obtain rfl := Option.some.inj hidx'
    exact acc.onTarget_iff hC hwf.settled (fun hS => hU.mint_ne hS) hon _
  | initIndex | addComponent | sealIndex | proposeRebalance | bid | endRebalance | setParams
  | setAuthority | setPaused => cases hsyncs

/-- The step lemma for a call: it holds the units, or it writes targets and units
together, or an auction is on after it. -/
theorem onTarget_of_call (hreach : Reachable ch w) (hm : ch.inUse m)
    (signable : Signable ch accounts) (done : process ch w accounts ix = .ok w')
    (holds : Concerns m accounts ix → ∀ idx, w.index? (ch.indexKey m) = some idx →
      idx.rebalance.active = 0 → HoldsUnits ch m w idx accounts ix)
    (hbefore : ∀ idx, w.index? (ch.indexKey m) = some idx → OnTarget idx)
    (hidx' : w'.index? (ch.indexKey m) = some idx') : OnTarget idx' := by
  have hW : AllWf ch w := (reachable_wf hreach).1
  rcases hW.record_origin hm signable done hidx' with
    ⟨idx, hidx, ⟨-, rfl⟩ | ⟨hcon, hchange⟩⟩ | ⟨governor, manager, feeRecipient, p, bump, rfl⟩
  · exact hbefore idx' hidx
  · have hon := hbefore idx hidx
    cases hchange with
    | market market sealed refreshes =>
      intro hidle
      have hidle₀ : idx.rebalance.active = 0 := by
        rw [refreshes.record] at hidle
        exact hidle
      rcases hW.call_cases hm signable done with heff | ⟨hother, -⟩
      swap
      · exact absurd hcon hother
      by_cases hsyncs : ix.accrues = true
      · exact (heff.onTarget_iff hreach hm hidx hidx' hsyncs (hon hidle₀)).mpr
          (holds hcon idx hidx hidle₀)
      · -- a fill needs an auction
        cases heff with
        | bid key before filled =>
          obtain rfl := Option.some.inj (hidx.symm.trans before)
          exact absurd hidle₀ filled.active
        | issue | redeem | accrueFees => exact absurd rfl hsyncs
        | initIndex | addComponent | sealIndex | proposeRebalance | endRebalance | setParams
        | setAuthority | setPaused => cases market
    | added signed add =>
      intro hidle c hc
      rcases List.mem_append.mp hc with hc | hc
      · exact hon hidle c hc
      · rw [List.mem_singleton.mp hc]
        exact add.component.1
    | sealed signed done => exact hon
    | proposed signed done =>
      intro hidle
      have hone : (1 : UInt8) = 0 := hidle
      exact absurd hone (by decide)
    | ended signed done =>
      intro _ c hc
      obtain ⟨c₀, -, rfl⟩ := List.mem_map.mp hc
      rfl
    | params signed fees => exact hon
    | authority signed =>
      intro hidle
      rw [(Index.withAuthority_state idx _ _).2] at hidle
      rw [Index.withAuthority_components]
      exact hon hidle
    | paused sealed brake release => exact hon
  · intro _ c hc
    cases hc

end Steps

/-- The run lemma. -/
theorem onTarget_of_run (hg : Genesis w₀) (hrun : Relation.ReflTransGen (Holding ch m) w₀ w)
    (hm : ch.inUse m) (hidx : w.index? (ch.indexKey m) = some idx) : OnTarget idx := by
  induction hrun generalizing idx with
  | refl =>
    rw [hg.fresh] at hidx
    cases hidx
  | tail hrun hstep ih =>
    cases hstep with
    | call signable done holds =>
      have hreach : Reachable ch _ := ⟨w₀, hg, hrun.lift id fun _ _ => Holding.step⟩
      exact onTarget_of_call hreach hm signable done holds (fun _ hidx₁ => ih hidx₁) hidx
    | outside h =>
      rw [h.records] at hidx
      exact ih hidx

/-- In every run from a fresh world in which each trade and each accrual on an
index with no auction on holds its units, its targets are its units whenever no
auction is on. And wherever such a run stands, the next of them keeps them so
exactly if it holds the units. -/
theorem targets_are_units (hg : Genesis w₀) {k : Pubkey} (hidx : w.index? k = some idx)
    (hrun : Relation.ReflTransGen (Holding ch idx.indexMint) w₀ w) :
    (idx.rebalance.active = 0 → ∀ c ∈ idx.components, c.targetUnits = c.units) ∧
    ∀ {accounts : List AccountInfo} {ix : FlockInstruction} {w' : World} {idx' : Index},
      Signable ch accounts → process ch w accounts ix = .ok w' →
      Concerns idx.indexMint accounts ix → ix.accrues = true → idx.rebalance.active = 0 →
      w'.index? k = some idx' →
      ((∀ c ∈ idx'.components, c.targetUnits = c.units) ↔
        HoldsUnits ch idx.indexMint w idx accounts ix) := by
  have hreach : Reachable ch w := ⟨w₀, hg, hrun.lift id fun _ _ => Holding.step⟩
  have hW : AllWf ch w := (reachable_wf hreach).1
  obtain ⟨rfl, hwf⟩ := hW hidx
  have hm := hwf.custody.inUse
  have hon := onTarget_of_run hg hrun hm hidx
  refine ⟨hon, ?_⟩
  intro accounts ix w' idx' signable done concerns hsyncs hidle hidx'
  rcases hW.call_cases hm signable done with heff | ⟨hother, -⟩
  swap
  · exact absurd concerns hother
  exact heff.onTarget_iff hreach hm hidx hidx' hsyncs (hon hidle)

/-- An act that holds the units of the local fund. -/
def holdsAct (w : World) (act : Act) : Bool :=
  act.permitted && match act with
    | .call accounts ix => (w.index? localIndex).all fun idx =>
        decide (idx.rebalance.active = 0 → HoldsUnits localnet (addr 1) w idx accounts ix)
    | _ => true

/-- An act that passes the test is a holding step. -/
theorem holdsAct_holding {w w' : World} {act : Act} (hc : holdsAct w act = true)
    (h : act.run localnet w = .ok w') : Holding localnet (addr 1) w w' := by
  unfold holdsAct at hc
  rw [Bool.and_eq_true] at hc
  obtain ⟨hp, hc⟩ := hc
  cases act with
  | call accounts ix =>
    refine .call (Act.signable hp) h ?_
    intro _ idx hidx
    have hidx' : w.index? localIndex = some idx := hidx
    simp only [hidx', Option.all_some] at hc
    exact of_decide_eq_true hc
  | tick t => exact .outside (Act.outside hp (by simp) h)
  | transfer s d a x => exact .outside (Act.outside hp (by simp) h)
  | burn s m a x => exact .outside (Act.outside hp (by simp) h)

/-- Whole tokens in and out of a fund without fees. -/
theorem targets_are_units_local : ∃ (w : World) (idx : Index),
    Relation.ReflTransGen (Holding localnet idx.indexMint) localWorld w ∧
    w.index? localIndex = some idx ∧ w.supply idx.indexMint = 4000000000 ∧
    idx.rebalance.active = 0 ∧ ∀ c ∈ idx.components, c.targetUnits = c.units := by
  have hrun : endsIn (perform holdsAct localWorld (openFund ⟨0, 0, 0, 100⟩ 2000000 333333333 ++
      [localIssue 5000000000, localRedeem 1000000000, .tick 86400, localAccrue]))
      (indexPasses fun w idx => decide (idx.indexMint = addr 1) &&
        decide (w.supply (addr 1) = 4000000000) && decide (idx.rebalance.active = 0)) = true := by
    decide +kernel
  obtain ⟨w, hw, hpass⟩ := endsIn_iff.mp hrun
  obtain ⟨idx, hidx, hp⟩ := indexPasses_iff.mp hpass
  simp only [Bool.and_eq_true, decide_eq_true_eq] at hp
  obtain ⟨⟨hm, hS⟩, hidle⟩ := hp
  have hheld := perform_run holdsAct_holding hw
  rw [← hm] at hS hheld
  exact ⟨w, idx, hheld, hidx, hS, hidle, (targets_are_units localWorld_genesis hidx hheld).1 hidle⟩

/-- Half a year's fee at one percent dilutes the units, and the targets stay. -/
theorem targets_stay_behind : ∃ (w : World) (idx : Index) (c : Component),
    Reachable localnet w ∧ w.index? localIndex = some idx ∧ idx.state = stateLive ∧
    idx.rebalance.active = 0 ∧ c ∈ idx.components ∧ c.targetUnits = 2000000 ∧
    c.units = 1990000 ∧ c.targetUnits ≠ c.units := by
  obtain ⟨w, idx, hreach, hidx, hp⟩ := exists_of_run
    (openFund ⟨100, 0, 0, 100⟩ 2000000 333333333 ++
      [localIssue 5000000000, .tick 15768000, localAccrue])
    (fun _ idx => decide (idx.state = stateLive) && decide (idx.rebalance.active = 0) &&
      idx.components.any fun c => decide (c.targetUnits = 2000000) && decide (c.units = 1990000))
    (by decide +kernel)
  simp only [Bool.and_eq_true, List.any_eq_true, decide_eq_true_eq] at hp
  obtain ⟨⟨hlive, hidle⟩, c, hc, htarget, hunits⟩ := hp
  refine ⟨w, idx, c, hreach, hidx, hlive, hidle, hc, htarget, hunits, ?_⟩
  rw [htarget, hunits]
  decide

end Flock
