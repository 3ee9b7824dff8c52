import Flock.Sdk
import Flock.Localnet
import Flock.Outflow

/-!
# The SDK quotes what the chain does

Both sides compute with the same numbers, one in checked machine integers in the
middle of a handler and one in unbounded integers from a snapshot. The first part
is the arithmetic: on natural numbers the SDK's functions are the program's floors
and ceilings. The second is the snapshot of a well-formed index. The third reads
`Issued` and `Redeemed` next to the quotes.
-/

namespace Flock

open Outcome MachineInt

variable {ch : Chain} {m : Pubkey} {w w₁ w' : World} {idx : Index}

/-! ## Arithmetic agreement -/

theorem Sdk.mulDivFloor_nat (a b : Nat) {d : Nat} (hd : d ≠ 0) :
    Sdk.mulDivFloor a b d = .ok ((a * b / d : Nat) : Int) := by
  have hd' : (d : Int) ≠ 0 := by exact_mod_cast hd
  rw [Sdk.mulDivFloor, if_neg hd', Int.ofNat_tdiv, Nat.cast_mul]

theorem Sdk.mulDivCeil_nat (a b : Nat) {d : Nat} (hd : d ≠ 0) :
    Sdk.mulDivCeil a b d = .ok (((a * b) ⌈/⌉ d : Nat) : Int) := by
  have hd' : (d : Int) ≠ 0 := by exact_mod_cast hd
  rw [Sdk.mulDivCeil, if_neg hd', ← Nat.cast_mul]
  generalize a * b = n
  cases n with
  | zero =>
    rw [Nat.ceilDiv_eq_add_pred_div, Nat.div_eq_of_lt (by omega)]
    rfl
  | succ n =>
    have hn : ((n + 1 : Nat) : Int) ≠ 0 := by omega
    have hpred : ((n + 1 : Nat) : Int) - 1 = n := by omega
    have hceil : (n + 1) ⌈/⌉ d = n / d + 1 := by
      rw [Nat.ceilDiv_eq_add_pred_div, show n + 1 + d - 1 = n + d by omega,
        Nat.add_div_right n (Nat.pos_of_ne_zero hd)]
    dsimp only
    rw [if_neg hn, hpred, ← Int.ofNat_tdiv, hceil]
    rfl

/-- The fee the program mints is the fee the SDK expects. -/
theorem Sdk.streamingFeeTokens_nat {supply owed : UInt64} {feeBps : UInt16} {since now : Int64}
    (hle : since ≤ now)
    (h : Flock.streamingFeeTokens supply feeBps (saturatingSub now since) = .ok owed) :
    Sdk.streamingFeeTokens supply.toNat feeBps.toNat (now.toInt - since.toInt)
      = .ok (owed.toNat : Int) := by
  by_cases hS : supply.toNat = 0
  · have h0 : supply = 0 := UInt64.toNat_inj.mp hS
    rw [Flock.streamingFeeTokens, if_pos (.inl h0)] at h
    rw [Sdk.streamingFeeTokens, if_pos (.inl (by omega)), ← Except.ok.inj h]
    rfl
  obtain ⟨hlt, howed⟩ := (streamingFeeTokens_ok_iff hS hle).mp h
  have hdt : now.toInt - since.toInt = elapsed since now := by
    have := Int64.le_iff_toInt_le.mp hle
    unfold elapsed
    omega
  rw [hdt, Sdk.streamingFeeTokens]
  split
  next hz =>
    -- nothing to charge is the formula at zero
    have hnum : feeBps.toNat * elapsed since now = 0 := by
      rw [Nat.mul_eq_zero]
      omega
    rw [hnum, Nat.mul_zero, Nat.zero_div] at howed
    rw [howed]
    rfl
  next =>
    have hnum : (feeBps.toNat : Int) * elapsed since now
        = ((feeBps.toNat * elapsed since now : Nat) : Int) := (Nat.cast_mul _ _).symm
    have hden : Sdk.bps * Sdk.secondsPerYear = (wholeYear : Int) := by decide
    have hsub : (wholeYear : Int) - ((feeBps.toNat * elapsed since now : Nat) : Int)
        = ((wholeYear - feeBps.toNat * elapsed since now : Nat) : Int) :=
      (Nat.cast_sub hlt.le).symm
    have hge : ¬ ((feeBps.toNat * elapsed since now : Nat) : Int) ≥ wholeYear := by omega
    dsimp only
    rw [hnum, hden, if_neg hge, hsub, Sdk.mulDivFloor_nat _ _ (by omega), howed]

theorem Sdk.unitsFromBalance_nat (b : Nat) {s : Nat} (hs : s ≠ 0) :
    Sdk.unitsFromBalance b s = .ok ((b * Flock.unitScale / s : Nat) : Int) := by
  rw [Sdk.unitsFromBalance, if_neg (by exact_mod_cast hs)]
  exact Sdk.mulDivFloor_nat b Flock.unitScale hs

/-! ## The snapshot of a well-formed index -/

/-- The account the decoder makes of a record in state `st`. -/
def Sdk.accountOf (idx : Index) (st : Sdk.IndexStateName) : Sdk.IndexAccount where
  feeRecipient := idx.feeRecipient
  lastFeeAccrual := idx.lastFeeAccrual.toInt
  streamingFeeBps := idx.streamingFeeBps.toNat
  issueFeeBps := idx.issueFeeBps.toNat
  redeemFeeBps := idx.redeemFeeBps.toNat
  maxPremiumBps := idx.maxPremiumBps.toNat
  state := st
  components := idx.components.map Sdk.decodeComponent
  rebalance := Sdk.decodeRebalance idx.rebalance

/-- A well-formed record can be decoded. -/
theorem Wf.decodeIndex (hW : Wf ch m w idx) :
    ∃ st, Sdk.decodeIndex idx = .ok (Sdk.accountOf idx st) := by
  have htag : idx.tag = 0xf1 := hW.custody.header.1
  obtain ⟨st, hst⟩ : ∃ st, Sdk.stateName idx.state = .ok st := by
    rcases hW.state with h | h | h <;> rw [h] <;> exact ⟨_, rfl⟩
  refine ⟨st, ?_⟩
  rw [Sdk.decodeIndex, if_neg (not_not.mpr htag), hst]
  rfl

/-- The vaults of a well-formed index can be read, and hold what they hold. -/
theorem Wf.vaultAmounts (hW : Wf ch m w idx) (st : Sdk.IndexStateName) :
    (Sdk.accountOf idx st).components.mapM (fun c => Sdk.vaultAmount w (ch.vaultKey m c.mint))
      = .ok (idx.components.map fun c => (w.vault ch m c : Int)) := by
  refine mapM_map_ok fun c hc => ?_
  obtain ⟨t, ht, -⟩ := hW.custody.vaults c hc
  have ht' : w.token? (ch.vaultKey m (Sdk.decodeComponent c).mint) = some t := ht
  rw [Sdk.vaultAmount, ht', World.vault, World.amount_of_token? ht]

/-- What the client sees of a well-formed index while its fee can be charged. -/
structure Pictured (ch : Chain) (m : Pubkey) (w : World) (idx : Index) (owed : UInt64)
    (snap : Sdk.IndexSnapshot) : Prop where
  account : ∃ st, snap.account = Sdk.accountOf idx st
  supply : snap.supply = w.supply m
  balances : snap.balances = idx.components.map fun c => (w.vault ch m c : Int)
  pendingFee : snap.pendingFee = owed.toNat

/-- Of a well-formed index a snapshot can be taken, and it is the picture of it. -/
theorem Wf.snapshot (hW : Wf ch m w idx) (hidx : w.index? (ch.indexKey m) = some idx) {mi : Mint}
    (hmi : w.mint? m = some mi) {owed : UInt64}
    (hfee : streamingFeeTokens mi.supply idx.streamingFeeBps
      (saturatingSub w.clock idx.lastFeeAccrual) = .ok owed) :
    ∃ snap, Sdk.snapshot ch w m w.clock.toInt = .ok snap ∧ Pictured ch m w idx owed snap := by
  obtain ⟨st, hdecode⟩ := hW.decodeIndex
  have hS := World.supply_of_mint? hmi
  have hpending : Sdk.streamingFeeTokens (mi.supply.toNat : Int)
      (Sdk.accountOf idx st).streamingFeeBps
      (w.clock.toInt - (Sdk.accountOf idx st).lastFeeAccrual) = .ok (owed.toNat : Int) :=
    Sdk.streamingFeeTokens_nat hW.settled hfee
  obtain ⟨units, hunits⟩ : ∃ units, (if (mi.supply.toNat : Int) = 0 then
      .ok ((Sdk.accountOf idx st).components.map Sdk.ComponentAccount.units)
      else (idx.components.map fun c => (w.vault ch m c : Int)).mapM fun balance =>
        Sdk.unitsFromBalance balance (mi.supply.toNat : Int)) = .ok units := by
    split
    next => exact ⟨_, rfl⟩
    next h0 =>
      have h0' : mi.supply.toNat ≠ 0 := by exact_mod_cast h0
      refine exists_mapM fun b hb => ?_
      obtain ⟨c, -, rfl⟩ := List.mem_map.mp hb
      exact ⟨_, Sdk.unitsFromBalance_nat _ h0'⟩
  refine ⟨{
    indexMint := m
    account := Sdk.accountOf idx st
    supply := mi.supply.toNat
    balances := idx.components.map fun c => (w.vault ch m c : Int)
    units := units
    pendingFee := owed.toNat
    asOf := w.clock.toInt }, ?_, ⟨st, rfl⟩, by rw [hS], rfl, rfl⟩
  rw [Sdk.snapshot, hidx, hmi]
  dsimp only
  rw [hdecode, ok_bind, ok_bind, hW.vaultAmounts st, ok_bind, hunits, ok_bind, hpending]
  rfl

/-! ## The quotes -/

/-- The units `sync_units` leaves in a component: derived from the vault, or the
stored ones at zero supply. -/
def World.freshUnits (w : World) (ch : Chain) (m : Pubkey) (c : Component) : UInt64 :=
  if w.supply m = 0 then c.units else unitsOf (w.vault ch m c) (w.supply m)

/-- A refresh changes the units of every entry. -/
theorem Index.refreshed_components (now : Int64) :
    (idx.refreshed ch m w₁ now).components
      = idx.components.map fun c => { c with units := w₁.freshUnits ch m c } := by
  unfold Index.refreshed Index.synced World.freshUnits
  split
  · exact (List.map_id' idx.components).symm
  · rfl

/-- The units the SDK derives at a supply. -/
def World.unitsAt (w : World) (ch : Chain) (m : Pubkey) (supply : Nat) (c : Component) : Nat :=
  if supply = 0 then c.units.toNat else w.vault ch m c * unitScale / supply

/-- The units the SDK works with, at the supply after the fee. -/
theorem Pictured.unitsAt_eq {owed : UInt64} {snap : Sdk.IndexSnapshot}
    (hp : Pictured ch m w idx owed snap) :
    Sdk.unitsAt snap (snap.supply + snap.pendingFee)
      = .ok (idx.components.map fun c =>
          (w.unitsAt ch m (w.supply m + owed.toNat) c : Int)) := by
  have hsupply : snap.supply + snap.pendingFee = ((w.supply m + owed.toNat : Nat) : Int) := by
    rw [hp.supply, hp.pendingFee]
    exact (Nat.cast_add _ _).symm
  obtain ⟨st, hacc⟩ := hp.account
  rw [Sdk.unitsAt, hsupply, hacc, hp.balances]
  by_cases h0 : w.supply m + owed.toNat = 0
  · rw [if_pos (by exact_mod_cast h0)]
    have hstored : (fun c : Component => (w.unitsAt ch m (w.supply m + owed.toNat) c : Int))
        = Sdk.ComponentAccount.units ∘ Sdk.decodeComponent := by
      funext c
      rw [World.unitsAt, if_pos h0]
      rfl
    rw [hstored, ← List.map_map]
    rfl
  · rw [if_neg (by exact_mod_cast h0)]
    refine mapM_map_ok fun c hc => ?_
    rw [Sdk.unitsFromBalance_nat _ h0, World.unitsAt, if_neg h0]

/-- The units the program works with are the same. -/
theorem World.freshUnits_toNat (hvault : ∀ c ∈ idx.components, w₁.vault ch m c = w.vault ch m c)
    (hfit : w₁.supply m = 0 ∨ UnitsFit ch m w₁ idx) {c : Component} (hc : c ∈ idx.components) :
    (w₁.freshUnits ch m c).toNat = w.unitsAt ch m (w₁.supply m) c := by
  by_cases h0 : w₁.supply m = 0
  · rw [World.freshUnits, if_pos h0, World.unitsAt, if_pos h0]
  · rw [World.freshUnits, if_neg h0, toNat_unitsOf h0 ((hfit.resolve_left h0) c hc), hvault c hc,
      World.unitsAt, if_neg h0]

/-- The units the SDK derives at the supply after the fee are the ones the
program derives after minting it. -/
theorem Pictured.unitsAt {owed : UInt64} {snap : Sdk.IndexSnapshot}
    (hp : Pictured ch m w idx owed snap) (hsup : w₁.supply m = w.supply m + owed.toNat)
    (hvault : ∀ c ∈ idx.components, w₁.vault ch m c = w.vault ch m c)
    (hfit : w₁.supply m = 0 ∨ UnitsFit ch m w₁ idx) :
    Sdk.unitsAt snap (snap.supply + snap.pendingFee)
      = .ok (idx.components.map fun c => ((w₁.freshUnits ch m c).toNat : Int)) := by
  rw [hp.unitsAt_eq, ← hsup]
  refine congrArg Except.ok (List.map_congr_left fun c hc => ?_)
  rw [World.freshUnits_toNat hvault hfit hc]

/-- `quoteIssue`, as the floors and ceilings of the program. -/
theorem Pictured.quoteIssue {owed : UInt64} {fee gross amount : Nat} {snap : Sdk.IndexSnapshot}
    (hp : Pictured ch m w idx owed snap) {units : Component → Nat}
    (hunits : Sdk.unitsAt snap (snap.supply + snap.pendingFee)
      = .ok (idx.components.map fun c => (units c : Int)))
    (hfee : fee = (amount * idx.issueFeeBps.toNat) ⌈/⌉ bps) (hgross : gross = amount + fee) :
    Sdk.quoteIssue snap amount = .ok
      { required := idx.components.map fun c => (((units c * gross) ⌈/⌉ unitScale : Nat) : Int)
        feeTokens := fee } := by
  obtain ⟨st, hacc⟩ := hp.account
  have hceil : Sdk.mulDivCeil amount (Sdk.accountOf idx st).issueFeeBps Sdk.bps
      = .ok (fee : Int) := by
    rw [hfee]
    exact Sdk.mulDivCeil_nat _ _ (by decide)
  have hsum : (amount : Int) + fee = gross := by omega
  rw [Sdk.quoteIssue, hunits, ok_bind, hacc, hceil, ok_bind]
  dsimp only
  rw [hsum, mapM_map_ok (g := fun c => (((units c * gross) ⌈/⌉ unitScale : Nat) : Int))
    fun c _ => Sdk.mulDivCeil_nat _ _ (by decide)]
  rfl

/-- The redeem quote, in the words of the program. -/
theorem Pictured.quoteRedeem {owed fee net amount : UInt64} {snap : Sdk.IndexSnapshot}
    (hp : Pictured ch m w idx owed snap) {units : Component → UInt64}
    (hunits : Sdk.unitsAt snap (snap.supply + snap.pendingFee)
      = .ok (idx.components.map fun c => ((units c).toNat : Int)))
    (hfee : fee.toNat = (amount.toNat * idx.redeemFeeBps.toNat) ⌈/⌉ bps)
    (hnet : net.toNat + fee.toNat = amount.toNat) :
    Sdk.quoteRedeem snap amount.toNat = .ok
      { payout := idx.components.map fun c =>
          (Component.payout { c with units := units c } net : Int)
        feeTokens := fee.toNat } := by
  obtain ⟨st, hacc⟩ := hp.account
  have hceil : Sdk.mulDivCeil amount.toNat (Sdk.accountOf idx st).redeemFeeBps Sdk.bps
      = .ok (fee.toNat : Int) := by
    rw [hfee]
    exact Sdk.mulDivCeil_nat _ _ (by decide)
  have hsub : (amount.toNat : Int) - fee.toNat = net.toNat := by omega
  rw [Sdk.quoteRedeem, hunits, ok_bind, hacc, hceil, ok_bind]
  dsimp only
  rw [hsub, mapM_map_ok (g := fun c =>
    (Component.payout { c with units := units c } net : Int)) fun c _ =>
      Sdk.mulDivFloor_nat _ _ (by decide)]
  rfl

/-! ## What the chain did -/

/-- Index tokens and vault balances moved as a quote for an issue says, with the
streaming fee of the snapshot on top: first that was charged, and then the trade. -/
structure IssuedAs (ch : Chain) (m : Pubkey) (idx : Index) (w w' : World) (feeAta : Pubkey)
    (amount : UInt64) (snap : Sdk.IndexSnapshot) (quote : Sdk.IssueQuote) : Prop where
  required : quote.required
    = idx.components.map fun c => (w'.vault ch m c : Int) - w.vault ch m c
  charged : ∃ w₁ owed, Accrual ch m idx w w₁ feeAta owed ∧ snap.pendingFee = owed.toNat ∧
    (w'.supply m : Int) = w₁.supply m + amount.toNat + quote.feeTokens
  feeTokens : (w'.supply m : Int)
    = w.supply m + snap.pendingFee + amount.toNat + quote.feeTokens

/-- And as a quote for a redemption says. A payout to the vault itself moves
nothing. -/
structure RedeemedAs (ch : Chain) (m : Pubkey) (idx : Index) (w w' : World) (feeAta : Pubkey)
    (amount : UInt64) (payees : List (AccountInfo × AccountInfo)) (snap : Sdk.IndexSnapshot)
    (quote : Sdk.RedeemQuote) : Prop where
  length : quote.payout.length = idx.components.length
  payout : ∀ x ∈ (idx.components.zip quote.payout).zip payees,
    (w.vault ch m x.1.1 : Int) = w'.vault ch m x.1.1 +
      if x.2.2.key = ch.vaultKey m x.1.1.mint then 0 else x.1.2
  charged : ∃ w₁ owed, Accrual ch m idx w w₁ feeAta owed ∧ snap.pendingFee = owed.toNat ∧
    (w'.supply m : Int) + amount.toNat = w₁.supply m + quote.feeTokens
  feeTokens : (w'.supply m : Int) + amount.toNat
    = w.supply m + snap.pendingFee + quote.feeTokens

/-- The issue quote of a picture is what the issue did. -/
theorem Issued.quoted {amount owed fee gross : UInt64} {maxIn : List UInt64}
    {userIndexAta feeAta : Pubkey}
    (h : Issued ch m idx w w₁ w' amount maxIn userIndexAta feeAta owed fee gross)
    (hC : Custody ch m w idx) (hmint : ∀ c ∈ idx.components, c.mint ≠ m)
    {snap : Sdk.IndexSnapshot} (hp : Pictured ch m w idx owed snap) :
    ∃ quote, Sdk.quoteIssue snap amount.toNat = .ok quote ∧
      IssuedAs ch m idx w w' feeAta amount snap quote := by
  have hsup := h.accrual.leg.supply
  have hsup₁ : w₁.supply m = w.supply m + owed.toNat := by omega
  have hvault := fun c hc => h.accrual.vault_eq hC (c := c) hc (hmint c hc)
  have hunits := hp.unitsAt hsup₁ hvault h.fits
  refine ⟨_, hp.quoteIssue hunits h.fee_eq h.gross_eq, ?_,
    ⟨w₁, owed, h.accrual, hp.pendingFee, ?_⟩, ?_⟩
  · refine List.map_congr_left fun c hc => ?_
    have hmem : ({ c with units := w₁.freshUnits ch m c } : Component)
        ∈ (idx.refreshed ch m w₁ w.clock).components := by
      rw [Index.refreshed_components]
      exact List.mem_map_of_mem hc
    have hgain := h.vault_eq hC hmem (hmint c hc)
    have hsame : ∀ v : World, v.vault ch m { c with units := w₁.freshUnits ch m c }
        = v.vault ch m c := fun v => World.vault_congr rfl
    rw [hsame, hsame, hvault c hc] at hgain
    show (Component.required { c with units := w₁.freshUnits ch m c } gross : Int) = _
    omega
  · obtain ⟨dA, hl⟩ := h.leg
    have hgrown := hl.supply
    have hgross := h.gross_eq
    dsimp only
    omega
  · obtain ⟨dA, hl⟩ := h.leg
    have hgrown := hl.supply
    have hgross := h.gross_eq
    rw [hp.pendingFee]
    dsimp only
    omega

/-- The redeem quote of a picture is what the redemption did. -/
theorem Redeemed.quoted {amount owed fee net : UInt64} {user userIndexAta feeAta : Pubkey}
    {payees : List (AccountInfo × AccountInfo)}
    (h : Redeemed ch m idx w w₁ w' amount user userIndexAta feeAta payees owed fee net)
    (hC : Custody ch m w idx) (hmint : ∀ c ∈ idx.components, c.mint ≠ m)
    {snap : Sdk.IndexSnapshot} (hp : Pictured ch m w idx owed snap) :
    ∃ quote, Sdk.quoteRedeem snap amount.toNat = .ok quote ∧
      RedeemedAs ch m idx w w' feeAta amount payees snap quote := by
  have hsup := h.accrual.leg.supply
  have hsup₁ : w₁.supply m = w.supply m + owed.toNat := by omega
  have hvault := fun c hc => h.accrual.vault_eq hC (c := c) hc (hmint c hc)
  have hunits := hp.unitsAt hsup₁ hvault (.inr h.fits)
  refine ⟨_, hp.quoteRedeem hunits h.fee_eq h.net_eq, by simp, ?_,
    ⟨w₁, owed, h.accrual, hp.pendingFee, ?_⟩, ?_⟩
  · intro x hx
    have hzip : (idx.components.zip (idx.components.map fun c =>
        (Component.payout { c with units := w₁.freshUnits ch m c } net : Int)))
        = idx.components.map fun c =>
          (c, (Component.payout { c with units := w₁.freshUnits ch m c } net : Int)) := by
      rw [List.zip_map_right, List.zip_eq_zipWith, List.zipWith_self, List.map_map]
      rfl
    dsimp only at hx
    rw [hzip, List.zip_map_left] at hx
    obtain ⟨⟨c, p⟩, hcp, rfl⟩ := List.mem_map.mp hx
    have hc := (List.of_mem_zip hcp).1
    have hmem : (({ c with units := w₁.freshUnits ch m c } : Component), p)
        ∈ (idx.refreshed ch m w₁ w.clock).components.zip payees := by
      rw [Index.refreshed_components, List.zip_map_left]
      exact List.mem_map_of_mem hcp
    have hfall := h.vault_eq hC hmem (hmint c hc)
    have hsame : ∀ v : World, v.vault ch m { c with units := w₁.freshUnits ch m c }
        = v.vault ch m c := fun v => World.vault_congr rfl
    rw [hsame, hsame, hvault c hc, paidOut] at hfall
    dsimp only at hfall
    show (w.vault ch m c : Int) = w'.vault ch m c +
      if p.2.key = ch.vaultKey m c.mint then (0 : Int) else
        (Component.payout { c with units := w₁.freshUnits ch m c } net : Int)
    by_cases hself : p.2.key = ch.vaultKey m c.mint
    · rw [if_pos hself] at hfall ⊢
      omega
    · rw [if_neg hself] at hfall ⊢
      omega
  · obtain ⟨dA, hl⟩ := h.leg
    have hshrunk := hl.supply
    have hnet := h.net_eq
    dsimp only
    omega
  · obtain ⟨dA, hl⟩ := h.leg
    have hshrunk := hl.supply
    have hnet := h.net_eq
    rw [hp.pendingFee]
    dsimp only
    omega

/-- From every reachable world: whatever an issue or a redemption moved is what
the SDK quoted from a snapshot of that world. -/
theorem quotes_are_exact (h : Reachable ch w) {k : Pubkey} (hidx : w.index? k = some idx)
    {user indexInfo indexMintInfo userIndexAta feeAta tokenProgram : AccountInfo}
    {rest : List AccountInfo}
    (signable : Signable ch (user :: indexInfo :: indexMintInfo :: userIndexAta :: feeAta ::
      tokenProgram :: rest))
    (hm : indexMintInfo.key = idx.indexMint) :
    (∀ amount maxIn w', process ch w (user :: indexInfo :: indexMintInfo :: userIndexAta :: feeAta ::
        tokenProgram :: rest) (.issue amount maxIn) = .ok w' →
      ∃ snap quote, Sdk.snapshot ch w idx.indexMint w.clock.toInt = .ok snap ∧
        Sdk.quoteIssue snap amount.toNat = .ok quote ∧
        IssuedAs ch idx.indexMint idx w w' feeAta.key amount snap quote) ∧
    (∀ amount minOut w', process ch w (user :: indexInfo :: indexMintInfo :: userIndexAta ::
        feeAta :: tokenProgram :: rest) (.redeem amount minOut) = .ok w' →
      ∃ snap quote, Sdk.snapshot ch w idx.indexMint w.clock.toInt = .ok snap ∧
        Sdk.quoteRedeem snap amount.toNat = .ok quote ∧
        RedeemedAs ch idx.indexMint idx w w' feeAta.key amount (pairs rest) snap quote) := by
  obtain ⟨hW, hsound⟩ := reachable_wf h
  obtain ⟨rfl, hwf⟩ := hW hidx
  have huse := hwf.custody.inUse
  have hU := reachable_unissued h huse hidx
  constructor
  · intro amount maxIn w' hdone
    rcases AllWf.call_cases (fun {k idx} => hW) huse signable hdone with heff | ⟨hne, -⟩
    swap
    · exact absurd (congrArg some hm) hne
    cases heff with
    | issue key before done =>
      obtain rfl := Option.some.inj (hidx.symm.trans before)
      obtain ⟨mi, hmi, hfee⟩ := done.accrual.fee
      obtain ⟨snap, hsnap, hp⟩ := hwf.snapshot hidx hmi hfee
      have hmint := done.mint_ne hwf.custody hsound hU
      obtain ⟨quote, hquote, hissued⟩ := done.quoted hwf.custody hmint hp
      exact ⟨snap, quote, hsnap, hquote, hissued⟩
  · intro amount minOut w' hdone
    rcases AllWf.call_cases (fun {k idx} => hW) huse signable hdone with heff | ⟨hne, -⟩
    swap
    · exact absurd (congrArg some hm) hne
    cases heff with
    | redeem key signed before done =>
      obtain rfl := Option.some.inj (hidx.symm.trans before)
      obtain ⟨mi, hmi, hfee⟩ := done.accrual.fee
      obtain ⟨snap, hsnap, hp⟩ := hwf.snapshot hidx hmi hfee
      have hmint := hU.mint_ne (done.supply_ne_zero)
      obtain ⟨quote, hquote, hredeemed⟩ := done.quoted hwf.custody hmint hp
      exact ⟨snap, quote, hsnap, hquote, hredeemed⟩

/-- The local fund after half a year, quoted and then traded with. -/
theorem quotes_are_exact_local : ∃ (w w' w'' : World) (idx : Index) (snap : Sdk.IndexSnapshot)
    (q : Sdk.IssueQuote) (q' : Sdk.RedeemQuote), Reachable localnet w ∧
    w.index? localIndex = some idx ∧
    Sdk.snapshot localnet w idx.indexMint w.clock.toInt = .ok snap ∧ 0 < snap.pendingFee ∧
    Sdk.quoteIssue snap (1000000000 : UInt64).toNat = .ok q ∧
    IssuedAs localnet idx.indexMint idx w w' (addr 30) 1000000000 snap q ∧
    Sdk.quoteRedeem snap (1000000007 : UInt64).toNat = .ok q' ∧
    RedeemedAs localnet idx.indexMint idx w w'' (addr 30) 1000000007
      (pairs (tradeAccounts.drop 6)) snap q' := by
  obtain ⟨w, idx, hreach, hidx, hp⟩ := exists_of_run
    (openFund ⟨100, 30, 50, 100⟩ 2000000 333333333 ++ [localIssue 5000000000, .tick 15768000])
    (fun w idx => decide (idx.indexMint = addr 1) &&
      (endsIn (process localnet w tradeAccounts
        (.issue 1000000000 [2000000000000000000, 2000000000000000000])) fun _ => true) &&
      (endsIn (process localnet w tradeAccounts (.redeem 1000000007 [0, 0])) fun _ => true) &&
      match Sdk.snapshot localnet w (addr 1) w.clock.toInt with
      | .ok snap => decide (0 < snap.pendingFee)
      | .error _ => false)
    (by decide +kernel)
  simp only [Bool.and_eq_true, decide_eq_true_eq, endsIn_iff] at hp
  obtain ⟨⟨⟨hm, w', hissue, -⟩, w'', hredeem, -⟩, hpending⟩ := hp
  obtain ⟨hquote, hquote'⟩ := quotes_are_exact hreach hidx trade_signable hm.symm
  obtain ⟨snap, q, hsnap, hq, hissued⟩ := hquote _ _ _ hissue
  obtain ⟨snap', q', hsnap', hq', hredeemed⟩ := hquote' _ _ _ hredeem
  obtain rfl := Except.ok.inj (hsnap.symm.trans hsnap')
  rw [hm] at hsnap
  rw [hsnap] at hpending
  rw [← hm] at hsnap
  exact ⟨w, w', w'', idx, snap, q, q', hreach, hidx, hsnap, of_decide_eq_true hpending, hq,
    hissued, hq', hredeemed⟩

end Flock
