import Flock.FreeLunch

/-!
# Backing per token on one entry or exit

An exit never lowers what stands behind a token: the payout is a floor of a
floor. An entry pays the ceiling of a price made of a floored quote, and the two
roundings pull apart. `backing_per_token_iff` says when the ceiling wins.
-/

namespace Flock

open Outcome MachineInt

variable {ch : Chain} {m : Pubkey} {w w₁ w₂ w' : World} {idx : Index}

/-- An accrual leaves every pool in one state, whatever world it is read in. -/
theorem Accrual.pool_unique {feeAta : Pubkey} {owed owed' : UInt64}
    (h : Accrual ch m idx w w₁ feeAta owed) (h' : Accrual ch m idx w w₂ feeAta owed')
    (c : Component) : w₂.pool ch m c = w₁.pool ch m c := by
  have hA := h.leg.flow.amount (ch.vaultKey m c.mint)
  have hA' := h'.leg.flow.amount (ch.vaultKey m c.mint)
  have hvault : w₂.vault ch m c = w₁.vault ch m c := by
    rw [h.owed_unique h'] at hA'
    unfold World.vault
    omega
  rw [World.pool, World.pool, h.supply_unique h', hvault]

/-- Index tokens an issue mints in all: the amount and the fee on it. -/
def Index.grossIssue (idx : Index) (amount : UInt64) : Nat :=
  amount.toNat + (amount.toNat * idx.issueFeeBps.toNat) ⌈/⌉ bps

/-- The rounding of the delivery makes good the rounding of the units. -/
def RoundsInFavour (ch : Chain) (m : Pubkey) (idx : Index) (w₁ : World) (amount : UInt64)
    (c : Component) : Prop :=
  Pool.quoteDust unitScale (w₁.pool ch m c) * idx.grossIssue amount ≤
    Pool.priceDust unitScale (Pool.rate unitScale (w₁.pool ch m c)) (idx.grossIssue amount)
      * w₁.supply m

/-- The rounding of an entry; an exit needs none. -/
def TradeRounds (ch : Chain) (m : Pubkey) (idx : Index) (w₁ : World) : FlockInstruction → Prop
  | .issue amount _ => ∀ c ∈ idx.components, RoundsInFavour ch m idx w₁ amount c
  | _ => True

theorem Issued.richer_iff {amount owed fee gross : UInt64} {maxIn : List UInt64}
    {userIndexAta feeAta : Pubkey}
    (h : Issued ch m idx w w₁ w' amount maxIn userIndexAta feeAta owed fee gross)
    (hC : Custody ch m w idx) (hS : w₁.supply m ≠ 0) {c : Component} (hc : c ∈ idx.components)
    (hne : c.mint ≠ m) :
    Pool.Richer (w₁.pool ch m c) (w'.pool ch m c) ↔ RoundsInFavour ch m idx w₁ amount c := by
  obtain ⟨dA, hl⟩ := h.leg
  obtain ⟨c₁, hc₁, he, hu⟩ := exists_refreshed w.clock hS (h.fits.resolve_left hS) hc
  have hpool : w₁.pool ch m c₁ = w₁.pool ch m c := World.pool_congr he
  have hgross : gross.toNat = idx.grossIssue amount := by
    rw [h.gross_eq, h.fee_eq, Index.grossIssue]
  have hshares : w'.supply m = w₁.supply m + idx.grossIssue amount := by
    have := hl.supply
    omega
  have hassets : w'.vault ch m c = w₁.vault ch m c +
      (Pool.rate unitScale (w₁.pool ch m c) * idx.grossIssue amount) ⌈/⌉ unitScale := by
    have hv := h.vault_eq hC hc₁ (by rw [he]; exact hne)
    rw [World.vault_congr he, World.vault_congr he] at hv
    rw [hv, ← hgross, ← hpool, ← hu]
    rfl
  exact Pool.richer_enter_iff unitScale_pos hshares hassets

theorem Redeemed.richer {amount owed fee net : UInt64} {user userIndexAta feeAta : Pubkey}
    {payees : List (AccountInfo × AccountInfo)}
    (h : Redeemed ch m idx w w₁ w' amount user userIndexAta feeAta payees owed fee net)
    (hS : w₁.supply m ≠ 0) {c : Component} (hc : c ∈ idx.components) :
    Pool.Richer (w₁.pool ch m c) (w'.pool ch m c) := by
  obtain ⟨dA, hl⟩ := h.leg
  obtain ⟨c₁, hc₁, he, hu⟩ := exists_refreshed w.clock hS h.fits hc
  obtain ⟨p, hp⟩ := h.exists_payee hc₁
  have hshares : w'.supply m + net.toNat = w₁.supply m := by
    have := hl.supply
    omega
  have hassets : w₁.vault ch m c ≤ w'.vault ch m c +
      Pool.rate unitScale (w₁.pool ch m c) * net.toNat / unitScale := by
    have hv := h.vault (c₁, p) hp
    have hf := single_nonneg feeAta (ch.vaultKey m c₁.mint) fee.toNat
    have hpay : paidOut ch m net c₁ p.2 ≤ c₁.units.toNat * net.toNat / unitScale :=
      paidOut_le ch m net c₁ p.2
    rw [World.vault_congr he, World.vault_congr he] at hv
    rw [hu, World.pool_congr he] at hpay
    simp only at hv
    omega
  exact Pool.richer_of_leave unitScale_pos hshares hassets

/-- A trade that succeeded was given the record of the mint it was given. -/
theorem trade_key {user indexInfo indexMintInfo userIndexAta feeAta tokenProgram : AccountInfo}
    {rest : List AccountInfo} {ix : FlockInstruction} (htrade : ix.isTrade = true)
    (h : process ch w (user :: indexInfo :: indexMintInfo :: userIndexAta :: feeAta ::
      tokenProgram :: rest) ix = .ok w') : indexInfo.key = ch.indexKey indexMintInfo.key := by
  cases ix with
  | issue amount maxIn =>
    simp only [process, issue, bind_ok_iff] at h
    obtain ⟨-, -, -, -, bump, hpda, -⟩ := h
    exact checkIndexPda_ok hpda
  | redeem amount minOut =>
    simp only [process, redeem, bind_ok_iff] at h
    obtain ⟨-, -, -, -, bump, hpda, -⟩ := h
    exact checkIndexPda_ok hpda
  | initIndex | addComponent | sealIndex | accrueFees | proposeRebalance | bid | endRebalance
  | setParams | setAuthority | setPaused => cases htrade

/-- From any reachable world and over any successful issue or redemption with
index tokens outstanding after the accrual: no vault holds less for a token than
after the accrual, if and only if the instruction is a redemption or an issue
whose roundings are in the fund's favour. -/
theorem backing_per_token_iff (h : Reachable ch w) {k : Pubkey} (hidx : w.index? k = some idx)
    {user indexInfo indexMintInfo userIndexAta feeAta tokenProgram : AccountInfo}
    {rest : List AccountInfo}
    (signable : Signable ch (user :: indexInfo :: indexMintInfo :: userIndexAta :: feeAta ::
      tokenProgram :: rest))
    (hm : indexMintInfo.key = idx.indexMint) {ix : FlockInstruction} (htrade : ix.isTrade = true)
    (done : process ch w (user :: indexInfo :: indexMintInfo :: userIndexAta :: feeAta ::
      tokenProgram :: rest) ix = .ok w')
    {owed : UInt64} (hacc : accrue ch w indexInfo indexMintInfo feeAta w.clock = .ok (owed, w₁))
    (hS : 0 < w₁.supply idx.indexMint) :
    (∀ c ∈ idx.components, w₁.vault ch idx.indexMint c * w'.supply idx.indexMint
        ≤ w'.vault ch idx.indexMint c * w₁.supply idx.indexMint) ↔
      TradeRounds ch idx.indexMint idx w₁ ix := by
  have hW : AllWf ch w := (reachable_wf h).1
  obtain ⟨rfl, hwf⟩ := hW hidx
  have hi := trade_key htrade done
  rw [hm] at hi
  have hA := accrue_accrual hacc (by rw [hm, hi]) (hi ▸ hidx)
  rw [hm] at hA
  have hcon : Concerns idx.indexMint (user :: indexInfo :: indexMintInfo :: userIndexAta ::
      feeAta :: tokenProgram :: rest) ix := by
    cases ix with
    | issue | redeem => exact congrArg some hm
    | initIndex | addComponent | sealIndex | accrueFees | proposeRebalance | bid | endRebalance
    | setParams | setAuthority | setPaused => cases htrade
  -- what is outstanding after the accrual was outstanding before it
  have hsup₀ : w.supply idx.indexMint ≠ 0 := by
    intro hzero
    have hsup := hA.leg.supply
    rw [hA.owed_zero hzero, UInt64.toNat_zero] at hsup
    omega
  have hmints := h.mint_ne hwf.custody.inUse hidx hsup₀
  rcases hW.call_cases hwf.custody.inUse signable done with heff | ⟨hne, -⟩
  swap
  · exact absurd hcon hne
  cases heff with
  | issue key before done =>
    obtain rfl := Option.some.inj (hidx.symm.trans before)
    -- the pools the handler worked on are those of the accrual
    have hpool := hA.pool_unique done.accrual
    refine forall₂_congr fun c hc => ?_
    have hsup := congrArg Pool.State.shares (hpool c)
    have hiff := done.richer_iff hwf.custody (by simp only [World.pool] at hsup; omega) hc
      (hmints c hc)
    unfold RoundsInFavour at hiff ⊢
    rw [hpool] at hiff
    simp only [World.pool] at hsup
    rw [hsup] at hiff
    exact hiff
  | redeem key signed before done =>
    obtain rfl := Option.some.inj (hidx.symm.trans before)
    have hpool := hA.pool_unique done.accrual
    refine iff_of_true (fun c hc => ?_) trivial
    have hsup := congrArg Pool.State.shares (hpool c)
    have hrich := done.richer (by simp only [World.pool] at hsup; omega) hc
    rw [hpool] at hrich
    exact hrich
  | initIndex | addComponent | sealIndex | accrueFees | proposeRebalance | bid | endRebalance
  | setParams | setAuthority | setPaused => cases htrade

instance (ch : Chain) (m : Pubkey) (idx : Index) (w₁ : World) (amount : UInt64) (c : Component) :
    Decidable (RoundsInFavour ch m idx w₁ amount c) :=
  Nat.decLe _ _

/-- The local holder trades, and the accrual at the head of the trade passes a
test together with what the trade leaves. -/
def afterTrade (ix : FlockInstruction) (p : World → Index → World → Bool) (w : World)
    (idx : Index) : Bool :=
  decide (idx.indexMint = addr 1) && endsIn (process localnet w tradeAccounts ix) fun w' =>
    endsIn (accrue localnet w indexAccount (account 1) (account 30) w.clock) fun r =>
      decide (0 < r.2.supply (addr 1)) && p r.2 idx w'

theorem afterTrade_iff {ix : FlockInstruction} {p : World → Index → World → Bool} :
    afterTrade ix p w idx = true ↔ idx.indexMint = addr 1 ∧
      ∃ w' owed w₁, process localnet w tradeAccounts ix = .ok w' ∧
        accrue localnet w indexAccount (account 1) (account 30) w.clock = .ok (owed, w₁) ∧
        0 < w₁.supply (addr 1) ∧ p w₁ idx w' = true := by
  unfold afterTrade
  rw [Bool.and_eq_true, decide_eq_true_eq]
  simp [endsIn_iff]

/-- Seven base units are issued after a deposit: the price is rounded up by more
than the quote was rounded down. -/
theorem backing_per_token_local : ∃ (w w₁ w' : World) (idx : Index), Reachable localnet w ∧
    w.index? localIndex = some idx ∧ w₁.supply idx.indexMint < w'.supply idx.indexMint ∧
    ∀ c ∈ idx.components, w₁.vault localnet idx.indexMint c * w'.supply idx.indexMint
      ≤ w'.vault localnet idx.indexMint c * w₁.supply idx.indexMint := by
  obtain ⟨w, idx, hreach, hidx, hp⟩ := exists_of_run
    (openFund ⟨0, 0, 0, 100⟩ 2000000 333333333 ++
      [localIssue 5000000000, .transfer (addr 21) (addr 1002) (addr 40) 1])
    (afterTrade (.issue 7 [2000000000000000000, 2000000000000000000]) fun w₁ idx w' =>
      decide (w₁.supply (addr 1) < w'.supply (addr 1)) &&
      idx.components.all fun c =>
        decide (RoundsInFavour localnet (addr 1) idx w₁ 7 c))
    (by decide +kernel)
  obtain ⟨hm, w', owed, w₁, hdone, hacc, hS, hp⟩ := afterTrade_iff.mp hp
  simp only [Bool.and_eq_true, List.all_eq_true, decide_eq_true_eq] at hp
  obtain ⟨hgrow, hround⟩ := hp
  rw [← hm] at hS hgrow hround
  exact ⟨w, w₁, w', idx, hreach, hidx, hgrow,
    (backing_per_token_iff hreach hidx trade_signable hm.symm rfl hdone hacc hS).mpr hround⟩

/-- A vault of 10000001 base units stands behind five tokens, and five more are
issued for 10000000: one base unit less than an exact share. -/
theorem issue_thins_backing : ∃ (w w₁ w' : World) (idx : Index) (owed : UInt64) (c : Component),
    Reachable localnet w ∧ w.index? localIndex = some idx ∧ c ∈ idx.components ∧
    Signable localnet tradeAccounts ∧
    process localnet w tradeAccounts
      (.issue 5000000000 [2000000000000000000, 2000000000000000000]) = .ok w' ∧
    accrue localnet w indexAccount (account 1) (account 30) w.clock = .ok (owed, w₁) ∧
    w₁.supply idx.indexMint = 5000000000 ∧ w₁.vault localnet idx.indexMint c = 10000001 ∧
    w'.supply idx.indexMint = 10000000000 ∧ w'.vault localnet idx.indexMint c = 20000001 ∧
    ¬ w₁.vault localnet idx.indexMint c * w'.supply idx.indexMint
      ≤ w'.vault localnet idx.indexMint c * w₁.supply idx.indexMint := by
  obtain ⟨w, idx, hreach, hidx, hp⟩ := exists_of_run
    (openFund ⟨0, 0, 0, 100⟩ 2000000 333333333 ++
      [localIssue 5000000000, .transfer (addr 21) (addr 1002) (addr 40) 1])
    (afterTrade (.issue 5000000000 [2000000000000000000, 2000000000000000000]) fun w₁ idx w' =>
      decide (w₁.supply (addr 1) = 5000000000) && decide (w'.supply (addr 1) = 10000000000) &&
      idx.components.any fun c => decide (w₁.vault localnet (addr 1) c = 10000001) &&
        decide (w'.vault localnet (addr 1) c = 20000001))
    (by decide +kernel)
  obtain ⟨hm, w', owed, w₁, hdone, hacc, -, hp⟩ := afterTrade_iff.mp hp
  simp only [Bool.and_eq_true, List.any_eq_true, decide_eq_true_eq] at hp
  obtain ⟨⟨hS, hS'⟩, c, hc, hB, hB'⟩ := hp
  rw [← hm] at hS hS' hB hB'
  refine ⟨w, w₁, w', idx, owed, c, hreach, hidx, hc, trade_signable, hdone, hacc, hS, hB, hS', hB',
    ?_⟩
  rw [hS, hS', hB, hB']
  decide

end Flock
