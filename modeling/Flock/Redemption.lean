import Flock.Localnet
import Flock.Pools
import Flock.Refusals
import Flock.SelfListing

/-!
# When redemption is open

A holder who names the right accounts gets through every check of `redeem`; what
is left is the arithmetic. `Exits` lists it: the streaming fee since the last
accrual, the supply with that fee, and the units of every component, before the
payouts and after. Each vault covers its payout, always.
-/

namespace Flock

open Outcome MachineInt

variable {ch : Chain} {m : Pubkey} {w w₁ w' : World} {idx : Index}

/-! ## Steps that go through -/

section Fee

variable {indexInfo indexMintInfo feeAta : AccountInfo}

/-- The fee of a redemption has an account to go to. -/
theorem mintFee_succeeds (hi : indexInfo.key = ch.indexKey m) (hm : indexMintInfo.key = m)
    (hidx : w.index? (ch.indexKey m) = some idx) (hC : Custody ch m w idx) (hsound : w.Sound)
    {fee : UInt64} {t : TokenAccount} (ht : w.token? feeAta.key = some t) (htm : t.mint = m)
    (hto : t.owner = idx.feeRecipient) (hf : t.frozen = false)
    (hroom : w.supply m + fee.toNat < 2 ^ 64) :
    Succeeds (mintFee ch w indexInfo indexMintInfo feeAta fee) := by
  obtain ⟨mi, hmi, hauth, -⟩ := hC.mint
  subst hm
  unfold mintFee
  split
  next hpos =>
    refine pass_succeeds (indexRef_of_custody hi hidx hC.header) ?_
    refine pass_succeeds (requireTokenAccount_ok_iff.mpr ⟨ht, htm, hto⟩) ?_
    rw [mintIndexTokens, if_neg fun h0 => by simp [h0] at hpos, hi]
    rw [World.supply_of_mint? hmi] at hroom
    exact mintTo_succeeds hsound hmi ht htm hauth hf hroom
  next => exact succeeds_ok w

end Fee

section Payouts

variable {indexInfo : AccountInfo} {net : UInt64}

/-- The payouts go through when every vault covers its own. -/
theorem redeemLoop_succeeds (hi : indexInfo.key = ch.indexKey m) {cs : List Component} {i : Nat}
    {minOuts : List UInt64} {ps : List (AccountInfo × AccountInfo)} (hsound : w.Sound)
    (hC : Custody ch m w idx) (hidx : w.index? (ch.indexKey m) = some idx)
    (hdrop : idx.components.drop i = cs)
    (hps : ps.map (fun p => p.1.key) = cs.map fun c => ch.vaultKey m c.mint)
    (hlen : minOuts.length = cs.length) (hzero : ∀ x ∈ minOuts, x = 0)
    (hcover : ∀ c ∈ cs, c.payout net ≤ w.vault ch m c)
    (hthaw : ∀ c ∈ cs, ∀ t, w.token? (ch.vaultKey m c.mint) = some t → t.frozen = false)
    (hrecv : ∀ x ∈ cs.zip ps, ∃ t, w.token? x.2.2.key = some t ∧ t.mint = x.1.mint ∧
      t.frozen = false) :
    Succeeds (redeemLoop ch indexInfo net w i minOuts ps) := by
  induction cs generalizing w i minOuts ps with
  | nil =>
    obtain rfl := List.length_eq_zero_iff.mp hlen
    exact succeeds_ok w
  | cons c cs ih =>
    match minOuts, ps, hlen, hps with
    | minOut :: minOuts, (v, r) :: ps, hlen, hps =>
      obtain ⟨hci, hdrop'⟩ := drop_eq_cons hdrop
      obtain ⟨hv, hps'⟩ := List.cons.inj hps
      have hvk : v.key = ch.vaultKey m c.mint := hv
      obtain ⟨hc, hmem, hnodup⟩ := hC.of_drop hdrop
      obtain ⟨tv, htv, htvm, htvo, htvd⟩ := hC.vaults c hc
      obtain ⟨tr, htr, htrm, htrf⟩ := hrecv (c, v, r) (List.mem_cons_self ..)
      have hle := hcover c (List.mem_cons_self ..)
      have hlt := w.vault_lt ch m c
      have hpay : (UInt64.ofNat (c.payout net)).toNat = c.payout net :=
        UInt64.toNat_ofNat_of_lt' (lt_of_le_of_lt hle hlt)
      refine pass_succeeds ((componentAt_ok_iff (hi ▸ hidx)).mpr ⟨hC.header, hci⟩) ?_
      refine pass_succeeds (lift_ok_iff.mpr (unitsOut_ok_iff.mpr hpay)) ?_
      refine pass_succeeds (failIf_of_not _ ?_) ?_
      · rw [hzero minOut (List.mem_cons_self ..)]
        exact UInt64.not_lt.mpr (UInt64.le_iff_toNat_le.mpr (Nat.zero_le _))
      refine pass_succeeds (requireTokenAccountOfMint_ok_iff.mpr ⟨htr, htrm⟩) ?_
      refine bind_succeeds ?_ fun w₁ hw₁ => ?_
      · unfold transferFromVault
        split
        next => exact succeeds_ok w
        next =>
          rw [World.vault, World.amount_of_token? htv] at hle
          rw [hvk, hi]
          exact transfer_succeeds hsound htv htr (htvm.trans htrm.symm) htvo htvd
            (hthaw c (List.mem_cons_self ..) tv htv) htrf (by rw [hpay]; exact hle)
      · -- the vaults still to pay are of other mints
        obtain ⟨hleg, hrec, -⟩ := transferFromVault_leg hw₁ hC.inUse hi
        rw [hvk] at hleg
        refine ih (hleg.flow.sound hsound) (hC.of_flow hleg.flow) (by rw [hrec, hidx]) hdrop' hps'
          (by simpa using hlen) (fun x hx => hzero x (List.mem_cons_of_mem _ hx)) ?_ ?_ ?_
        · intro c' hc'
          obtain ⟨t', ht', htm', -⟩ := hC.vaults c' (hmem c' hc')
          have hoff := single_sub_single_off (x := ((UInt64.ofNat (c.payout net)).toNat : ℤ)) htv htr
            ht' (by rw [htm', htvm]; exact hnodup _ hc') (by rw [htm', htrm]; exact hnodup _ hc')
          have hamount := hleg.flow.amount (ch.vaultKey m c'.mint)
          have hle' := hcover c' (List.mem_cons_of_mem _ hc')
          rw [hoff] at hamount
          rw [World.vault] at hle' ⊢
          omega
        · intro c' hc' t' ht'
          obtain ⟨t₀, ht₀, -⟩ := hC.vaults c' (hmem c' hc')
          obtain ⟨t₁, ht₁, -, -, hf₁, -⟩ := hleg.flow.account ht₀
          rw [ht₁, Option.some.injEq] at ht'
          rw [← ht', hf₁, hthaw c' (List.mem_cons_of_mem _ hc') t₀ ht₀]
        · intro x hx
          obtain ⟨t₀, ht₀, hm₀, hf₀⟩ := hrecv x (List.mem_cons_of_mem _ hx)
          obtain ⟨t₁, ht₁, hm₁, -, hf₁, -⟩ := hleg.flow.account ht₀
          exact ⟨t₁, ht₁, hm₁.trans hm₀, hf₁.trans hf₀⟩

end Payouts

/-! ## The condition -/

/-- The supply with the streaming fee since the last accrual minted. -/
def Index.grown (idx : Index) (now : Int64) (supply : Nat) : Nat :=
  supply + supply * (idx.streamingFeeBps.toNat * elapsed idx.lastFeeAccrual now) /
    (wholeYear - idx.streamingFeeBps.toNat * elapsed idx.lastFeeAccrual now)

/-- What is left of an amount after the redeem fee. -/
def Index.netOf (idx : Index) (amount : Nat) : Nat :=
  amount - (amount * idx.redeemFeeBps.toNat) ⌈/⌉ bps

/-- What a vault pays for `net` tokens of a supply, to the account named for it. -/
def World.pays (w : World) (ch : Chain) (m : Pubkey) (supply net : Nat)
    (x : Component × AccountInfo × AccountInfo) : Nat :=
  if x.2.2.key = ch.vaultKey m x.1.mint then 0
  else w.vault ch m x.1 * unitScale / supply * net / unitScale

/-- Nothing in a redemption of `amount` overflows. -/
structure Exits (ch : Chain) (m : Pubkey) (w : World) (idx : Index) (amount : Nat)
    (payees : List (AccountInfo × AccountInfo)) : Prop where
  /-- The fee since the last accrual is less than everything there is. -/
  short : idx.streamingFeeBps.toNat * elapsed idx.lastFeeAccrual w.clock < wholeYear
  grown : idx.grown w.clock (w.supply m) < 2 ^ 64
  before : ∀ c ∈ idx.components,
    w.vault ch m c * unitScale < 2 ^ 64 * idx.grown w.clock (w.supply m)
  after : idx.grown w.clock (w.supply m) = idx.netOf amount ∨
    ∀ x ∈ idx.components.zip payees,
      (w.vault ch m x.1 - w.pays ch m (idx.grown w.clock (w.supply m)) (idx.netOf amount) x)
          * unitScale
        < 2 ^ 64 * (idx.grown w.clock (w.supply m) - idx.netOf amount)

/-- The accounts a holder redeems with: the token program lets the holder burn
that much, every recipient and the fee account are what they should be, and
nobody froze any of them. -/
structure RedeemAccounts (ch : Chain) (m : Pubkey) (w : World) (idx : Index) (amount : UInt64)
    (user indexInfo indexMintInfo userIndexAta feeAta tokenProgram : AccountInfo)
    (rest : List AccountInfo) : Prop where
  signed : user.isSigner = true
  outsider : ch.Outsider user.key
  index : indexInfo.key = ch.indexKey m
  mint : indexMintInfo.key = m
  token : tokenProgram.key = ch.token.id
  holder : ∃ t, w.token? userIndexAta.key = some t ∧ t.mint = m ∧
    ch.token.mayBurn t user.key amount = true ∧ amount.toNat ≤ t.amount.toNat ∧ t.frozen = false
  fee : ∃ t, w.token? feeAta.key = some t ∧ t.mint = m ∧ t.owner = idx.feeRecipient ∧
    t.frozen = false
  length : rest.length = idx.components.length * 2
  vaults : ((pairs rest).map Prod.fst).map AccountInfo.key = idx.vaultKeys ch m
  recipients : ∀ x ∈ idx.components.zip (pairs rest), ∃ t, w.token? x.2.2.key = some t ∧
    t.mint = x.1.mint ∧ t.frozen = false
  thawed : ∀ c ∈ idx.components, ∀ t, w.token? (ch.vaultKey m c.mint) = some t → t.frozen = false

/-! ## Enough for the way out -/

section Enough

variable {amount : UInt64}
  {user indexInfo indexMintInfo userIndexAta feeAta tokenProgram : AccountInfo}
  {rest : List AccountInfo} (hidx : w.index? (ch.indexKey m) = some idx)
  (hC : Custody ch m w idx) (hsound : w.Sound)
  (hacc : RedeemAccounts ch m w idx amount user indexInfo indexMintInfo userIndexAta feeAta
    tokenProgram rest)
include hC hsound hacc

/-- A holder has no more than there is. -/
theorem RedeemAccounts.amount_le : amount.toNat ≤ w.supply m := by
  obtain ⟨t, ht, htm, -, hle, -⟩ := hacc.holder
  obtain ⟨mi, hmi, hauth, -⟩ := hC.mint
  have htotal := w.held_le_total m userIndexAta.key
  rw [World.held_of_token? ht, if_pos htm] at htotal
  have hminted := hsound.minted m mi hmi (by rw [hauth]; rfl)
  rw [World.supply_of_mint? hmi]
  omega

include hidx

/-- The accrual in front goes through, and leaves the supply the formula gives. -/
theorem RedeemAccounts.accrues (hsettled : idx.lastFeeAccrual ≤ w.clock) (hS : w.supply m ≠ 0)
    (hshort : idx.streamingFeeBps.toNat * elapsed idx.lastFeeAccrual w.clock < wholeYear)
    (hgrown : idx.grown w.clock (w.supply m) < 2 ^ 64) :
    Succeeds (accrue ch w indexInfo indexMintInfo feeAta w.clock) := by
  obtain ⟨mi, hmi, -⟩ := hC.mint
  rw [World.supply_of_mint? hmi] at hS hgrown
  unfold Index.grown at hgrown
  have howed := (streamingFeeTokens_ok_iff hS hsettled).mpr
    ⟨hshort, UInt64.toNat_ofNat_of_lt' (lt_of_le_of_lt (Nat.le_add_left ..) hgrown)⟩
  refine accrue_succeeds hacc.index hidx hC hacc.mint hsound hmi howed fun _ => ⟨?_, hacc.fee⟩
  rw [UInt64.toNat_ofNat_of_lt' (lt_of_le_of_lt (Nat.le_add_left ..) hgrown)]
  exact hgrown

end Enough

/-- Tables of the same mints pair up with the same payees. -/
theorem exists_zip_of_mints {cs cs' : List Component} {ps : List (AccountInfo × AccountInfo)}
    (h : cs'.map Component.mint = cs.map Component.mint)
    {x : Component × AccountInfo × AccountInfo} (hx : x ∈ cs'.zip ps) :
    ∃ y ∈ cs.zip ps, y.1.mint = x.1.mint ∧ y.2 = x.2 := by
  have hmem : Prod.map Component.mint id x ∈ (cs'.map Component.mint).zip ps := by
    rw [List.zip_map_left]
    exact List.mem_map_of_mem hx
  rw [h, List.zip_map_left] at hmem
  obtain ⟨y, hy, he⟩ := List.mem_map.mp hmem
  obtain ⟨hmint, hpayee⟩ := Prod.mk.inj he
  exact ⟨y, hy, hmint, hpayee⟩

/-- A vault covers its payout: what the units promise on the whole supply is there. -/
theorem payout_le_vault {net : UInt64} {now : Int64} (hS : w₁.supply m ≠ 0)
    (hfit : UnitsFit ch m w₁ idx) (hnet : net.toNat ≤ w₁.supply m) {c : Component}
    (hc : c ∈ (idx.refreshed ch m w₁ now).components) : c.payout net ≤ w₁.vault ch m c := by
  have hfit' : UnitsFit ch m w₁ (idx.accrued now) := hfit
  have hu := synced_units hS hfit' hc
  calc c.payout net ≤ w₁.vault ch m c * unitScale / w₁.supply m * w₁.supply m / unitScale := by
        rw [Component.payout, hu]
        exact Nat.div_le_div_right (Nat.mul_le_mul_left _ hnet)
    _ ≤ w₁.vault ch m c * unitScale / unitScale := Nat.div_le_div_right (Nat.div_mul_le_self _ _)
    _ = w₁.vault ch m c := Nat.mul_div_cancel _ unitScale_pos

theorem Accrual.grown {feeAta : Pubkey} {owed : UInt64} (h : Accrual ch m idx w w₁ feeAta owed)
    (hsettled : idx.lastFeeAccrual ≤ w.clock) (hS : w.supply m ≠ 0) :
    idx.streamingFeeBps.toNat * elapsed idx.lastFeeAccrual w.clock < wholeYear ∧
      w₁.supply m = idx.grown w.clock (w.supply m) := by
  obtain ⟨mi, hmi, hfee⟩ := h.fee
  have hsupply := h.leg.supply
  rw [World.supply_of_mint? hmi] at hS hsupply ⊢
  obtain ⟨hshort, howed⟩ := (streamingFeeTokens_ok_iff hS hsettled).mp hfee
  refine ⟨hshort, ?_⟩
  unfold Index.grown
  omega

/-- What the vaults pay, read off the world before the redemption. -/
theorem paidOut_eq {net : UInt64} {now : Int64} (hS : w₁.supply m ≠ 0)
    (hfit : UnitsFit ch m w₁ idx) {x y : Component × AccountInfo × AccountInfo}
    (hx : x.1 ∈ (idx.refreshed ch m w₁ now).components) (hmint : y.1.mint = x.1.mint)
    (hpayee : y.2 = x.2) (hvault : w₁.vault ch m x.1 = w.vault ch m x.1) :
    paidOut ch m net x.1 x.2.2 = w.pays ch m (w₁.supply m) net.toNat y := by
  have hfit' : UnitsFit ch m w₁ (idx.accrued now) := hfit
  have hu := synced_units hS hfit' hx
  rw [World.pays, hpayee, hmint, World.vault_congr hmint, ← hvault, paidOut]
  split
  next => rfl
  next =>
    rw [Component.payout, hu]
    rfl

section Left

variable {net : UInt64} {now : Int64} {payees : List (AccountInfo × AccountInfo)}
  (hS : w₁.supply m ≠ 0) (hfit : UnitsFit ch m w₁ idx)
  (hvault : ∀ c ∈ idx.components, w₁.vault ch m c = w.vault ch m c)
  (hpaid : ∀ x ∈ (idx.refreshed ch m w₁ now).components.zip payees,
    w'.vault ch m x.1 + paidOut ch m net x.1 x.2.2 = w₁.vault ch m x.1)
include hS hfit hvault hpaid

/-- What is left in the vaults, read off the world before the redemption. -/
theorem left_eq : ∀ x ∈ idx.components.zip payees,
    w'.vault ch m x.1 = w.vault ch m x.1 - w.pays ch m (w₁.supply m) net.toNat x := by
  have hmints : (idx.refreshed ch m w₁ now).components.map Component.mint
      = idx.components.map Component.mint := Index.refreshed_mints now
  -- one payee at a time, whichever of the two tables it is paired with
  intro y hy
  obtain ⟨x, hx, hmint, hpayee⟩ := exists_zip_of_mints hmints.symm hy
  have hkept : w₁.vault ch m x.1 = w.vault ch m x.1 := by
    rw [World.vault_congr hmint, World.vault_congr hmint]
    exact hvault y.1 (List.of_mem_zip hy).1
  have heq := hpaid x hx
  rw [paidOut_eq hS hfit (List.of_mem_zip hx).1 hmint.symm hpayee.symm hkept, hkept,
    World.vault_congr hmint, World.vault_congr hmint] at heq
  omega

/-- The units fit after the payouts exactly when they fit after what the vaults pay. -/
theorem left_iff (hlen : payees.length = idx.components.length)
    (hsup : w'.supply m + net.toNat = w₁.supply m) :
    (w'.supply m = 0 ∨ UnitsFit ch m w' idx) ↔
      (w₁.supply m = net.toNat ∨ ∀ x ∈ idx.components.zip payees,
        (w.vault ch m x.1 - w.pays ch m (w₁.supply m) net.toNat x) * unitScale
          < 2 ^ 64 * (w₁.supply m - net.toNat)) := by
  have hsupply : w'.supply m = w₁.supply m - net.toNat := by omega
  have hleft := left_eq hS hfit hvault hpaid
  rw [hsupply]
  refine or_congr (by omega) ?_
  constructor
  · intro h x hx
    rw [← hleft x hx, ← hsupply]
    exact h x.1 (List.of_mem_zip hx).1
  · intro h c hc
    obtain ⟨p, hp⟩ := exists_mem_zip hlen hc
    rw [hleft (c, p) hp, hsupply]
    exact h (c, p) hp

end Left

section Way

variable {amount : UInt64}
  {user indexInfo indexMintInfo userIndexAta feeAta tokenProgram : AccountInfo}
  {rest : List AccountInfo} (hidx : w.index? (ch.indexKey m) = some idx)
  (hC : Custody ch m w idx) (hsound : w.Sound)
  (hacc : RedeemAccounts ch m w idx amount user indexInfo indexMintInfo userIndexAta feeAta
    tokenProgram rest)
include hC hsound hacc

/-- After the accrual and the sync, the tokens are burned and the vaults pay. -/
theorem RedeemAccounts.moves {owed fee net : UInt64} {minOut : List UInt64} (hpos : amount ≠ 0)
    (hA : Accrual ch m idx w w₁ feeAta.key owed)
    (hkept : ∀ {j t}, w.token? j = some t → ∃ n, w₁.token? j = some { t with amount := n } ∧
      t.amount.toNat ≤ n.toNat)
    (hfit : UnitsFit ch m w₁ idx) (hnet : net.toNat + fee.toNat = amount.toNat)
    (hlen : minOut.length = idx.components.length) (hzero : ∀ x ∈ minOut, x = 0) :
    let w₂ := w₁.setIndex (ch.indexKey m) (idx.refreshed ch m w₁ w.clock)
    Succeeds (burnIndexTokens ch w₂ indexMintInfo userIndexAta user amount) ∧
      ∀ w₃, burnIndexTokens ch w₂ indexMintInfo userIndexAta user amount = .ok w₃ →
        Succeeds (mintFee ch w₃ indexInfo indexMintInfo feeAta fee) ∧
        ∀ w₄, mintFee ch w₃ indexInfo indexMintInfo feeAta fee = .ok w₄ →
          Succeeds (redeemLoop ch indexInfo net w₄ 0 minOut (pairs rest)) := by
  intro w₂
  have hle := hacc.amount_le hC hsound
  have hL₂ := Leg.of_setIndex hA.record (idx.refreshed ch m w₁ w.clock)
  have hflow₂ := hA.leg.flow.trans hL₂.flow
  have hR₂ : w₂.index? (ch.indexKey m) = some (idx.refreshed ch m w₁ w.clock) :=
    World.index?_setIndex_self _
  have hC₂ := (hC.of_flow hflow₂).refreshed w₁ w.clock
  have hsup₁ := hA.leg.supply
  have hsup₂ : (w₂.supply m : ℤ) = w.supply m + owed.toNat := by
    rw [(hA.leg.trans hL₂).supply]
    omega
  have hpos' : amount.toNat ≠ 0 := by
    rw [← UInt64.toNat_zero]
    exact fun e => hpos (UInt64.toNat_inj.mp e)
  have hmints : (idx.refreshed ch m w₁ w.clock).components.map Component.mint
      = idx.components.map Component.mint := Index.refreshed_mints w.clock
  constructor
  · obtain ⟨t, ht, htm, hmay, hta, htf⟩ := hacc.holder
    obtain ⟨n, ht₁, hn⟩ := hkept ht
    have ha := World.accounts_of_index? hA.record
    have ht₂ : w₂.token? userIndexAta.key = some { t with amount := n } :=
      (congrFun (World.token?_set_of_not (by simp) (by simp [ha])) _).trans ht₁
    obtain ⟨mi₂, hmi₂, -⟩ := hC₂.mint
    rw [World.supply_of_mint? hmi₂] at hsup₂
    unfold burnIndexTokens
    rw [hacc.mint]
    refine ch.token.burn_accepts hmi₂ ht₂ htm ?_ htf (hta.trans hn) (by omega)
    rw [ch.token.mayBurn_amount]
    exact hmay
  · intro w₃ hw₃
    obtain ⟨hL₃, hR₃, hfree⟩ := burnIndexTokens_leg hw₃ hacc.mint hacc.outsider
    have hflow₃ := hflow₂.trans hL₃.flow
    have hR₃' : w₃.index? (ch.indexKey m) = some (idx.refreshed ch m w₁ w.clock) := by
      rw [hR₃, hR₂]
    constructor
    · obtain ⟨t, ht, htm, hto, htf⟩ := hacc.fee
      obtain ⟨t', ht', htm', hto', htf', -⟩ := hflow₃.account ht
      refine mintFee_succeeds hacc.index hacc.mint hR₃' (hC₂.of_flow hL₃.flow)
        (hflow₃.sound hsound) ht' (htm'.trans htm) ?_ (htf'.trans htf) ?_
      · rw [hto', hto, Index.refreshed_eq]
      · -- the fee is part of what was burned
        have hsup₃ := hL₃.supply
        have hlt := w₂.supply_lt m
        omega
    · intro w₄ hw₄
      obtain ⟨hL₄, hR₄⟩ := mintFee_leg hw₄ hacc.mint
      have hflow₄ := hflow₃.trans hL₄.flow
      have hkeys := Index.synced_vaultKeys ch m w₁ (idx.accrued w.clock)
      refine redeemLoop_succeeds hacc.index (hflow₄.sound hsound)
        ((hC.of_flow hflow₄).refreshed w₁ w.clock) (by rw [hR₄, hR₃']) List.drop_zero
        (pairs_vaults (hacc.vaults.trans hkeys.symm)) ?_ hzero ?_ ?_ ?_
      · exact hlen.trans (Index.synced_length ch m w₁ (idx.accrued w.clock)).symm
      · intro c hc
        have hpays := payout_le_vault (show w₁.supply m ≠ 0 by omega) hfit
          (show net.toNat ≤ w₁.supply m by omega) hc
        have hsrc : ch.vaultKey m c.mint ≠ userIndexAta.key := fun e =>
          hfree _ (e ▸ hC₂.custodied hc)
        have h₂ : (w₂.amount (ch.vaultKey m c.mint) : ℤ) = w₁.amount (ch.vaultKey m c.mint) + 0 :=
          hL₂.flow.amount _
        have h₃ := hL₃.flow.amount (ch.vaultKey m c.mint)
        have h₄ := hL₄.flow.amount (ch.vaultKey m c.mint)
        have hcredit := single_nonneg feeAta.key (ch.vaultKey m c.mint) fee.toNat
        rw [Pi.neg_apply, Pi.single_eq_of_ne hsrc] at h₃
        rw [World.vault] at hpays ⊢
        omega
      · intro c hc t ht
        obtain ⟨c₀, hc₀, he⟩ := List.mem_map.mp (hmints ▸ List.mem_map_of_mem hc)
        obtain ⟨t₀, ht₀, -⟩ := hC.vaults c₀ hc₀
        obtain ⟨t', ht', -, -, hf', -⟩ := hflow₄.account ht₀
        rw [← he, ht', Option.some.injEq] at ht
        rw [← ht, hf', hacc.thawed c₀ hc₀ t₀ ht₀]
      · intro x hx
        obtain ⟨y, hy, hmint, hpayee⟩ := exists_zip_of_mints hmints hx
        obtain ⟨t, ht, htm, htf⟩ := hacc.recipients y hy
        obtain ⟨t', ht', htm', -, htf', -⟩ := hflow₄.account ht
        rw [hpayee] at ht'
        exact ⟨t', ht', (htm'.trans htm).trans hmint, htf'.trans htf⟩

include hidx

/-- Where nothing overflows, the holder gets out. -/
theorem RedeemAccounts.redeems (hpos : amount ≠ 0) (hsealed : idx.state ≠ stateBootstrapping)
    (hsettled : idx.lastFeeAccrual ≤ w.clock) (hcap : idx.redeemFeeBps.toNat ≤ bps)
    (hne : ∀ c ∈ idx.components, c.mint ≠ m)
    (hE : Exits ch m w idx amount.toNat (pairs rest)) :
    Succeeds (redeem ch w (user :: indexInfo :: indexMintInfo :: userIndexAta :: feeAta ::
      tokenProgram :: rest) amount (List.replicate idx.components.length 0)) := by
  have hi := hacc.index
  have hm := hacc.mint
  have hle := hacc.amount_le hC hsound
  have hpos' : amount.toNat ≠ 0 := by
    rw [← UInt64.toNat_zero]
    exact fun e => hpos (UInt64.toNat_inj.mp e)
  have hS : w.supply m ≠ 0 := by omega
  obtain ⟨tu, htu, htum, -⟩ := hacc.holder
  subst hm
  refine pass_succeeds (failIf_of_not _ (by simp [hacc.signed])) ?_
  refine pass_succeeds (failIf_of_not _ (not_not.mpr hacc.token)) ?_
  refine pass_succeeds (checkIndexPda_of_key hi rfl) ?_
  refine pass_succeeds (failIf_of_not _ hpos) ?_
  refine pass_succeeds (indexRef_of_custody hi hidx hC.header) ?_
  refine pass_succeeds (failIf_of_not _ hsealed) ?_
  refine pass_succeeds (failIf_of_not _ ?_) ?_
  · rw [List.length_replicate, hacc.length]
    omega
  refine pass_succeeds (requireTokenAccountOfMint_ok_iff.mpr ⟨htu, htum⟩) ?_
  refine bind_succeeds (hacc.accrues hidx hC hsound hsettled hS hE.short hE.grown) fun r hr => ?_
  obtain ⟨owed, w₁⟩ := r
  have hA := accrue_accrual hr hi (by rw [hi, hidx])
  obtain ⟨-, hgrown⟩ := hA.grown hsettled hS
  have hC₁ := (hC.of_flow hA.leg.flow).accrued w.clock
  obtain ⟨mi₁, hmi₁, -⟩ := hC₁.mint
  have hvault : ∀ c ∈ idx.components, w₁.vault ch indexMintInfo.key c = w.vault ch _ c :=
    fun c hc => hA.vault_eq hC hc (hne c hc)
  have hfit : UnitsFit ch indexMintInfo.key w₁ idx := by
    intro c hc
    rw [hvault c hc, hgrown]
    exact hE.before c hc
  have hsup₁ := hA.leg.supply
  refine pass_succeeds ((verifyVaults_ok_iff hC₁ hi hA.record).mpr ⟨hacc.vaults, rfl⟩) ?_
  refine pass_succeeds (readMint_ok_iff.mpr hmi₁) ?_
  refine pass_succeeds (failIf_of_not _ ?_) ?_
  · rw [UInt64.not_lt, UInt64.le_iff_toNat_le, ← World.supply_of_mint? hmi₁]
    omega
  refine pass_succeeds ((syncUnits_ok_iff hC₁ hi hA.record hmi₁).mpr ⟨.inr hfit, rfl⟩) ?_
  -- the fee is part of the amount
  have hfee : (amount.toNat * idx.redeemFeeBps.toNat) ⌈/⌉ bps ≤ amount.toNat := by
    rw [ceilDiv_le_iff_le_mul (by decide), Nat.mul_comm bps]
    exact Nat.mul_le_mul_left _ hcap
  have hlt := amount.toNat_lt
  obtain ⟨fee, hfeeN⟩ : ∃ fee : UInt64,
      fee.toNat = (amount.toNat * idx.redeemFeeBps.toNat) ⌈/⌉ bps :=
    ⟨_, UInt64.toNat_ofNat_of_lt' (lt_of_le_of_lt hfee hlt)⟩
  obtain ⟨net, hnetN⟩ : ∃ net : UInt64, net.toNat = idx.netOf amount.toNat :=
    ⟨_, UInt64.toNat_ofNat_of_lt' (lt_of_le_of_lt (Nat.sub_le _ _) hlt)⟩
  have hnet : net.toNat + fee.toNat = amount.toNat := by
    rw [hnetN, hfeeN, Index.netOf]
    omega
  have hprod : amount.toNat * idx.redeemFeeBps.toNat < 2 ^ 128 := by
    have := Nat.mul_lt_mul'' hlt idx.redeemFeeBps.toNat_lt
    omega
  refine pass_succeeds (lift_ok_iff.mpr (mulDivCeil_ok_iff.mpr ⟨by decide, hprod, rfl⟩)) ?_
  refine pass_succeeds (lift_ok_iff.mpr (toU64_ok_iff.mpr hfeeN)) ?_
  refine pass_succeeds (lift_ok_iff.mpr (checkedSub_ok_iff.mpr hnet)) ?_
  obtain ⟨hburn, hthen⟩ := hacc.moves hC hsound hpos hA (accrue_account hr) hfit hnet
    (List.length_replicate ..) fun x hx => List.eq_of_mem_replicate hx
  refine bind_succeeds hburn fun w₃ hw₃ => ?_
  obtain ⟨hmint, hthen⟩ := hthen w₃ hw₃
  refine bind_succeeds hmint fun w₄ hw₄ => ?_
  refine bind_succeeds (hthen w₄ hw₄) fun w₅ hw₅ => ?_
  -- what is left is in order, by the condition
  have hL₂ := Leg.of_setIndex hA.record (idx.refreshed ch indexMintInfo.key w₁ w.clock)
  have hC₂ := (hC.of_flow (hA.leg.flow.trans hL₂.flow)).refreshed w₁ w.clock
  have hkeys : (idx.refreshed ch indexMintInfo.key w₁ w.clock).vaultKeys ch indexMintInfo.key
      = idx.vaultKeys ch indexMintInfo.key := Index.synced_vaultKeys ch _ w₁ (idx.accrued w.clock)
  have hmints : (idx.refreshed ch indexMintInfo.key w₁ w.clock).components.map Component.mint
      = idx.components.map Component.mint := Index.refreshed_mints w.clock
  have hlen := Index.synced_length ch indexMintInfo.key w₁ (idx.accrued w.clock)
  obtain ⟨dA, hL₅, hR₅, hpaid, hfeeAcc, -⟩ := redeem_moves rfl hi hacc.outsider hC₂
    (World.index?_setIndex_self _) ((pairs_vaults hacc.vaults).trans hkeys.symm)
    ((List.length_replicate ..).trans hlen.symm) hnet hw₃ hw₄ hw₅
  have hC₅ := hC₂.of_flow hL₅.flow
  have hsup₅ := hL₅.supply
  rw [World.supply_setIndex hA.record] at hsup₅
  have hS₁ : w₁.supply indexMintInfo.key ≠ 0 := by omega
  have hsum : w₅.supply indexMintInfo.key + net.toNat = w₁.supply indexMintInfo.key := by omega
  have hpayees : (pairs rest).length = idx.components.length := by
    have h := congrArg List.length hacc.vaults
    simpa only [Index.vaultKeys, List.length_map] using h
  have hlost : ∀ x ∈ (idx.refreshed ch indexMintInfo.key w₁ w.clock).components.zip (pairs rest),
      w₅.vault ch indexMintInfo.key x.1 + paidOut ch indexMintInfo.key net x.1 x.2.2
        = w₁.vault ch indexMintInfo.key x.1 := by
    intro x hx
    have hv := hpaid x hx
    have hx₁ := (List.of_mem_zip hx).1
    rw [World.vault_setIndex hA.record] at hv
    by_cases hfee0 : fee.toNat = 0
    · rw [hfee0, Nat.cast_zero, Pi.single_zero, Pi.zero_apply] at hv
      omega
    · obtain ⟨t, ht, htm, -⟩ := hfeeAcc hfee0
      rw [Pi.single_eq_of_ne (hC₅.ne_vault hx₁ (mint_ne_of_mints hne hmints _ hx₁) ht htm)] at hv
      omega
  have hleft := (left_iff hS₁ hfit hvault hlost hpayees hsum).mpr (by
    rw [hgrown, hnetN]
    exact hE.after)
  refine ⟨_, (resync_ok_iff hC₅ hi rfl hR₅).mpr ⟨hacc.vaults.trans hkeys.symm, ?_, rfl⟩⟩
  exact hleft.imp id (unitsFit_congr hmints).mpr

end Way

/-! ## And no more than enough -/

/-- Whoever got out found nothing overflowing. -/
theorem Redeemed.exits {amount owed fee net : UInt64} {user userIndexAta feeAta : Pubkey}
    {payees : List (AccountInfo × AccountInfo)}
    (h : Redeemed ch m idx w w₁ w' amount user userIndexAta feeAta payees owed fee net)
    (hC : Custody ch m w idx) (hsettled : idx.lastFeeAccrual ≤ w.clock) (hS : w.supply m ≠ 0)
    (hne : ∀ c ∈ idx.components, c.mint ≠ m) : Exits ch m w idx amount.toNat payees := by
  obtain ⟨hshort, hgrown⟩ := h.accrual.grown hsettled hS
  obtain ⟨dA, hL⟩ := h.leg
  have hsup₁ := h.accrual.leg.supply
  have hsup' := hL.supply
  have hvault : ∀ c ∈ idx.components, w₁.vault ch m c = w.vault ch m c :=
    fun c hc => h.accrual.vault_eq hC hc (hne c hc)
  have hS₁ : w₁.supply m ≠ 0 := by omega
  have hnet : net.toNat = idx.netOf amount.toNat := by
    have hsum := h.net_eq
    rw [Index.netOf, ← h.fee_eq]
    omega
  have hlen : payees.length = idx.components.length := by
    have hkeys := congrArg List.length h.vaults
    simpa only [Index.vaultKeys, List.length_map] using hkeys
  have hmints : (idx.refreshed ch m w₁ w.clock).components.map Component.mint
      = idx.components.map Component.mint := Index.refreshed_mints w.clock
  have hsum : w'.supply m + net.toNat = w₁.supply m := by omega
  have hpaid : ∀ x ∈ (idx.refreshed ch m w₁ w.clock).components.zip payees,
      w'.vault ch m x.1 + paidOut ch m net x.1 x.2.2 = w₁.vault ch m x.1 := fun x hx =>
    h.vault_eq hC hx (mint_ne_of_mints hne hmints _ (List.of_mem_zip hx).1)
  have hleft := (left_iff hS₁ h.fits hvault hpaid hlen hsum).mp h.fits'
  refine ⟨hshort, ?_, ?_, ?_⟩
  · rw [← hgrown]
    exact w₁.supply_lt m
  · intro c hc
    rw [← hgrown, ← hvault c hc]
    exact h.fits c hc
  · rw [← hgrown, ← hnet]
    exact hleft

/-- For every holder and every amount they hold: redemption is open exactly when
nothing overflows, whatever happened before and whoever did it. -/
theorem redemption_open_iff (h : Reachable ch w) {k : Pubkey} (hidx : w.index? k = some idx)
    (hsealed : idx.state ≠ stateBootstrapping) {amount : UInt64} (hpos : amount ≠ 0)
    {user indexInfo indexMintInfo userIndexAta feeAta tokenProgram : AccountInfo}
    {rest : List AccountInfo}
    (hacc : RedeemAccounts ch idx.indexMint w idx amount user indexInfo indexMintInfo userIndexAta
      feeAta tokenProgram rest) :
    Succeeds (process ch w (user :: indexInfo :: indexMintInfo :: userIndexAta :: feeAta ::
      tokenProgram :: rest) (.redeem amount (List.replicate idx.components.length 0))) ↔
      Exits ch idx.indexMint w idx amount.toNat (pairs rest) := by
  obtain ⟨hW, hsound⟩ := reachable_wf h
  obtain ⟨rfl, hwf⟩ := hW hidx
  have hC := hwf.custody
  have hle := hacc.amount_le hC hsound
  have hpos' : amount.toNat ≠ 0 := by
    rw [← UInt64.toNat_zero]
    exact fun e => hpos (UInt64.toNat_inj.mp e)
  have hS : w.supply idx.indexMint ≠ 0 := by omega
  have hne := h.mint_ne hC.inUse hidx hS
  constructor
  · intro hdone
    obtain ⟨w', hw'⟩ := hdone
    obtain ⟨idx₁, w₁, owed, fee, net, hidx₁, -, hR⟩ := redeem_redeemed hacc.mint hw'
      (fun _ => hacc.outsider) fun h₁ => Option.some.inj (hidx.symm.trans h₁) ▸ hC
    obtain rfl := Option.some.inj (hidx.symm.trans hidx₁)
    exact hR.exits hC hwf.settled hS hne
  · intro hE
    have hcap : idx.redeemFeeBps.toNat ≤ bps := hwf.fees.redeem.trans (by decide)
    exact hacc.redeems hidx hC hsound hpos hsealed hwf.settled hcap hne hE

/-! ## The holder of the local fund -/

def localRest : List AccountInfo := [account 1002, account 21, account 1003, account 22]

/-- Holder 40 can redeem this much. -/
def localHolder (amount : UInt64) (w : World) (idx : Index) : Bool :=
  (w.token? (addr 20)).any (fun t => decide (t.mint = addr 1 ∧
      localnet.token.mayBurn t (addr 40) amount = true ∧ amount.toNat ≤ t.amount.toNat ∧
      t.frozen = false)) &&
    (w.token? (addr 30)).any (fun t => decide (t.mint = addr 1 ∧ t.owner = idx.feeRecipient ∧
      t.frozen = false)) &&
    decide (localRest.length = idx.components.length * 2) &&
    decide (((pairs localRest).map Prod.fst).map AccountInfo.key
      = idx.vaultKeys localnet (addr 1)) &&
    (idx.components.zip (pairs localRest)).all (fun x => (w.token? x.2.2.key).any fun t =>
      decide (t.mint = x.1.mint ∧ t.frozen = false)) &&
    idx.components.all fun c => (w.token? (localnet.vaultKey (addr 1) c.mint)).all fun t =>
      decide (t.frozen = false)

theorem localHolder_accounts {amount : UInt64} (h : localHolder amount w idx = true) :
    RedeemAccounts localnet (addr 1) w idx amount (signer 40) indexAccount (account 1) (account 20)
      (account 30) (account 7) localRest := by
  simp only [localHolder, Bool.and_eq_true, Option.any_eq_true, Option.all_eq_true,
    List.all_eq_true, decide_eq_true_eq] at h
  obtain ⟨⟨⟨⟨⟨hholder, hfee⟩, hlen⟩, hvaults⟩, hrecv⟩, hthaw⟩ := h
  have hout : localnet.Outsider (signer 40).key := localnet_outsider (by decide)
  exact ⟨rfl, hout, rfl, rfl, rfl, hholder, hfee, hlen, hvaults, hrecv, hthaw⟩

/-- Half a year on, in a paused fund. -/
theorem redemption_open_local : ∃ (w : World) (idx : Index), Reachable localnet w ∧
    w.index? localIndex = some idx ∧ idx.state = statePaused ∧
    Succeeds (process localnet w tradeAccounts (.redeem 1000000007 [0, 0])) ∧
    Exits localnet idx.indexMint w idx 1000000007 (pairs localRest) := by
  obtain ⟨w, idx, hreach, hidx, hp⟩ := exists_of_run
    (openFund ⟨100, 30, 50, 100⟩ 2000000 333333333 ++ [localIssue 5000000000,
      .call [signer 60, indexAccount, account 1] (.setPaused true), .tick 15768000])
    (fun w idx => decide (idx.indexMint = addr 1 ∧ idx.state = statePaused ∧
        idx.components.length = 2) && localHolder 1000000007 w idx &&
      endsIn (process localnet w tradeAccounts (.redeem 1000000007 [0, 0])) fun _ => true)
    (by decide +kernel)
  simp only [Bool.and_eq_true, decide_eq_true_eq] at hp
  obtain ⟨⟨⟨hm, hpaused, hlen⟩, hholder⟩, hdone⟩ := hp
  obtain ⟨w', hw', -⟩ := endsIn_iff.mp hdone
  have hacc := localHolder_accounts hholder
  rw [← hm] at hacc
  have hsealed : idx.state ≠ stateBootstrapping := by
    rw [hpaused]
    decide
  have hiff := redemption_open_iff hreach hidx hsealed (by decide) hacc
  rw [hlen] at hiff
  exact ⟨w, idx, hreach, hidx, hpaused, ⟨w', hw'⟩, hiff.mp ⟨w', hw'⟩⟩

/-- After twenty years at five percent nobody gets out: the fee formula has no
value to give. -/
theorem redemption_closes : ∃ (w : World) (idx : Index), Reachable localnet w ∧
    w.index? localIndex = some idx ∧ idx.state = stateLive ∧ idx.lastFeeAccrual ≤ w.clock ∧
    RedeemAccounts localnet idx.indexMint w idx 1000000007 (signer 40) indexAccount (account 1)
      (account 20) (account 30) (account 7) localRest ∧
    process localnet w (signer 40 :: indexAccount :: account 1 :: account 20 :: account 30 ::
      account 7 :: localRest) (.redeem 1000000007 (List.replicate idx.components.length 0))
      = .error (.custom .mathOverflow) := by
  obtain ⟨w, idx, hreach, hidx, hp⟩ := exists_of_run
    (openFund ⟨500, 30, 50, 100⟩ 2000000 333333333 ++ [localIssue 5000000000, .tick 630720000])
    (fun w idx => decide (idx.indexMint = addr 1 ∧ idx.state = stateLive ∧
        idx.lastFeeAccrual ≤ w.clock) && localHolder 1000000007 w idx &&
      failsWith (process localnet w tradeAccounts
        (.redeem 1000000007 (List.replicate idx.components.length 0))) (.custom .mathOverflow))
    (by decide +kernel)
  simp only [Bool.and_eq_true, decide_eq_true_eq] at hp
  obtain ⟨⟨⟨hm, hlive, hclock⟩, hholder⟩, hfails⟩ := hp
  have hacc := localHolder_accounts hholder
  rw [← hm] at hacc
  exact ⟨w, idx, hreach, hidx, hlive, hclock, hacc, failsWith_iff.mp hfails⟩

end Flock
