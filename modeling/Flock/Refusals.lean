import Flock.Auction
import Flock.Lib.FiniteSum

/-!
# What a handler is refused for

A caller who names the right accounts, who signs, and whose tokens are there can
still be refused: by the arithmetic, and by the checks that depend on the state.
The first part lists the errors of the arithmetic, the second is when the token
program takes a call, the third the steps the handlers share. What is left when
they are put together are the refusals of `accrue_fees`, `end_rebalance` and
`bid`.
-/

namespace Flock

open Outcome MachineInt

/-- An error of the program itself, one of `E`. -/
def Custom (E : FlockError → Prop) (e : ProgramError) : Prop := ∃ f, e = .custom f ∧ E f

/-- Errors of `math.rs` are custom errors of the program. -/
theorem lift_only {α : Type} {E : FlockError → Prop} {x : Except FlockError α} (h : Only E x) :
    Only (Custom E) (liftM x : Except ProgramError α) := by
  cases x with
  | error f => exact only_error ⟨f, rfl, h f rfl⟩
  | ok a => exact only_ok _ a

/-! ## The arithmetic -/

section Arithmetic

variable {E : FlockError → Prop} (hE : E .mathOverflow)
include hE

/-- A product overflows, or it is there. -/
theorem checkedMul_only (a b : Nat) : Only E (checkedMul a b) := by
  unfold checkedMul
  split
  next => exact only_ok E _
  next => exact only_error hE

/-- `mul_div_floor` overflows or divides by zero, both one error. -/
theorem mulDivFloor_only (a b d : Nat) : Only E (mulDivFloor a b d) := by
  refine bind_only (failIf_only fun _ => hE) fun _ _ => ?_
  exact bind_only (checkedMul_only hE a b) fun x _ => only_ok E _

/-- `mul_div_ceil` has the one error too. -/
theorem mulDivCeil_only (a b d : Nat) : Only E (mulDivCeil a b d) := by
  refine bind_only (failIf_only fun _ => hE) fun _ _ => ?_
  exact bind_only (checkedMul_only hE a b) fun x _ => only_ok E _

/-- A cast that fails is an overflow. -/
theorem toU64_only (x : Nat) : Only E (toU64 x) := by
  unfold toU64
  split
  next => exact only_ok E _
  next => exact only_error hE

/-- A cast that fails is an overflow. -/
theorem toU128_only (x : Int) : Only E (toU128 x) := by
  unfold toU128
  split
  next => exact only_ok E _
  next => exact only_error hE

/-- A cast that fails is an overflow. -/
theorem toI32_only (x : Int) : Only E (toI32 x) := by
  unfold toI32
  split
  next => exact only_ok E _
  next => exact only_error hE

/-- A value overflows, or it is there. -/
theorem valueE9_only (b : UInt64) (decimals : UInt8) (price : UInt64) :
    Only E (valueE9 b decimals price) :=
  bind_only (failIf_only fun _ => hE) fun _ _ => mulDivFloor_only hE _ _ _

/-- A price of zero is no overflow, and no price in force is zero. -/
theorem amountFromValueCeil_only (value : Nat) (decimals : UInt8) {price : UInt64}
    (hp : price.toNat ≠ 0) : Only E (amountFromValueCeil value decimals price) := by
  refine bind_only (failIf_only fun h0 => ?_) fun _ _ => ?_
  · rw [h0, UInt64.toNat_zero] at hp
    exact absurd rfl hp
  · refine bind_only (failIf_only fun _ => hE) fun _ _ => ?_
    exact bind_only (mulDivCeil_only hE _ _ _) fun x _ => toU64_only hE x

/-- A fee overflows, or it is there. -/
theorem streamingFeeTokens_only (supply : UInt64) (feeBps : UInt16) (dt : Int64) :
    Only E (streamingFeeTokens supply feeBps dt) := by
  unfold streamingFeeTokens
  split
  next => exact only_ok E _
  next =>
    refine bind_only (checkedMul_only hE _ _) fun num _ => ?_
    refine bind_only (checkedMul_only hE _ _) fun den _ => ?_
    refine bind_only (failIf_only fun _ => hE) fun _ _ => ?_
    exact bind_only (mulDivFloor_only hE _ _ _) fun x _ => toU64_only hE x

/-- Inside an open window only the narrowing can fail. -/
theorem premiumAt_only (startBps endBps : Int16) {startTs endTs now : Int64}
    (hopen : startTs ≤ now) (hclose : now ≤ endTs) (hspan : startTs < endTs) :
    Only E (premiumAt startBps endBps startTs endTs now) := by
  refine bind_only (failIf_only fun h => ?_) fun _ _ => ?_
  · rcases h with h | h
    · exact absurd hopen (Int64.not_le.mpr h)
    · exact absurd hclose (Int64.not_le.mpr h)
  · refine bind_only (failIf_only fun h => ?_) fun _ _ => toI32_only hE _
    exact absurd hspan (Int64.not_lt.mpr h)

/-- A target overflows, or it is there. -/
theorem legTarget_only (c : Component) (supply : UInt64) : Only E (legTarget c supply) :=
  bind_only (mulDivFloor_only hE _ _ _) fun x _ => toU64_only hE x

/-- A cap overflows, or it is there. -/
theorem legCap_only (target : UInt64) (maxPremiumBps : UInt16) :
    Only E (legCap target maxPremiumBps) := by
  refine bind_only (mulDivFloor_only hE _ _ _) fun x _ => ?_
  exact bind_only (toU64_only hE x) fun y _ => toU64_only hE _

/-- With a price to divide by, the price of a fill overflows or is there. -/
theorem bidPrice_only (sell : Component) {buy : Component} (hp : buy.refPriceE9.toNat ≠ 0)
    (premium : Int32) (sellAmount : UInt64) : Only E (bidPrice sell buy premium sellAmount) := by
  refine bind_only (valueE9_only hE _ _ _) fun valueOut _ => ?_
  refine bind_only (toU128_only hE _) fun marked _ => ?_
  exact bind_only (mulDivCeil_only hE _ _ _) fun valueIn _ => amountFromValueCeil_only hE _ _ hp

/-- With a supply to divide by, units overflow or are there. -/
theorem unitsFromBalance_only (balance : UInt64) {supply : UInt64} (hs : supply ≠ 0) :
    Only E (unitsFromBalance balance supply) := by
  refine bind_only (failIf_only fun h => absurd h hs) fun _ _ => ?_
  exact bind_only (mulDivFloor_only hE _ _ _) fun x _ => toU64_only hE x

/-- A sum of values overflows, or it is there. By induction on the table. -/
theorem navSum_only (cs : List Component) : ∀ (bs : List UInt64) (total : Nat),
    Only E (navSum cs bs total) := by
  induction cs with
  | nil => exact fun _ _ => only_ok E _
  | cons c cs ih =>
    intro bs total
    cases bs with
    | nil => exact only_ok E _
    | cons b bs =>
      refine bind_only (valueE9_only hE _ _ _) fun v _ => ?_
      exact bind_only (failIf_only fun _ => hE) fun _ _ => ih bs _

/-- With a supply to divide by, the sync overflows or goes through. By induction on the table.
-/
theorem syncEach_only {supply : UInt64} (hs : supply ≠ 0) (cs : List Component) :
    ∀ bs : List UInt64, Only E (syncEach supply cs bs) := by
  induction cs with
  | nil => exact fun _ => only_ok E _
  | cons c cs ih =>
    intro bs
    cases bs with
    | nil => exact only_ok E _
    | cons b bs =>
      refine bind_only (unitsFromBalance_only hE b hs) fun u _ => ?_
      exact bind_only (ih bs) fun rest _ => only_ok E _

/-- A fill that fits is sized, as far as the numbers go. -/
theorem bidSizing_only {sell buy : Component} {maxPremiumBps : UInt16} {premium : Int32}
    {supply sellBalance buyBalance sellAmount maxBuyAmount : UInt64}
    (hp : buy.refPriceE9.toNat ≠ 0) (hpos : sellAmount.toNat ≠ 0)
    (hsell : sell.target supply.toNat + sellAmount.toNat ≤ sellBalance.toNat)
    (hbuy : buyBalance.toNat < buy.cap supply.toNat maxPremiumBps)
    (hpay : ∀ y, bidPrice sell buy premium sellAmount = .ok y → y.toNat ≤ maxBuyAmount.toNat ∧
      buyBalance.toNat + y.toNat ≤ buy.cap supply.toNat maxPremiumBps) :
    Only E (bidSizing sell buy maxPremiumBps premium supply sellBalance buyBalance sellAmount
      maxBuyAmount) := by
  refine bind_only (legTarget_only hE _ _) fun st hst => ?_
  refine bind_only (legTarget_only hE _ _) fun bt hbt => ?_
  refine bind_only (legCap_only hE _ _) fun cap hcap => ?_
  have hst' := legTarget_ok hst
  have hcap' : cap.toNat = buy.cap supply.toNat maxPremiumBps := by
    rw [legCap_ok hcap, legTarget_ok hbt, Component.cap]
  have habove : st.toNat < sellBalance.toNat := by omega
  have hbelow : buyBalance.toNat < cap.toNat := by omega
  refine bind_only (failIf_only fun h => ?_) fun _ _ => ?_
  · have := UInt64.le_iff_toNat_le.mp h
    omega
  refine bind_only (failIf_only fun h => ?_) fun _ _ => ?_
  · have hlt := UInt64.lt_iff_toNat_lt.mp h
    rw [UInt64.toNat_sub_of_le _ _ (UInt64.le_iff_toNat_le.mpr habove.le)] at hlt
    omega
  refine bind_only (failIf_only fun h => ?_) fun _ _ => ?_
  · have := UInt64.le_iff_toNat_le.mp h
    omega
  refine bind_only (bidPrice_only hE sell hp premium sellAmount) fun y hy => ?_
  obtain ⟨hmax, hroom⟩ := hpay y hy
  refine bind_only (failIf_only fun h => ?_) fun _ _ => ?_
  · have := UInt64.lt_iff_toNat_lt.mp h
    omega
  refine bind_only (failIf_only fun h => ?_) fun _ _ => only_ok E y
  have hlt := UInt64.lt_iff_toNat_lt.mp h
  rw [UInt64.toNat_sub_of_le _ _ (UInt64.le_iff_toNat_le.mpr hbelow.le)] at hlt
  omega

end Arithmetic

/-! ## The token program -/

section Token

variable {ch : Chain} {m : Pubkey} {w w' : World}

/-- Two accounts of one mint hold no more than there is of it. -/
theorem World.held_add_le_total {s d : Pubkey} {ts td : TokenAccount} (hs : w.token? s = some ts)
    (hd : w.token? d = some td) (hm : ts.mint = td.mint) (hsd : s ≠ d) :
    td.amount.toNat + ts.amount.toNat ≤ w.total td.mint := by
  have hle := FiniteSum.add_le_sum (fun k => w.held td.mint k) (Ne.symm hsd)
  simp only [World.held_of_token? hs, World.held_of_token? hd, if_pos hm, if_true] at hle
  exact hle

/-- An owner who is nobody's delegate moves what is there. Nothing overflows: all
tokens of a mint together fit. -/
theorem transfer_succeeds (hsound : w.Sound) {s d a : Pubkey} {x : UInt64} {ts td : TokenAccount}
    (hs : w.token? s = some ts) (hd : w.token? d = some td) (hm : ts.mint = td.mint)
    (ho : ts.owner = a) (hdel : ts.delegate = none) (hfs : ts.frozen = false)
    (hfd : td.frozen = false) (hx : x.toNat ≤ ts.amount.toNat) :
    Succeeds (ch.token.transfer w s d a x) := by
  have hmay : ch.token.mayDebit ts a x = true := by
    rw [← ho]
    refine ch.token.owner_mayDebit ?_
    rw [hdel]
    exact (Option.some_ne_none _).symm
  refine ch.token.transfer_accepts hs hd hm hmay hfs hfd hx fun hsd => ?_
  have hle := World.held_add_le_total hs hd hm hsd
  have hfit := hsound.fits td.mint
  omega

/-- The index address mints while the supply has room. -/
theorem mintTo_succeeds (hsound : w.Sound) {k a : Pubkey} {x : UInt64} {mi : Mint}
    {t : TokenAccount} (hmi : w.mint? m = some mi) (hk : w.token? k = some t) (ht : t.mint = m)
    (ha : mi.mintAuthority = some a) (hf : t.frozen = false)
    (hroom : mi.supply.toNat + x.toNat < 2 ^ 64) : Succeeds (ch.token.mintTo w m k a x) := by
  have hle := World.held_le_total w m k
  rw [World.held_of_token? hk, if_pos ht] at hle
  have hminted := hsound.minted m mi hmi (by rw [ha]; rfl)
  exact ch.token.mintTo_accepts hmi hk ht ha hf hroom (by omega)

end Token

/-! ## The steps the handlers share -/

section Steps

variable {ch : Chain} {m : Pubkey} {w w' : World} {idx : Index} {E : FlockError → Prop}
  {indexInfo indexMintInfo : AccountInfo} {vaults : List AccountInfo}
  (hE : E .mathOverflow) (hi : indexInfo.key = ch.indexKey m)
  (hidx : w.index? (ch.indexKey m) = some idx) (hC : Custody ch m w idx)
include hi hidx hC

omit hC in
/-- The record is there to be read. -/
theorem indexRef_of_custody (hhead : idx.tag = accountTagIndex ∧ idx.version = stateVersion) :
    indexRef w indexInfo = .ok idx := indexRef_ok_iff.mpr ⟨by rw [hi, hidx], hhead⟩

include hE

/-- The NAV of a record that is there overflows, or it is there. -/
theorem navE6_only (bs : List UInt64) : Only (Custom E) (navE6 w indexInfo bs) := by
  refine pass_only (indexRef_of_custody hi hidx hC.header) ?_
  refine bind_only (lift_only (navSum_only hE _ _ _)) fun total _ => ?_
  exact lift_only (toU64_only hE _)

/-- The sync of a record that is there overflows, or goes through. -/
theorem syncUnits_only (bs : List UInt64) (supply : UInt64) :
    Only (Custom E) (syncUnits w indexInfo bs supply) := by
  unfold syncUnits
  split
  next => exact only_ok _ w
  next h0 =>
    refine pass_only (indexRef_of_custody hi hidx hC.header) ?_
    exact bind_only (lift_only (syncEach_only hE h0 _ _)) fun cs _ => only_ok _ _

/-- With the right vaults, the sync at the end overflows or goes through. -/
theorem resync_only (hm : indexMintInfo.key = m)
    (hvk : vaults.map AccountInfo.key = idx.vaultKeys ch m) :
    Only (Custom E) (resync ch w indexInfo indexMintInfo vaults) := by
  obtain ⟨mi, hmi, -⟩ := hC.mint
  subst hm
  refine pass_only ((verifyVaults_ok_iff hC hi hidx).mpr ⟨hvk, rfl⟩) ?_
  exact pass_only (readMint_ok_iff.mpr hmi) (syncUnits_only hE hi hidx hC _ _)

omit hE in
/-- A fee that the formula gives, and that has somewhere to go, is accrued. -/
theorem accrue_succeeds (hm : indexMintInfo.key = m) (hsound : w.Sound) {feeAta : AccountInfo}
    {mi : Mint} {owed : UInt64} (hmi : w.mint? m = some mi)
    (howed : streamingFeeTokens mi.supply idx.streamingFeeBps
      (saturatingSub w.clock idx.lastFeeAccrual) = .ok owed)
    (hfee : owed ≠ 0 → mi.supply.toNat + owed.toNat < 2 ^ 64 ∧
      ∃ t, w.token? feeAta.key = some t ∧ t.mint = m ∧ t.owner = idx.feeRecipient ∧
        t.frozen = false) :
    Succeeds (accrue ch w indexInfo indexMintInfo feeAta w.clock) := by
  obtain ⟨mi', hmi', hauth, -⟩ := hC.mint
  obtain rfl := Option.some.inj (hmi.symm.trans hmi')
  subst hm
  refine pass_succeeds (indexRef_of_custody hi hidx hC.header) ?_
  refine pass_succeeds (readMint_ok_iff.mpr hmi) ?_
  refine pass_succeeds (lift_ok_iff.mpr howed) ?_
  dsimp only
  split
  next => exact succeeds_ok _
  next h0 =>
    obtain ⟨hroom, t, ht, htm, hto, hf⟩ := hfee h0
    rw [← hi] at hidx
    have ha := World.accounts_of_index? hidx
    -- the clock of the fee is written first, which touches no mint and no token account
    have hflow := Flow.of_setIndex hidx { idx with lastFeeAccrual := w.clock }
    have ht' : (w.setIndex indexInfo.key { idx with lastFeeAccrual := w.clock }).token? feeAta.key
        = some t := (congrFun (World.token?_set_of_not (by simp) (by simp [ha])) _).trans ht
    have hmi' : (w.setIndex indexInfo.key { idx with lastFeeAccrual := w.clock }).mint?
        indexMintInfo.key = some mi :=
      (congrFun (World.mint?_set_of_not (by simp) (by simp [ha])) _).trans hmi
    refine pass_succeeds (requireTokenAccount_ok_iff.mpr ⟨ht', htm, hto⟩) ?_
    refine bind_succeeds ?_ fun w₁ _ => succeeds_ok _
    rw [mintIndexTokens, if_neg h0, hi]
    rw [hi] at ht' hmi' hflow
    exact mintTo_succeeds (hflow.sound hsound) hmi' ht' htm hauth hf hroom

/-- An accrual with somewhere to go. -/
theorem accrue_only (hm : indexMintInfo.key = m) (hsound : w.Sound) {feeAta : AccountInfo}
    (hfee : ∀ {mi owed}, w.mint? m = some mi →
      streamingFeeTokens mi.supply idx.streamingFeeBps (saturatingSub w.clock idx.lastFeeAccrual)
        = .ok owed → owed ≠ 0 → mi.supply.toNat + owed.toNat < 2 ^ 64 ∧
      ∃ t, w.token? feeAta.key = some t ∧ t.mint = m ∧ t.owner = idx.feeRecipient ∧
        t.frozen = false) :
    Only (Custom E) (accrue ch w indexInfo indexMintInfo feeAta w.clock) := by
  obtain ⟨mi, hmi, -⟩ := hC.mint
  cases howed : streamingFeeTokens mi.supply idx.streamingFeeBps
    (saturatingSub w.clock idx.lastFeeAccrual) with
  | ok owed =>
    exact (accrue_succeeds hi hidx hC hm hsound hmi howed (hfee hmi howed)).only _
  | error e =>
    have he := streamingFeeTokens_only hE _ _ _ e howed
    subst hm
    refine pass_only (indexRef_of_custody hi hidx hC.header) ?_
    refine pass_only (readMint_ok_iff.mpr hmi) ?_
    rw [howed]
    exact only_error ⟨e, rfl, he⟩

end Steps

/-! ## The handlers -/

section Handlers

variable {ch : Chain} {m : Pubkey} {w w' : World} {idx : Index} {E : FlockError → Prop}
  {indexInfo indexMintInfo : AccountInfo} {vaults : List AccountInfo}
  (hE : E .mathOverflow) (hi : indexInfo.key = ch.indexKey m) (hm : indexMintInfo.key = m)
  (hidx : w.index? (ch.indexKey m) = some idx) (hC : Custody ch m w idx)
  (hvk : vaults.map AccountInfo.key = idx.vaultKeys ch m)
include hE hi hm hidx hC hvk

omit hE hidx hC hvk in
/-- The right address passes the check. -/
theorem checkIndexPda_of_key : checkIndexPda ch indexInfo indexMintInfo.key
    = .ok (ch.indexPda indexMintInfo.key).2 := by
  have hkey : indexInfo.key = (ch.indexPda indexMintInfo.key).1 := by rw [hi, hm, Chain.indexKey]
  exact bind_ok_iff.mpr ⟨(), failIf_of_not _ (not_not.mpr hkey), rfl⟩

/-- `AccrueFees` with the right accounts is refused for overflow only. -/
theorem accrueFees_only {feeAta tokenProgram : AccountInfo} (hsound : w.Sound)
    (htok : tokenProgram.key = ch.token.id) (hsealed : idx.state ≠ stateBootstrapping)
    (hfee : ∀ {mi owed}, w.mint? m = some mi →
      streamingFeeTokens mi.supply idx.streamingFeeBps (saturatingSub w.clock idx.lastFeeAccrual)
        = .ok owed → owed ≠ 0 → mi.supply.toNat + owed.toNat < 2 ^ 64 ∧
      ∃ t, w.token? feeAta.key = some t ∧ t.mint = m ∧ t.owner = idx.feeRecipient ∧
        t.frozen = false) :
    Only (Custom E) (accrueFees ch w
      (indexInfo :: indexMintInfo :: feeAta :: tokenProgram :: vaults)) := by
  refine pass_only (failIf_of_not _ (not_not.mpr htok)) ?_
  refine pass_only (checkIndexPda_of_key hi hm) ?_
  refine pass_only (indexRef_of_custody hi hidx hC.header) ?_
  refine pass_only (failIf_of_not _ hsealed) ?_
  refine bind_only (accrue_only hE hi hidx hC hm hsound hfee) fun r hr => ?_
  obtain ⟨owed, w₁⟩ := r
  subst hm
  have hA := accrue_accrual hr hi (by rw [hi, hidx])
  exact resync_only hE hi hA.record ((hC.of_flow hA.leg.flow).accrued w.clock) rfl hvk

/-- `EndRebalance` after the window is refused for overflow only. -/
theorem endRebalance_only {caller : AccountInfo} (hsig : caller.isSigner = true)
    (hact : idx.rebalance.active ≠ 0) (hlate : idx.rebalance.endTs < w.clock) :
    Only (Custom E) (endRebalance ch w (caller :: indexInfo :: indexMintInfo :: vaults)) := by
  refine pass_only (failIf_of_not _ (by simp [hsig])) ?_
  refine pass_only (checkIndexPda_of_key hi hm) ?_
  refine pass_only (indexRef_of_custody hi hidx hC.header) ?_
  refine pass_only (failIf_of_not _ hact) ?_
  refine pass_only (failIf_of_not _ fun h => absurd h.1 (Int64.not_le.mpr hlate)) ?_
  refine bind_only (resync_only hE hi hidx hC hm hvk) fun w₁ hw₁ => ?_
  obtain ⟨-, -, rfl⟩ := (resync_ok_iff hC hi hm hidx).mp hw₁
  have hrec : (w.setIndex (ch.indexKey m) (idx.synced ch m w)).index? (ch.indexKey m)
      = some (idx.synced ch m w) := World.index?_setIndex_self _
  exact pass_only (indexRef_of_custody hi hrec (hC.synced w).header) (only_ok _ _)

omit hE hm hidx hvk in
/-- The transfers of a bid go through: the bidder has what the price is, the vault
what is sold, and the two legs have different mints. -/
theorem bidTransfers_succeed (hsound : w.Sound) {bidder recv pay sv bv : AccountInfo}
    {sell buy : Component} {tr tp : TokenAccount} {x y : UInt64}
    (hsell : sell ∈ idx.components) (hbuy : buy ∈ idx.components) (hne : sell.mint ≠ buy.mint)
    (hsv : sv.key = ch.vaultKey m sell.mint) (hbv : bv.key = ch.vaultKey m buy.mint)
    (hthaw : ∀ c ∈ idx.components, ∀ t, w.token? (ch.vaultKey m c.mint) = some t →
      t.frozen = false)
    (hr : w.token? recv.key = some tr) (hrm : tr.mint = sell.mint) (hrf : tr.frozen = false)
    (hp : w.token? pay.key = some tp) (hpm : tp.mint = buy.mint) (hpo : tp.owner = bidder.key)
    (hpd : tp.delegate = none) (hpf : tp.frozen = false) (hy : y.toNat ≤ tp.amount.toNat)
    (hx : x.toNat ≤ w.vault ch m sell) (hu : ch.Outsider bidder.key) :
    Succeeds (transferFromUser ch w pay bv bidder y) ∧
      ∀ w₁, transferFromUser ch w pay bv bidder y = .ok w₁ →
        Succeeds (transferFromVault ch w₁ sv recv indexInfo x) := by
  obtain ⟨ts, hts, htsm, htso, htsd⟩ := hC.vaults sell hsell
  obtain ⟨tb, htb, htbm, -, -⟩ := hC.vaults buy hbuy
  have hsf := hthaw sell hsell ts hts
  have hbf := hthaw buy hbuy tb htb
  rw [World.vault, World.amount_of_token? hts] at hx
  constructor
  · unfold transferFromUser
    split
    next => exact succeeds_ok w
    next =>
      rw [hbv]
      exact transfer_succeeds hsound hp htb (hpm.trans htbm.symm) hpo hpd hpf hbf hy
  · intro w₁ hw₁
    obtain ⟨hleg, -, -, -⟩ := transferFromUser_leg (m := m) hw₁ hu
    have hflow := hleg.flow
    obtain ⟨ts', hts', htsm', htso', htsf', htsd'⟩ := hflow.account hts
    obtain ⟨tr', htr', htrm', -, htrf', -⟩ := hflow.account hr
    -- the first transfer is of the other mint
    have hkeep := hflow.amount (ch.vaultKey m sell.mint)
    have hnb : ch.vaultKey m sell.mint ≠ bv.key := by
      rw [hbv]
      exact fun e => hne (hC.vaultKey_inj hsell hbuy e)
    have hnp : ch.vaultKey m sell.mint ≠ pay.key := by
      intro e
      rw [← e, hts, Option.some.injEq] at hp
      exact hne (by rw [← htsm, hp, hpm])
    rw [World.amount_of_token? hts, World.amount_of_token? hts', Pi.sub_apply,
      Pi.single_eq_of_ne hnb, Pi.single_eq_of_ne hnp] at hkeep
    unfold transferFromVault
    split
    next => exact succeeds_ok w₁
    next =>
      rw [hsv]
      refine transfer_succeeds (hflow.sound hsound) hts' htr' ?_ ?_ (htsd' htsd) (htsf'.trans hsf)
        (htrf'.trans hrf) (by omega)
      · rw [htsm', htsm, htrm', hrm]
      · rw [htso', htso, hi]

/-- A bid that names the right accounts, whose tokens are there and that fits
both legs, is refused for the arithmetic, the ceiling or the floor only. -/
theorem bid_only (hfloor : E .navFloorBreached) (hceil : E .invalidPremium) (hsound : w.Sound)
    {bidder recv pay tokenProgram : AccountInfo} {s b : UInt8} {x maxBuy : UInt64}
    {sell buy : Component} {tr tp : TokenAccount} (hu : ch.Outsider bidder.key)
    (hsig : bidder.isSigner = true) (htok : tokenProgram.key = ch.token.id)
    (hsb : s ≠ b) (hx0 : x.toNat ≠ 0) (hlive : idx.state = stateLive)
    (hact : idx.rebalance.active ≠ 0) (hopen : idx.rebalance.startTs ≤ w.clock)
    (hclose : w.clock ≤ idx.rebalance.endTs)
    (hspan : idx.rebalance.startTs < idx.rebalance.endTs)
    (hsell : idx.components[s.toNat]? = some sell) (hbuy : idx.components[b.toNat]? = some buy)
    (hprice : buy.refPriceE9.toNat ≠ 0) (hsup : w.supply m ≠ 0)
    (hthaw : ∀ c ∈ idx.components, ∀ t, w.token? (ch.vaultKey m c.mint) = some t →
      t.frozen = false)
    (hr : w.token? recv.key = some tr) (hrm : tr.mint = sell.mint) (hrf : tr.frozen = false)
    (hp : w.token? pay.key = some tp) (hpm : tp.mint = buy.mint) (hpo : tp.owner = bidder.key)
    (hpd : tp.delegate = none) (hpf : tp.frozen = false)
    (hexcess : sell.target (w.supply m) + x.toNat ≤ w.vault ch m sell)
    (hroom : w.vault ch m buy < buy.cap (w.supply m) idx.maxPremiumBps)
    (hpay : ∀ premium y, premiumAt idx.rebalance.startPremiumBps idx.rebalance.endPremiumBps
        idx.rebalance.startTs idx.rebalance.endTs w.clock = .ok premium →
      bidPrice sell buy premium x = .ok y → y.toNat ≤ maxBuy.toNat ∧
        w.vault ch m buy + y.toNat ≤ buy.cap (w.supply m) idx.maxPremiumBps ∧
        y.toNat ≤ tp.amount.toNat) :
    Only (Custom E) (bid ch w (bidder :: indexInfo :: indexMintInfo :: recv :: pay ::
      tokenProgram :: vaults) s b x maxBuy) := by
  have hsellmem := List.mem_of_getElem? hsell
  have hbuymem := List.mem_of_getElem? hbuy
  have hne : sell.mint ≠ buy.mint :=
    hC.mint_ne_of_ne hsell hbuy fun e => hsb (UInt8.toNat_inj.mp e)
  obtain ⟨mi, hmi, -⟩ := hC.mint
  have hS := World.supply_of_mint? hmi
  have hlen : vaults.length = idx.components.length := by
    simpa [Index.vaultKeys] using congrArg List.length hvk
  obtain ⟨sv, hsv⟩ : ∃ sv, vaults[s.toNat]? = some sv :=
    ⟨_, List.getElem?_eq_getElem (hlen ▸ (List.getElem?_eq_some_iff.mp hsell).1)⟩
  obtain ⟨bv, hbv⟩ : ∃ bv, vaults[b.toNat]? = some bv :=
    ⟨_, List.getElem?_eq_getElem (hlen ▸ (List.getElem?_eq_some_iff.mp hbuy).1)⟩
  have hsvk := key_of_map_eq hvk hsv hsell
  have hbvk := key_of_map_eq hvk hbv hbuy
  have hlive' : idx.isLive = .ok () := Index.isLive_ok_iff.mpr hlive
  have hx : x ≠ 0 := fun e => hx0 (by rw [e, UInt64.toNat_zero])
  have hmi0 : mi.supply ≠ 0 := fun e => hsup (by rw [hS, e, UInt64.toNat_zero])
  subst hm
  refine pass_only (failIf_of_not _ (by simp [hsig])) ?_
  refine pass_only (failIf_of_not _ (not_not.mpr htok)) ?_
  refine pass_only (checkIndexPda_of_key hi rfl) ?_
  refine pass_only (failIf_of_not _ hsb) ?_
  refine pass_only (failIf_of_not _ hx) ?_
  refine pass_only (indexRef_of_custody hi hidx hC.header) ?_
  refine pass_only hlive' ?_
  refine pass_only (failIf_of_not _ hact) ?_
  refine bind_only (lift_only (premiumAt_only hE _ _ hopen hclose hspan)) fun premium hprem => ?_
  refine bind_only (failIf_only fun _ => ⟨_, rfl, hceil⟩) fun _ _ => ?_
  refine pass_only (Index.component_ok_iff.mpr hsell) ?_
  refine pass_only (Index.component_ok_iff.mpr hbuy) ?_
  refine pass_only ((verifyVaults_ok_iff hC hi hidx).mpr ⟨hvk, rfl⟩) ?_
  refine pass_only (readMint_ok_iff.mpr hmi) ?_
  refine pass_only (failIf_of_not _ hmi0) ?_
  refine pass_only (requireTokenAccountOfMint_ok_iff.mpr ⟨hr, hrm⟩) ?_
  refine pass_only (requireTokenAccountOfMint_ok_iff.mpr ⟨hp, hpm⟩) ?_
  refine pass_only (nth_ok_iff.mpr (by rw [List.getElem?_map, hsell, Option.map_some])) ?_
  refine pass_only (nth_ok_iff.mpr (by rw [List.getElem?_map, hbuy, Option.map_some])) ?_
  -- the sizing, whose price the bidder has
  have hprice' := fun y => hpay premium y (lift_ok_iff.mp hprem)
  refine bind_only (lift_only (bidSizing_only hE hprice hx0 ?_ ?_ fun y hy => ?_)) fun y hy => ?_
  · rw [World.toNat_balance, ← hS]
    exact hexcess
  · rw [World.toNat_balance, ← hS]
    exact hroom
  · rw [World.toNat_balance, ← hS]
    exact ⟨(hprice' y hy).1, (hprice' y hy).2.1⟩
  obtain ⟨-, hsized⟩ := bidSizing_ok (lift_ok_iff.mp hy)
  refine pass_only (nth_ok_iff.mpr hbv) ?_
  refine pass_only (nth_ok_iff.mpr hsv) ?_
  obtain ⟨hpays, htakes⟩ := bidTransfers_succeed hi hC hsound hsellmem hbuymem hne hsvk hbvk
    hthaw hr hrm hrf hp hpm hpo hpd hpf (hprice' y hsized.price).2.2 (by omega) hu (x := x)
  refine bind_only (hpays.only _) fun w₁ hw₁ => ?_
  refine bind_only ((htakes w₁ hw₁).only _) fun w₂ hw₂ => ?_
  -- the second half reads the record and the vaults where they were
  obtain ⟨hL₁, hR₁, -, -⟩ := transferFromUser_leg (m := indexMintInfo.key) hw₁ hu
  obtain ⟨hL₂, hR₂, -⟩ := transferFromVault_leg hw₂ hC.inUse hi
  have hR : w₂.index? (ch.indexKey indexMintInfo.key) = some idx := by rw [hR₂, hR₁, hidx]
  have hC₂ := hC.of_flow (hL₁.trans hL₂).flow
  refine pass_only ((verifyVaults_ok_iff hC₂ hi hR).mpr ⟨hvk, rfl⟩) ?_
  refine bind_only (navE6_only hE hi hR hC₂ _) fun nav _ => ?_
  refine pass_only (indexRef_of_custody hi hR hC₂.header) ?_
  refine bind_only (failIf_only fun _ => ⟨_, rfl, hfloor⟩) fun _ _ => ?_
  exact syncUnits_only hE hi hR hC₂ _ _

end Handlers

end Flock
