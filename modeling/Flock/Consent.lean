import Flock.Localnet
import Flock.Purse

/-!
# Nobody pays more than they signed for

The caller of an instruction names a limit for everything it may cost them: the most of
each component for an `issue`, the index tokens of a `redeem`, the most they pay for a
`bid`. `stakes` is that limit mint by mint, and `receipts` what the instruction promises
to the accounts it names. Going through each handler step by step shows that a call
leaves every purse with no less than it had, plus the receipts, less the stakes of the one
who called; and a run adds that up. Whoever does not call loses nothing, whatever
accounts of theirs a stranger names.
-/

namespace Flock

open Outcome MachineInt Graded

/-- So much of each mint, taking two lists together. -/
def perMint : List Pubkey → List UInt64 → Pubkey → ℤ
  | M :: ms, x :: xs => Pi.single M (x.toNat : ℤ) + perMint ms xs
  | _, _ => 0

/-- So much of each mint, where the account named for it is in the purse of `u`. -/
def perOwned (w : World) (u : Pubkey) :
    List Pubkey → List UInt64 → List AccountInfo → Pubkey → ℤ
  | M :: ms, x :: xs, a :: rest => coins (w.owns u M a.key) M x.toNat + perOwned w u ms xs rest
  | _, _, _ => 0

/-- The most an instruction may cost its caller. -/
def stakes (w : World) (accounts : List AccountInfo) : FlockInstruction → Pubkey → ℤ
  | .issue _ maxIn =>
    match accounts with
    | _ :: indexInfo :: _ => perMint (w.mints indexInfo.key) maxIn
    | _ => 0
  | .redeem amount _ =>
    match accounts with
    | _ :: _ :: indexMintInfo :: _ => Pi.single indexMintInfo.key (amount.toNat : ℤ)
    | _ => 0
  | .bid _ buyComponent _ maxBuyAmount =>
    match accounts with
    | _ :: indexInfo :: _ =>
      match (w.mints indexInfo.key)[buyComponent.toNat]? with
      | some M => Pi.single M (maxBuyAmount.toNat : ℤ)
      | none => 0
    | _ => 0
  | _ => 0

/-- What an instruction promises to the accounts of `u` among those it names. -/
def receipts (w : World) (u : Pubkey) (accounts : List AccountInfo) :
    FlockInstruction → Pubkey → ℤ
  | .issue amount _ =>
    match accounts with
    | _ :: _ :: indexMintInfo :: userIndexAta :: _ =>
      coins (w.owns u indexMintInfo.key userIndexAta.key) indexMintInfo.key amount.toNat
    | _ => 0
  | .redeem _ minOut =>
    match accounts with
    | _ :: indexInfo :: _ :: _ :: _ :: _ :: rest =>
      perOwned w u (w.mints indexInfo.key) minOut ((pairs rest).map Prod.snd)
    | _ => 0
  | .bid sellComponent _ sellAmount _ =>
    match accounts with
    | _ :: indexInfo :: _ :: bidderReceive :: _ =>
      match (w.mints indexInfo.key)[sellComponent.toNat]? with
      | some M => coins (w.owns u M bidderReceive.key) M sellAmount.toNat
      | none => 0
    | _ => 0
  | _ => 0

/-- `u` is the first account, which is the one that calls. -/
def calls (u : Pubkey) : List AccountInfo → Bool
  | caller :: _ => decide (caller.key = u)
  | [] => false

/-- What a call does to the purse of `u`, at the least. -/
def settlement (w : World) (u : Pubkey) (accounts : List AccountInfo) (ix : FlockInstruction) :
    Pubkey → ℤ :=
  receipts w u accounts ix - if calls u accounts then stakes w accounts ix else 0

variable {ch : Chain} {u : Pubkey} {w w' : World}
  {indexInfo indexMintInfo feeAta : AccountInfo}

/-! ## The helpers of the processor -/

/-- Paying into a vault costs the key what it signed for, and nobody else. -/
theorem transferFromUser_earns (hu : ch.Personal u) {source vault user : AccountInfo} {M : Pubkey}
    {x : UInt64} (hM : ∃ t, w.token? source.key = some t ∧ t.mint = M) :
    (purses u).Earns w (-coins (user.key = u) M x.toNat)
      (transferFromUser ch w source vault user x) := by
  refine earns_ite (fun _ => ?_) fun _ => ?_
  · refine (earns_pure w).imp fun t _ hg => hg.weaken fun M' => ?_
    have hnn := coins_nonneg (user.key = u) M M' x.toNat
    rw [Pi.neg_apply, Pi.zero_apply]
    omega
  · intro t ht
    obtain ⟨ts, td, hs, hd, hmint, -⟩ := ch.token.transfer_ok ht
    obtain ⟨t₀, ht₀, hM₀⟩ := hM
    obtain rfl := Option.some.inj (hs.symm.trans ht₀)
    refine (transfer_gains hu ht ⟨td, hd, hmint.symm.trans hM₀⟩).weaken fun M' => ?_
    have hnn := coins_nonneg (w.owns u M vault.key) M M' x.toNat
    rw [Pi.neg_apply, Pi.sub_apply]
    omega

/-- The address of an index signs for nobody's purse. -/
theorem transferFromVault_earns (hu : ch.Personal u) {vault recipient : AccountInfo} {M : Pubkey}
    {x : UInt64} (hi : indexInfo.key ≠ u)
    (hM : ∃ t, w.token? recipient.key = some t ∧ t.mint = M) :
    (purses u).Earns w (coins (w.owns u M recipient.key) M x.toNat)
      (transferFromVault ch w vault recipient indexInfo x) := by
  refine earns_ite (fun hx => ?_) fun _ => ?_
  · refine (earns_pure w).imp fun t _ hg => hg.weaken fun M' => ?_
    rw [hx, coins_apply, UInt64.toNat_zero, Nat.cast_zero, ite_self, Pi.zero_apply]
  · intro t ht
    refine (transfer_gains hu ht hM).weaken fun M' => ?_
    rw [Pi.sub_apply, coins_apply (indexInfo.key = u), if_neg fun h => hi h.1, sub_zero]

/-- Index tokens add to the purse they are minted into. -/
theorem mintIndexTokens_earns {recipient : AccountInfo} {x : UInt64} :
    (purses u).Earns w
      (coins (w.owns u indexMintInfo.key recipient.key) indexMintInfo.key x.toNat)
      (mintIndexTokens ch w indexMintInfo recipient indexInfo x) := by
  refine earns_ite (fun hx => ?_) fun _ => ?_
  · refine (earns_pure w).imp fun t _ hg => hg.weaken fun M' => ?_
    rw [hx, coins_apply, UInt64.toNat_zero, Nat.cast_zero, ite_self, Pi.zero_apply]
  · exact fun t ht => mintTo_gains ht

/-- A fee takes nothing from anybody. -/
theorem mintIndexTokens_free {recipient : AccountInfo} {x : UInt64} :
    (purses u).Earns w 0 (mintIndexTokens ch w indexMintInfo recipient indexInfo x) :=
  mintIndexTokens_earns.imp fun _ _ hg => hg.weaken fun M' => coins_nonneg _ _ M' _

/-- A trade fee costs nobody anything. -/
theorem mintFee_earns {x : UInt64} :
    (purses u).Earns w 0 (mintFee ch w indexInfo indexMintInfo feeAta x) := by
  refine earns_ite (fun _ => ?_) fun _ => earns_pure w
  refine earns_read fun _ _ => ?_
  exact earns_read fun _ _ => mintIndexTokens_free

/-- An accrual costs nobody anything. -/
theorem accrue_gains {now : Int64} {owed : UInt64}
    (h : accrue ch w indexInfo indexMintInfo feeAta now = .ok (owed, w')) : Gains u 0 w w' := by
  obtain ⟨idx, mi, href, -, -, h⟩ := accrue_ok h
  have hset : Gains u 0 w (w.setIndex indexInfo.key (idx.accrued now)) :=
    .of_rewrite (indexRef_ok_iff.mp href).1 List.prefix_rfl
  rcases h with ⟨-, rfl⟩ | ⟨-, -, hmint⟩
  · exact hset
  · have hfee := mintIndexTokens_free (u := u) w' hmint
    exact (add_zero (0 : Pubkey → ℤ)) ▸ (purses u).trans hset hfee

/-- Setting units costs nobody anything. -/
theorem syncUnits_earns {balances : List UInt64} {supply : UInt64} :
    (purses u).Earns w 0 (syncUnits w indexInfo balances supply) := by
  refine earns_ite (fun _ => earns_pure w) fun _ => ?_
  refine earns_read fun idx hidx => ?_
  refine earns_read fun cs hcs => ?_
  intro t ht
  rw [← pure_ok_iff.mp ht]
  refine .of_rewrite (indexRef_ok_iff.mp hidx).1 ?_
  rw [syncEach_mints (lift_ok_iff.mp hcs)]

/-- Setting units at the end costs nobody anything. -/
theorem resync_earns {vaults : List AccountInfo} :
    (purses u).Earns w 0 (resync ch w indexInfo indexMintInfo vaults) := by
  refine earns_read fun _ _ => ?_
  exact earns_read fun _ _ => syncUnits_earns

/-! ## The loops -/

/-- A sum of amounts is not negative. -/
theorem perMint_nonneg (ms : List Pubkey) (xs : List UInt64) (M : Pubkey) : 0 ≤ perMint ms xs M := by
  fun_induction perMint ms xs with
  | case1 M' ms x xs ih =>
    have hx := single_nonneg M' M x.toNat
    rw [Pi.add_apply]
    omega
  | case2 => rw [Pi.zero_apply]

/-- The mint of an entry stands at its place in the list of mints. -/
theorem mints_at {i : Nat} {c : Component} (h : componentAt w indexInfo i = .ok c) :
    (w.mints indexInfo.key)[i]? = some c.mint := by
  obtain ⟨idx, hidx, hc⟩ := bind_ok_iff.mp h
  rw [World.mints_of_index? (indexRef_ok_iff.mp hidx).1, List.getElem?_map,
    Index.component_ok_iff.mp hc, Option.map_some]

/-- The mint a loop is at, when the table begins with the mints `ms`. -/
theorem drop_of_prefix {α : Type} {ms l : List α} {i : Nat} {M : α} (h : ms <+: l)
    (hi : i < ms.length) (hM : l[i]? = some M) : ms.drop i = M :: ms.drop (i + 1) := by
  obtain ⟨l', rfl⟩ := h
  rw [List.getElem?_append_left hi, List.getElem?_eq_getElem hi, Option.some.injEq] at hM
  rw [List.drop_eq_getElem_cons hi, hM]

/-- What is charged for each component, if `u` is the one who pays. -/
theorem issueLoop_earns (hu : ch.Personal u) {user : AccountInfo} {gross : UInt64} {ms : List Pubkey}
    {i : Nat} {maxIns : List UInt64} {ps : List (AccountInfo × AccountInfo)}
    (hms : ms <+: w.mints indexInfo.key) (hlen : i + maxIns.length = ms.length) :
    (purses u).Earns w (-if user.key = u then perMint (ms.drop i) maxIns else 0)
      (issueLoop ch user indexInfo gross w i maxIns ps) := by
  have hnonneg : ∀ (ms' : List Pubkey) (xs : List UInt64) (M : Pubkey),
      0 ≤ (if user.key = u then perMint ms' xs else 0) M := by
    intro ms' xs M
    split
    · exact perMint_nonneg ms' xs M
    · rw [Pi.zero_apply]
  induction ps generalizing w i maxIns with
  | nil =>
    refine Earns.imp (g := 0) ?_ fun t _ hg => hg.weaken fun M => ?_
    · cases maxIns <;> exact earns_pure w
    · have := hnonneg (ms.drop i) maxIns M
      rw [Pi.neg_apply, Pi.zero_apply]
      omega
  | cons p ps ih =>
    cases maxIns with
    | nil =>
      refine (earns_pure w).imp fun t _ hg => hg.weaken fun M => ?_
      have := hnonneg (ms.drop i) [] M
      rw [Pi.neg_apply, Pi.zero_apply]
      omega
    | cons maxIn maxIns =>
      rw [List.length_cons] at hlen
      refine earns_read fun c hc => ?_
      refine earns_read fun required _ => ?_
      refine earns_read fun _ hmax => ?_
      refine earns_read fun t ht => ?_
      have hle : required.toNat ≤ maxIn.toNat :=
        UInt64.le_iff_toNat_le.mp (UInt64.not_lt.mp (failIf_ok_iff.mp hmax))
      have hdrop := drop_of_prefix hms (by omega) (mints_at hc)
      have hpay : (purses u).Earns w _ (transferFromUser ch w p.2 p.1 user required) :=
        transferFromUser_earns hu ⟨t, requireTokenAccountOfMint_ok_iff.mp ht⟩
      refine (hpay.bind fun t ht => ih ((hms.trans ((hpay t ht).mints _))) (by omega)).imp
        fun t _ hg => hg.weaken fun M => ?_
      rw [hdrop, Pi.add_apply, Pi.neg_apply, Pi.neg_apply, Pi.neg_apply, coins_apply]
      by_cases hcaller : user.key = u
      · rw [if_pos hcaller, if_pos hcaller, perMint, Pi.add_apply, Pi.single_apply]
        simp only [hcaller, true_and]
        split <;> omega
      · rw [if_neg hcaller, if_neg hcaller, if_neg fun h => hcaller h.1, Pi.zero_apply]
        omega

/-- What is promised of each component to the accounts in the purse. -/
theorem redeemLoop_earns (hu : ch.Personal u) (hi : indexInfo.key ≠ u) {net : UInt64} {w₀ : World}
    (howns : ∀ {M k}, w₀.owns u M k = true → w.owns u M k = true) {ms : List Pubkey}
    {i : Nat} {minOuts : List UInt64} {ps : List (AccountInfo × AccountInfo)}
    (hms : ms <+: w.mints indexInfo.key) (hlen : i + minOuts.length = ms.length) :
    (purses u).Earns w (perOwned w₀ u (ms.drop i) minOuts (ps.map Prod.snd))
      (redeemLoop ch indexInfo net w i minOuts ps) := by
  induction ps generalizing w i minOuts with
  | nil =>
    have hnone : perOwned w₀ u (ms.drop i) minOuts [] = 0 := by
      cases ms.drop i <;> cases minOuts <;> rfl
    rw [List.map_nil, hnone]
    cases minOuts <;> exact earns_pure w
  | cons p ps ih =>
    cases minOuts with
    | nil =>
      have hnone : perOwned w₀ u (ms.drop i) [] ((p :: ps).map Prod.snd) = 0 := by
        cases ms.drop i <;> rfl
      rw [hnone]
      exact earns_pure w
    | cons minOut minOuts =>
      rw [List.length_cons] at hlen
      refine earns_read fun c hc => ?_
      refine earns_read fun payout _ => ?_
      refine earns_read fun _ hmin => ?_
      refine earns_read fun t ht => ?_
      have hle : minOut.toNat ≤ payout.toNat :=
        UInt64.le_iff_toNat_le.mp (UInt64.not_lt.mp (failIf_ok_iff.mp hmin))
      have hdrop := drop_of_prefix hms (by omega) (mints_at hc)
      have hpaid : (purses u).Earns w _ (transferFromVault ch w p.1 p.2 indexInfo payout) :=
        transferFromVault_earns hu hi ⟨t, requireTokenAccountOfMint_ok_iff.mp ht⟩
      refine (hpaid.bind fun t ht => ih (fun hk => (hpaid t ht).owns (howns hk))
        (hms.trans ((hpaid t ht).mints _)) (by omega)).imp fun t _ hg => hg.weaken fun M => ?_
      rw [hdrop, List.map_cons, perOwned, Pi.add_apply, Pi.add_apply]
      have hmono := coins_mono (fun hk => howns hk : w₀.owns u c.mint p.2.key = true → _) c.mint M hle
      omega

/-! ## The handlers -/

/-- An instruction that neither costs nor promises anything. -/
theorem earns_still {accounts : List AccountInfo} {ix : FlockInstruction}
    {x : Except ProgramError World} (h : (purses u).Earns w 0 x)
    (hreceipts : receipts w u accounts ix = 0) (hstakes : stakes w accounts ix = 0) :
    (purses u).Earns w (settlement w u accounts ix) x := by
  rw [settlement, hreceipts, hstakes, ite_self, sub_zero]
  exact h

/-- There is a mint for every entry. -/
theorem mints_length {idx : Index} (h : indexRef w indexInfo = .ok idx) :
    (w.mints indexInfo.key).length = idx.components.length := by
  rw [World.mints_of_index? (indexRef_ok_iff.mp h).1, List.length_map]

/-- An issue costs its signer the deliveries up to their limits and pays out the amount. -/
theorem issue_earns (hu : ch.Personal u) {accounts : List AccountInfo} {amount : UInt64}
    {maxIn : List UInt64} :
    (purses u).Earns w (settlement w u accounts (.issue amount maxIn))
      (issue ch w accounts amount maxIn) := by
  match accounts with
  | user :: indexInfo :: indexMintInfo :: userIndexAta :: feeAta :: tokenProgram :: rest =>
    refine earns_read fun _ _ => ?_
    refine earns_read fun _ _ => ?_
    refine earns_read fun _ _ => ?_
    refine earns_read fun _ _ => ?_
    refine earns_read fun idx hidx => ?_
    refine earns_read fun _ _ => ?_
    refine earns_read fun _ hlens => ?_
    refine earns_read fun _ _ => ?_
    have hlen := (not_or.mp (failIf_ok_iff.mp hlens)).1
    refine earns_through fun a ha => ?_
    obtain ⟨owed, w₁⟩ := a
    have haccrued := accrue_gains (u := u) ha
    refine ⟨w₁, haccrued, ?_⟩
    refine resync_earns.before fun w₂ hw₂ => ?_
    have hsynced := resync_earns (u := u) w₂ hw₂
    refine earns_read fun _ _ => ?_
    refine earns_read fun _ _ => ?_
    refine earns_read fun gross _ => ?_
    have hms : w.mints indexInfo.key <+: w₂.mints indexInfo.key :=
      (haccrued.mints _).trans (hsynced.mints _)
    have hpaid : (purses u).Earns w₂
        (-if user.key = u then perMint ((w.mints indexInfo.key).drop 0) maxIn else 0)
        (issueLoop ch user indexInfo gross w₂ 0 maxIn (pairs rest)) :=
      issueLoop_earns hu hms (by rw [mints_length hidx]; omega)
    have hcomes : ∀ w₃, Gains u (-if user.key = u then
          perMint ((w.mints indexInfo.key).drop 0) maxIn else 0) w₂ w₃ →
        (purses u).Earns w₃ (coins (w.owns u indexMintInfo.key userIndexAta.key)
          indexMintInfo.key amount.toNat)
          (mintIndexTokens ch w₃ indexMintInfo userIndexAta indexInfo amount) := by
      intro w₃ hg
      refine mintIndexTokens_earns.imp fun t _ ht => ht.weaken fun M => ?_
      exact coins_mono (fun hk => hg.owns (hsynced.owns (haccrued.owns hk))) _ M (Nat.le_refl _)
    have hall : settlement w u (user :: indexInfo :: indexMintInfo :: userIndexAta :: feeAta ::
          tokenProgram :: rest) (.issue amount maxIn)
        = -(if user.key = u then perMint ((w.mints indexInfo.key).drop 0) maxIn else 0) +
          coins (w.owns u indexMintInfo.key userIndexAta.key) indexMintInfo.key amount.toNat := by
      rw [List.drop_zero, neg_add_eq_sub]
      simp only [settlement, receipts, stakes, calls, decide_eq_true_eq]
    rw [hall]
    refine hpaid.bind fun w₃ hw₃ => ?_
    refine (hcomes w₃ (hpaid w₃ hw₃)).after fun w₄ _ => ?_
    exact mintFee_earns.before fun w₅ _ => resync_earns
  | [] | [_] | [_, _] | [_, _, _] | [_, _, _, _] | [_, _, _, _, _] => exact earns_error w _ _

/-- A redemption costs its signer the amount and pays out the limits at least. -/
theorem redeem_earns (hu : ch.Personal u) {accounts : List AccountInfo} {amount : UInt64}
    {minOut : List UInt64} (hm : ∀ m, Concerns m accounts (.redeem amount minOut) → ch.inUse m) :
    (purses u).Earns w (settlement w u accounts (.redeem amount minOut))
      (redeem ch w accounts amount minOut) := by
  match accounts with
  | user :: indexInfo :: indexMintInfo :: userIndexAta :: feeAta :: tokenProgram :: rest =>
    refine earns_read fun _ _ => ?_
    refine earns_read fun _ _ => ?_
    refine earns_read fun _ hpda => ?_
    refine earns_read fun _ _ => ?_
    refine earns_read fun idx hidx => ?_
    refine earns_read fun _ _ => ?_
    refine earns_read fun _ hlens => ?_
    refine earns_read fun _ _ => ?_
    have hlen := (not_or.mp (failIf_ok_iff.mp hlens)).1
    have hi : indexInfo.key ≠ u := by
      rw [checkIndexPda_ok hpda]
      exact (hu.outsider _ (hm indexMintInfo.key rfl)).symm
    refine earns_through fun a ha => ?_
    obtain ⟨owed, w₁⟩ := a
    have haccrued := accrue_gains (u := u) ha
    refine ⟨w₁, haccrued, ?_⟩
    refine earns_read fun _ _ => ?_
    refine earns_read fun _ _ => ?_
    refine earns_read fun _ _ => ?_
    refine syncUnits_earns.before fun w₂ hw₂ => ?_
    have hsynced := syncUnits_earns (u := u) w₂ hw₂
    refine earns_read fun _ _ => ?_
    refine earns_read fun _ _ => ?_
    refine earns_read fun net _ => ?_
    have hall : settlement w u (user :: indexInfo :: indexMintInfo :: userIndexAta :: feeAta ::
          tokenProgram :: rest) (.redeem amount minOut)
        = -coins (user.key = u) indexMintInfo.key amount.toNat +
          perOwned w u ((w.mints indexInfo.key).drop 0) minOut ((pairs rest).map Prod.snd) := by
      rw [List.drop_zero, neg_add_eq_sub]
      simp only [settlement, receipts, stakes, calls, decide_eq_true_eq, coins]
    rw [hall]
    have hburn : (purses u).Earns w₂ (-coins (user.key = u) indexMintInfo.key amount.toNat)
        (burnIndexTokens ch w₂ indexMintInfo userIndexAta user amount) :=
      fun t ht => burn_gains hu ht
    refine hburn.bind fun w₃ hw₃ => ?_
    refine mintFee_earns.before fun w₄ hw₄ => ?_
    have hthere : Gains u _ w w₄ := (purses u).trans haccrued ((purses u).trans hsynced
      ((purses u).trans (hburn w₃ hw₃) (mintFee_earns w₄ hw₄)))
    refine (redeemLoop_earns hu hi hthere.owns (hthere.mints _) ?_).after fun w₅ _ => resync_earns
    rw [mints_length hidx]
    omega
  | [] | [_] | [_, _] | [_, _, _] | [_, _, _, _] | [_, _, _, _, _] => exact earns_error w _ _

/-- The mint of an entry looked up stands at its place in the list of mints. -/
theorem mints_component {idx : Index} {i : Nat} {c : Component}
    (hidx : indexRef w indexInfo = .ok idx) (hc : idx.component i = .ok c) :
    (w.mints indexInfo.key)[i]? = some c.mint :=
  mints_at (bind_ok_iff.mpr ⟨idx, hidx, hc⟩)

/-- A bid costs its signer what it offered at most and pays out what it asked for. -/
theorem bid_earns (hu : ch.Personal u) {accounts : List AccountInfo}
    {sellComponent buyComponent : UInt8} {sellAmount maxBuyAmount : UInt64}
    (hm : ∀ m, Concerns m accounts (.bid sellComponent buyComponent sellAmount maxBuyAmount) →
      ch.inUse m) :
    (purses u).Earns w
      (settlement w u accounts (.bid sellComponent buyComponent sellAmount maxBuyAmount))
      (bid ch w accounts sellComponent buyComponent sellAmount maxBuyAmount) := by
  match accounts with
  | bidder :: indexInfo :: indexMintInfo :: bidderReceive :: bidderPay :: tokenProgram :: vaults =>
    refine earns_read fun _ _ => ?_
    refine earns_read fun _ _ => ?_
    refine earns_read fun _ hpda => ?_
    refine earns_read fun _ _ => ?_
    refine earns_read fun _ _ => ?_
    refine earns_read fun idx hidx => ?_
    refine earns_read fun _ _ => ?_
    refine earns_read fun _ _ => ?_
    refine earns_read fun premium _ => ?_
    refine earns_read fun _ _ => ?_
    refine earns_read fun sell hsell => ?_
    refine earns_read fun buy hbuy => ?_
    refine earns_read fun _ _ => ?_
    refine earns_read fun _ _ => ?_
    refine earns_read fun _ _ => ?_
    refine earns_read fun tr hreceive => ?_
    refine earns_read fun tp hpay => ?_
    refine earns_read fun _ _ => ?_
    refine earns_read fun _ _ => ?_
    refine earns_read fun buyAmount hsize => ?_
    refine earns_read fun buyVault _ => ?_
    refine earns_read fun sellVault _ => ?_
    have hi : indexInfo.key ≠ u := by
      rw [checkIndexPda_ok hpda]
      exact (hu.outsider _ (hm indexMintInfo.key rfl)).symm
    obtain ⟨hreceive, hsellMint⟩ := requireTokenAccountOfMint_ok_iff.mp hreceive
    have hle := (bidSizing_ok (lift_ok_iff.mp hsize)).1
    have hpaid : (purses u).Earns w _
        (transferFromUser ch w bidderPay buyVault bidder buyAmount) :=
      transferFromUser_earns hu ⟨tp, requireTokenAccountOfMint_ok_iff.mp hpay⟩
    have hall : settlement w u (bidder :: indexInfo :: indexMintInfo :: bidderReceive ::
          bidderPay :: tokenProgram :: vaults)
          (.bid sellComponent buyComponent sellAmount maxBuyAmount)
        = -coins (bidder.key = u) buy.mint maxBuyAmount.toNat +
          coins (w.owns u sell.mint bidderReceive.key) sell.mint sellAmount.toNat := by
      rw [neg_add_eq_sub]
      simp only [settlement, receipts, stakes, calls, decide_eq_true_eq, coins,
        mints_component hidx hsell, mints_component hidx hbuy]
    rw [hall]
    refine (hpaid.imp fun t _ hg => hg.weaken fun M => ?_).bind fun w₁ hw₁ => ?_
    · have hmono := coins_mono (fun h : bidder.key = u => h) buy.mint M hle
      rw [Pi.neg_apply, Pi.neg_apply]
      omega
    · have hg := hpaid w₁ hw₁
      have hreceive' : ∃ t, w₁.token? bidderReceive.key = some t ∧ t.mint = sell.mint := by
        unfold transferFromUser at hw₁
        split at hw₁
        · obtain rfl := Except.ok.inj hw₁
          exact ⟨tr, hreceive, hsellMint⟩
        · obtain ⟨hflow, -⟩ := transfer_flow hw₁
          obtain ⟨t', ht', hm', -⟩ := hflow.account hreceive
          exact ⟨t', ht', hm'.trans hsellMint⟩
      have htaken : (purses u).Earns w₁ _
          (transferFromVault ch w₁ sellVault bidderReceive indexInfo sellAmount) :=
        transferFromVault_earns hu hi hreceive'
      refine (htaken.imp fun t _ hg' => hg'.weaken fun M => ?_).after fun w₂ _ => ?_
      · exact coins_mono (fun hk => hg.owns hk) sell.mint M (Nat.le_refl _)
      · refine earns_read fun _ _ => ?_
        refine earns_read fun _ _ => ?_
        refine earns_read fun _ _ => ?_
        refine earns_read fun _ _ => ?_
        exact syncUnits_earns
  | [] | [_] | [_, _] | [_, _, _] | [_, _, _, _] | [_, _, _, _, _] => exact earns_error w _ _

/-! ### The handlers that move no tokens -/

/-- A proposal moves no tokens. -/
theorem proposeRebalance_earns {accounts : List AccountInfo} {targets prices : List UInt64}
    {p : AuctionParams} :
    (purses u).Earns w 0 (proposeRebalance ch w accounts targets prices p) := by
  match accounts with
  | manager :: indexInfo :: indexMintInfo :: vaults =>
    refine earns_read fun _ _ => ?_
    refine earns_read fun _ _ => ?_
    refine earns_read fun idx hidx => ?_
    refine earns_read fun _ _ => ?_
    refine earns_read fun _ _ => ?_
    refine earns_read fun _ _ => ?_
    refine earns_read fun _ _ => ?_
    refine earns_read fun _ _ => ?_
    refine earns_read fun _ _ => ?_
    refine earns_read fun _ _ => ?_
    refine earns_read fun balances _ => ?_
    -- the targets and prices are written before the fund is valued at them
    have hwritten : Gains u 0 w (w.setIndex indexInfo.key
        { idx with components := writeTargets idx.components targets prices }) := by
      refine .of_rewrite (indexRef_ok_iff.mp hidx).1 ?_
      rw [writeTargets_map Component.mint fun _ _ _ => rfl]
    refine earns_through fun nav _ => ⟨_, hwritten, ?_⟩
    refine earns_read fun startTs _ => ?_
    refine earns_read fun endTs _ => ?_
    refine earns_read fun idx' hidx' => ?_
    refine earns_read fun _ _ => ?_
    refine earns_read fun navFloor _ => ?_
    intro t ht
    rw [← pure_ok_iff.mp ht]
    exact .of_rewrite (indexRef_ok_iff.mp hidx').1 List.prefix_rfl
  | [] | [_] | [_, _] => exact earns_error w _ _

/-- Ending a rebalance moves no tokens. -/
theorem endRebalance_earns {accounts : List AccountInfo} :
    (purses u).Earns w 0 (endRebalance ch w accounts) := by
  match accounts with
  | caller :: indexInfo :: indexMintInfo :: vaults =>
    refine earns_read fun _ _ => ?_
    refine earns_read fun _ _ => ?_
    refine earns_read fun _ _ => ?_
    refine earns_read fun _ _ => ?_
    refine earns_read fun _ _ => ?_
    refine resync_earns.before fun w₁ _ => ?_
    refine earns_read fun idx hidx => ?_
    intro t ht
    rw [← pure_ok_iff.mp ht]
    refine .of_rewrite (indexRef_ok_iff.mp hidx).1 ?_
    rw [List.map_map]
    exact List.prefix_rfl
  | [] | [_] | [_, _] => exact earns_error w _ _

/-- Accruing fees costs nobody anything. -/
theorem accrueFees_earns {accounts : List AccountInfo} :
    (purses u).Earns w 0 (accrueFees ch w accounts) := by
  match accounts with
  | indexInfo :: indexMintInfo :: feeAta :: tokenProgram :: vaults =>
    refine earns_read fun _ _ => ?_
    refine earns_read fun _ _ => ?_
    refine earns_read fun _ _ => ?_
    refine earns_read fun _ _ => ?_
    refine earns_through fun a ha => ?_
    obtain ⟨owed, w₁⟩ := a
    exact ⟨w₁, accrue_gains ha, resync_earns⟩
  | [] | [_] | [_, _] | [_, _, _] => exact earns_error w _ _

/-- A new record costs no tokens. -/
theorem initIndex_earns {accounts : List AccountInfo} {p : InitParams} :
    (purses u).Earns w 0 (initIndex ch w accounts p) := by
  match accounts with
  | payer :: indexInfo :: indexMintInfo :: governor :: manager :: feeRecipient ::
      systemProgram :: rest =>
    refine earns_read fun _ _ => ?_
    refine earns_read fun _ _ => ?_
    refine earns_read fun _ _ => ?_
    refine earns_read fun _ hkey => ?_
    refine earns_read fun _ hempty => ?_
    refine earns_read fun _ _ => ?_
    refine earns_read fun _ _ => ?_
    have hempty := not_not.mp (failIf_ok_iff.mp hempty)
    have hkey : indexInfo.key = _ := not_not.mp (failIf_ok_iff.mp hkey)
    refine earns_through fun w₁ hw₁ => ⟨w₁, createAccount_gains hw₁, ?_⟩
    obtain ⟨-, hidx, halloc⟩ := createAccount_flow hw₁
    rw [← hkey] at halloc
    intro t ht
    rw [← pure_ok_iff.mp ht]
    refine .of_setIndex (by simp [halloc]) ?_
    have hnone : w₁.mints indexInfo.key = [] := by
      rw [World.mints_congr hidx, World.mints, World.table, World.index?, hempty]
      rfl
    rw [hnone]
    exact List.nil_prefix
  | [] | [_] | [_, _] | [_, _, _] | [_, _, _, _] | [_, _, _, _, _] | [_, _, _, _, _, _] =>
    exact earns_error w _ _

/-- A new entry and its empty vault cost no tokens. -/
theorem addComponent_earns {accounts : List AccountInfo} {units : UInt64} :
    (purses u).Earns w 0 (addComponent ch w accounts units) := by
  match accounts with
  | manager :: payer :: indexInfo :: indexMintInfo :: componentMintInfo :: vaultInfo ::
      systemProgram :: tokenProgram :: rest =>
    refine earns_read fun _ _ => ?_
    refine earns_read fun _ _ => ?_
    refine earns_read fun _ _ => ?_
    refine earns_read fun _ _ => ?_
    refine earns_read fun _ _ => ?_
    refine earns_read fun _ _ => ?_
    refine earns_read fun _ _ => ?_
    refine earns_read fun _ _ => ?_
    refine earns_read fun _ _ => ?_
    refine earns_read fun _ _ => ?_
    refine earns_read fun _ _ => ?_
    refine earns_read fun _ _ => ?_
    refine earns_read fun _ _ => ?_
    refine earns_through fun w₁ hw₁ => ⟨w₁, createAccount_gains hw₁, ?_⟩
    refine earns_through fun w₂ hw₂ => ⟨w₂, initializeAccount3_gains hw₂, ?_⟩
    refine earns_read fun idx hidx => ?_
    intro t ht
    rw [← pure_ok_iff.mp ht]
    refine .of_rewrite (indexRef_ok_iff.mp hidx).1 ?_
    rw [List.map_append]
    exact List.prefix_append _ _
  | [] | [_] | [_, _] | [_, _, _] | [_, _, _, _] | [_, _, _, _, _] | [_, _, _, _, _, _]
  | [_, _, _, _, _, _, _] => exact earns_error w _ _

/-- Sealing moves no tokens. -/
theorem sealIndex_earns {accounts : List AccountInfo} :
    (purses u).Earns w 0 (sealIndex ch w accounts) := by
  match accounts with
  | _ :: _ :: _ :: _ =>
    intro t ht
    obtain ⟨-, idx, hidx, hsealed⟩ := sealIndex_sealed rfl ht
    rw [hsealed.world]
    exact .of_rewrite hidx List.prefix_rfl
  | [] | [_] | [_, _] => exact earns_error w _ _

/-- New fees move no tokens. -/
theorem setParams_earns {accounts : List AccountInfo} {streaming issue redeem premium : UInt16}
    {delay : UInt32} :
    (purses u).Earns w 0 (setParams ch w accounts streaming issue redeem premium delay) := by
  match accounts with
  | _ :: _ :: _ :: _ =>
    intro t ht
    obtain ⟨-, -, idx, hidx, -, rfl⟩ := setParams_ok rfl ht
    exact .of_rewrite hidx List.prefix_rfl
  | [] | [_] | [_, _] => exact earns_error w _ _

/-- A new authority moves no tokens. -/
theorem setAuthority_earns {accounts : List AccountInfo} {role : UInt8} {newAuthority : Pubkey} :
    (purses u).Earns w 0 (setAuthority ch w accounts role newAuthority) := by
  match accounts with
  | _ :: _ :: _ :: _ =>
    intro t ht
    obtain ⟨-, idx, hidx, -, rfl⟩ := setAuthority_ok rfl ht
    refine .of_rewrite hidx ?_
    unfold Index.withAuthority
    split
    · exact List.prefix_rfl
    · split <;> exact List.prefix_rfl
  | [] | [_] | [_, _] => exact earns_error w _ _

/-- Pausing moves no tokens. -/
theorem setPaused_earns {accounts : List AccountInfo} {paused : Bool} :
    (purses u).Earns w 0 (setPaused ch w accounts paused) := by
  match accounts with
  | _ :: _ :: _ :: _ =>
    intro t ht
    obtain ⟨-, idx, hidx, -, -, -, rfl⟩ := setPaused_ok rfl ht
    exact .of_rewrite hidx List.prefix_rfl
  | [] | [_] | [_, _] => exact earns_error w _ _

/-! ## A call, and a run -/

/-- What a call settles. Those that move no tokens leave every purse alone. -/
theorem process_earns (hu : ch.Personal u) {accounts : List AccountInfo} {ix : FlockInstruction}
    (hm : ∀ m, Concerns m accounts ix → ch.inUse m) :
    (purses u).Earns w (settlement w u accounts ix) (process ch w accounts ix) := by
  cases ix with
  | issue amount maxIn => exact issue_earns hu
  | redeem amount minOut => exact redeem_earns hu hm
  | bid s b sellAmount maxBuyAmount => exact bid_earns hu hm
  | initIndex name symbol streaming issue redeem premium delay =>
    exact earns_still initIndex_earns rfl rfl
  | addComponent units => exact earns_still addComponent_earns rfl rfl
  | sealIndex => exact earns_still sealIndex_earns rfl rfl
  | accrueFees => exact earns_still accrueFees_earns rfl rfl
  | proposeRebalance targets prices duration startPremium endPremium maxNavLoss =>
    exact earns_still proposeRebalance_earns rfl rfl
  | endRebalance => exact earns_still endRebalance_earns rfl rfl
  | setParams streaming issue redeem premium delay =>
    exact earns_still setParams_earns rfl rfl
  | setAuthority role newAuthority =>
    exact earns_still setAuthority_earns rfl rfl
  | setPaused paused => exact earns_still setPaused_earns rfl rfl

/-- The index a call is about has a mint in use. -/
theorem Signable.concerned {accounts : List AccountInfo} {ix : FlockInstruction} {m : Pubkey}
    (h : Signable ch accounts) (hc : Concerns m accounts ix) : ch.inUse m := by
  obtain ⟨a, ha, rfl⟩ := Option.map_eq_some_iff.mp hc
  exact h.inUse a (List.mem_of_getElem? ha)

/-- Nothing happened to the accounts of `u` but what others may do: pay in, or open one. -/
structure Spared (u : Pubkey) (w w' : World) : Prop where
  account : ∀ {k t}, w.token? k = some t → t.owner = u → t.delegate = none →
    ∃ t', w'.token? k = some t' ∧ t'.mint = t.mint ∧ t'.owner = u ∧ t'.delegate = none ∧
      t.amount.toNat ≤ t'.amount.toNat
  undelegated : w.Undelegated u → w'.Undelegated u

/-- A step outside the program that spares the purse leaves it no poorer. -/
theorem Spared.gains (h : Spared u w w') (hrecords : w'.index? = w.index?) : Gains u 0 w w' where
  owns := by
    intro M k hk
    obtain ⟨t, ht, hm, ho, hd⟩ := World.owns_iff.mp hk
    obtain ⟨t', ht', hm', ho', hd', -⟩ := h.account ht ho hd
    exact World.owns_iff.mpr ⟨t', ht', hm'.trans hm, ho', hd'⟩
  undelegated := h.undelegated
  mints := fun k => by rw [World.mints_congr hrecords]
  purse := by
    intro M
    rw [Pi.zero_apply, add_zero, Int.ofNat_le]
    refine Finset.sum_le_sum fun k _ => ?_
    by_cases hk : w.owns u M k = true
    · obtain ⟨t, ht, hm, ho, hd⟩ := World.owns_iff.mp hk
      obtain ⟨t', ht', hm', ho', hd', hle⟩ := h.account ht ho hd
      have hk' : w'.owns u M k = true :=
        World.owns_iff.mpr ⟨t', ht', hm'.trans hm, ho', hd'⟩
      rw [if_pos hk, if_pos hk', World.amount_of_token? ht, World.amount_of_token? ht']
      exact hle
    · rw [if_neg hk]
      exact Nat.zero_le _

/-- A step of the system with what it settles for `u`: a call of anybody, or a step outside
the program that does not touch the accounts of `u`. -/
inductive Dealing (ch : Chain) (u : Pubkey) : (Pubkey → ℤ) → World → World → Prop where
  | call {w w' : World} {accounts : List AccountInfo} {ix : FlockInstruction}
      (signable : Signable ch accounts) (done : process ch w accounts ix = .ok w') :
      Dealing ch u (settlement w u accounts ix) w w'
  | outside {w w' : World} (h : Outside ch w w') (spared : Spared u w w') : Dealing ch u 0 w w'

/-- A step of a dealing settles as its instruction says. -/
theorem Dealing.gains {g : Pubkey → ℤ} (h : Dealing ch u g w w') (hu : ch.Personal u) :
    Gains u g w w' := by
  cases h with
  | call signable done => exact process_earns hu (fun _ => signable.concerned) w' done
  | outside h spared => exact spared.gains h.records

/-- Over a run of calls by anybody with any accounts, every purse ends with at least what it
had, plus what the calls promised to accounts in it, less what the calls that its owner
made put at stake. -/
theorem purse_settles (hu : ch.Personal u) {g : Pubkey → ℤ} (hrun : Along (Dealing ch u) g w w')
    (M : Pubkey) : (w.purse u M : ℤ) + g M ≤ w'.purse u M :=
  ((Along.rel (R := purses u) (P := fun _ => True) (fun _ h => ⟨h.gains hu, trivial⟩) trivial
    hrun).1).purse M

/-- The holder of the local fund is a person. -/
theorem localnet_personal {k : Pubkey} (h : k.val.toNat < localBase) : localnet.Personal k where
  outsider := localnet_outsider h
  debit := fun ho hd hmay => (legacyAuthority_owner hd hmay).symm.trans ho
  burn := fun ho hd hmay => (legacyAuthority_owner hd hmay).symm.trans ho

/-- Holder 40 issues five whole tokens at exact limits. -/
def exactIssue : FlockInstruction := .issue 5000000000 [10000000, 1666666665]

/-- The holder issues five tokens, and nothing but what that asks for leaves the purse. -/
theorem purse_settles_local : ∃ w w' : World,
    (w.purse (addr 40) (addr 1) : ℤ) + 5000000000 ≤ w'.purse (addr 40) (addr 1) ∧
      (w.purse (addr 40) (addr 2) : ℤ) + -10000000 ≤ w'.purse (addr 40) (addr 2) := by
  obtain ⟨w, idx, -, -, hp⟩ := exists_of_run (openFund ⟨0, 0, 0, 100⟩ 2000000 333333333)
    (fun w _ => endsIn (process localnet w tradeAccounts exactIssue) (fun _ => true) &&
      decide (settlement w (addr 40) tradeAccounts exactIssue (addr 1) = 5000000000 ∧
        settlement w (addr 40) tradeAccounts exactIssue (addr 2) = -10000000)) (by decide +kernel)
  obtain ⟨hissue, hgrade⟩ := Bool.and_eq_true_iff.mp hp
  obtain ⟨w', hw', -⟩ := endsIn_iff.mp hissue
  obtain ⟨hindex, hcomponent⟩ := of_decide_eq_true hgrade
  have hrun : Along (Dealing localnet (addr 40))
      (0 + settlement w (addr 40) tradeAccounts exactIssue) w w' :=
    .tail (.refl w) (.call trade_signable hw')
  have hsettled := purse_settles (localnet_personal (k := addr 40) (by decide)) hrun
  refine ⟨w, w', ?_, ?_⟩
  · rw [← hindex, ← zero_add (settlement w (addr 40) tradeAccounts exactIssue)]
    exact hsettled (addr 1)
  · rw [← hcomponent, ← zero_add (settlement w (addr 40) tradeAccounts exactIssue)]
    exact hsettled (addr 2)

end Flock
