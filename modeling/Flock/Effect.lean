import Flock.Admin

/-!
# What an instruction does

`Effect ch m w w' accounts ix` collects the effects of the twelve handlers: the
instruction `ix`, given these accounts, took `w` to `w'` and concerned the index
of `m`. `process_effect` says that every successful call has one. Whatever the
instruction, its effect is a single leg (`Effect.leg`): this is the frame that
keeps indices out of each other's way.
-/

namespace Flock

open Outcome MachineInt

variable {ch : Chain} {m : Pubkey} {w w' : World}

/-- An account list a transaction can carry. -/
structure Signable (ch : Chain) (accounts : List AccountInfo) : Prop where
  inUse : ∀ a ∈ accounts, ch.inUse a.key
  outsider : ∀ a ∈ accounts, a.isSigner = true → ch.Outsider a.key

/-- Where the account list of an instruction names the index mint. -/
def FlockInstruction.mintSlot : FlockInstruction → Nat
  | .addComponent _ => 3
  | .accrueFees => 1
  | _ => 2

/-- The call is about the index of `m`. -/
def Concerns (m : Pubkey) (accounts : List AccountInfo) (ix : FlockInstruction) : Prop :=
  accounts[ix.mintSlot]?.map AccountInfo.key = some m

inductive Effect (ch : Chain) (m : Pubkey) (w w' : World) :
    List AccountInfo → FlockInstruction → Prop where
  | initIndex {payer indexInfo indexMintInfo governor manager feeRecipient systemProgram rest}
      {p : InitParams}
      (key : indexMintInfo.key = m)
      (done : Initialized ch m w w' governor.key manager.key feeRecipient.key p) :
      Effect ch m w w'
        (payer :: indexInfo :: indexMintInfo :: governor :: manager :: feeRecipient ::
          systemProgram :: rest)
        (.initIndex p.name p.symbol p.streamingFeeBps p.issueFeeBps p.redeemFeeBps
          p.maxPremiumBps p.rebalanceDelay)
  | addComponent {manager payer indexInfo indexMintInfo componentMintInfo vaultInfo systemProgram
      tokenProgram rest idx c}
      (key : indexMintInfo.key = m) (signed : manager.isSigner = true)
      (before : w.index? (ch.indexKey m) = some idx) (mint : c.mint = componentMintInfo.key)
      (done : Added ch m idx w w' c manager.key) :
      Effect ch m w w'
        (manager :: payer :: indexInfo :: indexMintInfo :: componentMintInfo :: vaultInfo ::
          systemProgram :: tokenProgram :: rest)
        (.addComponent c.units)
  | sealIndex {manager indexInfo indexMintInfo rest idx}
      (key : indexMintInfo.key = m) (signed : manager.isSigner = true)
      (before : w.index? (ch.indexKey m) = some idx)
      (done : Sealed ch m idx w w' manager.key) :
      Effect ch m w w' (manager :: indexInfo :: indexMintInfo :: rest) .sealIndex
  | issue {user indexInfo indexMintInfo userIndexAta feeAta tokenProgram rest amount maxIn idx w₁
      owed fee gross}
      (key : indexMintInfo.key = m) (before : w.index? (ch.indexKey m) = some idx)
      (done : Issued ch m idx w w₁ w' amount maxIn userIndexAta.key feeAta.key owed fee gross) :
      Effect ch m w w'
        (user :: indexInfo :: indexMintInfo :: userIndexAta :: feeAta :: tokenProgram :: rest)
        (.issue amount maxIn)
  | redeem {user indexInfo indexMintInfo userIndexAta feeAta tokenProgram rest amount minOut idx w₁
      owed fee net}
      (key : indexMintInfo.key = m) (signed : user.isSigner = true)
      (before : w.index? (ch.indexKey m) = some idx)
      (done : Redeemed ch m idx w w₁ w' amount user.key userIndexAta.key feeAta.key (pairs rest)
        owed fee net) :
      Effect ch m w w'
        (user :: indexInfo :: indexMintInfo :: userIndexAta :: feeAta :: tokenProgram :: rest)
        (.redeem amount minOut)
  | accrueFees {indexInfo indexMintInfo feeAta tokenProgram vaults idx w₁ owed}
      (key : indexMintInfo.key = m) (before : w.index? (ch.indexKey m) = some idx)
      (done : Accrued ch m idx w w₁ w' feeAta.key owed) :
      Effect ch m w w' (indexInfo :: indexMintInfo :: feeAta :: tokenProgram :: vaults) .accrueFees
  | proposeRebalance {manager indexInfo indexMintInfo vaults targetUnits refPricesE9}
      {p : AuctionParams} {idx nav navFloor startTs endTs}
      (key : indexMintInfo.key = m) (signed : manager.isSigner = true)
      (before : w.index? (ch.indexKey m) = some idx)
      (done : Proposed ch m idx w w' targetUnits refPricesE9 p manager.key nav navFloor startTs
        endTs) :
      Effect ch m w w' (manager :: indexInfo :: indexMintInfo :: vaults)
        (.proposeRebalance targetUnits refPricesE9 p.duration p.startPremiumBps p.endPremiumBps
          p.maxNavLossBps)
  | bid {bidder indexInfo indexMintInfo bidderReceive bidderPay tokenProgram vaults s b sellAmount
      maxBuyAmount idx sell buy mi premium buyAmount}
      (key : indexMintInfo.key = m) (before : w.index? (ch.indexKey m) = some idx)
      (done : Filled ch m idx w w' s b sellAmount maxBuyAmount bidderReceive.key bidderPay.key
        sell buy mi premium buyAmount) :
      Effect ch m w w'
        (bidder :: indexInfo :: indexMintInfo :: bidderReceive :: bidderPay :: tokenProgram ::
          vaults)
        (.bid s b sellAmount maxBuyAmount)
  | endRebalance {caller indexInfo indexMintInfo vaults idx}
      (key : indexMintInfo.key = m) (signed : caller.isSigner = true)
      (before : w.index? (ch.indexKey m) = some idx)
      (done : Ended ch m idx w w' caller.key) :
      Effect ch m w w' (caller :: indexInfo :: indexMintInfo :: vaults) .endRebalance
  | setParams {governor indexInfo indexMintInfo rest streaming issue redeem premium delay idx}
      (key : indexMintInfo.key = m) (signed : governor.isSigner = true)
      (before : w.index? (ch.indexKey m) = some idx)
      (fees : FeesInBounds streaming issue redeem premium delay)
      (governor_eq : idx.governor = governor.key)
      (world : w' = w.setIndex (ch.indexKey m)
        (idx.withParams streaming issue redeem premium delay w.clock)) :
      Effect ch m w w' (governor :: indexInfo :: indexMintInfo :: rest)
        (.setParams streaming issue redeem premium delay)
  | setAuthority {governor indexInfo indexMintInfo rest role newAuthority idx}
      (key : indexMintInfo.key = m) (signed : governor.isSigner = true)
      (before : w.index? (ch.indexKey m) = some idx)
      (governor_eq : idx.governor = governor.key)
      (world : w' = w.setIndex (ch.indexKey m) (idx.withAuthority role newAuthority)) :
      Effect ch m w w' (governor :: indexInfo :: indexMintInfo :: rest)
        (.setAuthority role newAuthority)
  | setPaused {caller indexInfo indexMintInfo rest paused idx}
      (key : indexMintInfo.key = m) (signed : caller.isSigner = true)
      (before : w.index? (ch.indexKey m) = some idx)
      (sealed : idx.state ≠ stateBootstrapping)
      (brake : paused = true → idx.governor = caller.key ∨ idx.manager = caller.key)
      (release : paused = false → idx.governor = caller.key)
      (world : w' = w.setIndex (ch.indexKey m)
        { idx with state := if paused then statePaused else stateLive }) :
      Effect ch m w w' (caller :: indexInfo :: indexMintInfo :: rest) (.setPaused paused)

/-- Every successful call has an effect. -/
theorem process_effect {accounts : List AccountInfo} {ix : FlockInstruction}
    (hS : Signable ch accounts)
    (hC : ∀ {m idx}, ch.inUse m → w.index? (ch.indexKey m) = some idx → Custody ch m w idx)
    (h : process ch w accounts ix = .ok w') :
    ∃ m, ch.inUse m ∧ Effect ch m w w' accounts ix := by
  cases ix with
  | initIndex name symbol streaming issue redeem premium delay =>
    simp only [process] at h
    obtain ⟨_, _, mint, _, _, _, _, _, rfl⟩ : ∃ a b c d e f g rest,
        accounts = a :: b :: c :: d :: e :: f :: g :: rest := by
      unfold initIndex at h
      split at h
      · exact ⟨_, _, _, _, _, _, _, _, rfl⟩
      · cases h
    have hm : ch.inUse mint.key := hS.inUse _ (by simp)
    exact ⟨_, hm, .initIndex (p := ⟨name, symbol, streaming, issue, redeem, premium, delay⟩) rfl
      (initIndex_initialized rfl h)⟩
  | addComponent units =>
    simp only [process] at h
    obtain ⟨_, _, _, mint, _, _, _, _, _, rfl⟩ : ∃ a b c d e f g i rest,
        accounts = a :: b :: c :: d :: e :: f :: g :: i :: rest := by
      unfold addComponent at h
      split at h
      · exact ⟨_, _, _, _, _, _, _, _, _, rfl⟩
      · cases h
    have hm : ch.inUse mint.key := hS.inUse _ (by simp)
    obtain ⟨hs, idx, c, hidx, hc, rfl, hd⟩ := addComponent_added rfl h
    exact ⟨_, hm, .addComponent rfl hs hidx hc hd⟩
  | sealIndex =>
    simp only [process] at h
    obtain ⟨_, _, mint, _, rfl⟩ : ∃ a b c rest, accounts = a :: b :: c :: rest := by
      unfold sealIndex at h
      split at h
      · exact ⟨_, _, _, _, rfl⟩
      · cases h
    have hm : ch.inUse mint.key := hS.inUse _ (by simp)
    obtain ⟨hs, idx, hidx, hd⟩ := sealIndex_sealed rfl h
    exact ⟨_, hm, .sealIndex rfl hs hidx hd⟩
  | issue amount maxIn =>
    simp only [process] at h
    obtain ⟨user, _, mint, _, _, _, _, rfl⟩ : ∃ a b c d e f rest,
        accounts = a :: b :: c :: d :: e :: f :: rest := by
      unfold issue at h
      split at h
      · exact ⟨_, _, _, _, _, _, _, rfl⟩
      · cases h
    have hm : ch.inUse mint.key := hS.inUse _ (by simp)
    obtain ⟨idx, w₁, owed, fee, gross, hidx, hd⟩ :=
      issue_issued rfl h (hS.outsider user (List.mem_cons_self ..)) (hC hm)
    exact ⟨_, hm, .issue rfl hidx hd⟩
  | redeem amount minOut =>
    simp only [process] at h
    obtain ⟨user, _, mint, _, _, _, _, rfl⟩ : ∃ a b c d e f rest,
        accounts = a :: b :: c :: d :: e :: f :: rest := by
      unfold redeem at h
      split at h
      · exact ⟨_, _, _, _, _, _, _, rfl⟩
      · cases h
    have hm : ch.inUse mint.key := hS.inUse _ (by simp)
    obtain ⟨idx, w₁, owed, fee, net, hidx, hs, hd⟩ :=
      redeem_redeemed rfl h (hS.outsider user (List.mem_cons_self ..)) (hC hm)
    exact ⟨_, hm, .redeem rfl hs hidx hd⟩
  | accrueFees =>
    simp only [process] at h
    obtain ⟨_, mint, _, _, _, rfl⟩ : ∃ a b c d rest, accounts = a :: b :: c :: d :: rest := by
      unfold accrueFees at h
      split at h
      · exact ⟨_, _, _, _, _, rfl⟩
      · cases h
    have hm : ch.inUse mint.key := hS.inUse _ (by simp)
    obtain ⟨idx, w₁, owed, hidx, hd, -⟩ := accrueFees_accrued rfl h (hC hm)
    exact ⟨_, hm, .accrueFees rfl hidx hd⟩
  | proposeRebalance targets prices duration startPremium endPremium maxNavLoss =>
    simp only [process] at h
    obtain ⟨_, _, mint, _, rfl⟩ : ∃ a b c rest, accounts = a :: b :: c :: rest := by
      unfold proposeRebalance at h
      split at h
      · exact ⟨_, _, _, _, rfl⟩
      · cases h
    have hm : ch.inUse mint.key := hS.inUse _ (by simp)
    obtain ⟨hs, idx, nav, navFloor, startTs, endTs, hidx, hd⟩ := proposeRebalance_proposed rfl h (hC hm)
    exact ⟨_, hm, .proposeRebalance (p := ⟨duration, startPremium, endPremium, maxNavLoss⟩) rfl hs hidx
      hd⟩
  | bid s b sellAmount maxBuyAmount =>
    simp only [process] at h
    obtain ⟨bidder, _, mint, _, _, _, _, rfl⟩ : ∃ a b c d e f rest,
        accounts = a :: b :: c :: d :: e :: f :: rest := by
      unfold bid at h
      split at h
      · exact ⟨_, _, _, _, _, _, _, rfl⟩
      · cases h
    have hm : ch.inUse mint.key := hS.inUse _ (by simp)
    obtain ⟨idx, sell, buy, mi, premium, buyAmount, hidx, hd⟩ :=
      bid_filled rfl h (hS.outsider bidder (List.mem_cons_self ..)) (hC hm)
    exact ⟨_, hm, .bid rfl hidx hd⟩
  | endRebalance =>
    simp only [process] at h
    obtain ⟨_, _, mint, _, rfl⟩ : ∃ a b c rest, accounts = a :: b :: c :: rest := by
      unfold endRebalance at h
      split at h
      · exact ⟨_, _, _, _, rfl⟩
      · cases h
    have hm : ch.inUse mint.key := hS.inUse _ (by simp)
    obtain ⟨hs, idx, hidx, hd⟩ := endRebalance_ended rfl h (hC hm)
    exact ⟨_, hm, .endRebalance rfl hs hidx hd⟩
  | setParams streaming issue redeem premium delay =>
    simp only [process] at h
    obtain ⟨_, _, mint, _, rfl⟩ : ∃ a b c rest, accounts = a :: b :: c :: rest := by
      unfold setParams at h
      split at h
      · exact ⟨_, _, _, _, rfl⟩
      · cases h
    have hm : ch.inUse mint.key := hS.inUse _ (by simp)
    obtain ⟨hs, hf, idx, hidx, hg, hw⟩ := setParams_ok rfl h
    exact ⟨_, hm, .setParams rfl hs hidx hf hg hw⟩
  | setAuthority role newAuthority =>
    simp only [process] at h
    obtain ⟨_, _, mint, _, rfl⟩ : ∃ a b c rest, accounts = a :: b :: c :: rest := by
      unfold setAuthority at h
      split at h
      · exact ⟨_, _, _, _, rfl⟩
      · cases h
    have hm : ch.inUse mint.key := hS.inUse _ (by simp)
    obtain ⟨hs, idx, hidx, hg, hw⟩ := setAuthority_ok rfl h
    exact ⟨_, hm, .setAuthority rfl hs hidx hg hw⟩
  | setPaused paused =>
    simp only [process] at h
    obtain ⟨_, _, mint, _, rfl⟩ : ∃ a b c rest, accounts = a :: b :: c :: rest := by
      unfold setPaused at h
      split at h
      · exact ⟨_, _, _, _, rfl⟩
      · cases h
    have hm : ch.inUse mint.key := hS.inUse _ (by simp)
    obtain ⟨hs, idx, hidx, hst, hb, hr, hw⟩ := setPaused_ok rfl h
    exact ⟨_, hm, .setPaused rfl hs hidx hst hb hr hw⟩

theorem Effect.concerns {accounts : List AccountInfo} {ix : FlockInstruction}
    (h : Effect ch m w w' accounts ix) : Concerns m accounts ix := by
  cases h with
  | initIndex key | addComponent key | sealIndex key | issue key | redeem key | accrueFees key
  | proposeRebalance key | bid key | endRebalance key | setParams key | setAuthority key
  | setPaused key => exact congrArg some key

/-- Every effect is one leg. -/
theorem Effect.leg {accounts : List AccountInfo} {ix : FlockInstruction}
    (h : Effect ch m w w' accounts ix) : ∃ dS dA, Leg ch m w w' dS dA := by
  cases h with
  | initIndex key done => exact ⟨_, _, done.leg⟩
  | addComponent key signed before mint done => exact ⟨_, _, done.leg⟩
  | sealIndex key signed before done => exact ⟨_, _, done.world ▸ Leg.of_setIndex before _⟩
  | issue key before done =>
    obtain ⟨dA, hl⟩ := done.leg
    exact ⟨_, _, done.accrual.leg.trans hl⟩
  | redeem key signed before done =>
    obtain ⟨dA, hl⟩ := done.leg
    exact ⟨_, _, done.accrual.leg.trans hl⟩
  | accrueFees key before done => exact ⟨_, _, done.leg⟩
  | proposeRebalance key signed before done => exact ⟨_, _, done.world ▸ Leg.of_setIndex before _⟩
  | bid key before done =>
    obtain ⟨dA, hl⟩ := done.leg
    exact ⟨_, _, hl⟩
  | endRebalance key signed before done => exact ⟨_, _, done.world ▸ Leg.of_setIndex before _⟩
  | setParams key signed before fees governor_eq world =>
    exact ⟨_, _, world ▸ Leg.of_setIndex before _⟩
  | setAuthority key signed before governor_eq world =>
    exact ⟨_, _, world ▸ Leg.of_setIndex before _⟩
  | setPaused key signed before hsealed brake release world =>
    exact ⟨_, _, world ▸ Leg.of_setIndex before _⟩

end Flock
