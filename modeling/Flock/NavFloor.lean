import Flock.NavLoss
import Flock.Refusals

/-!
# Which bids the NAV floor refuses

The floor is a dollar amount, and a bid is held to it after its transfers.
`bidMoves` is the handler up to those transfers and `bidSettle` what is left of
it: `bid_eq` puts them back together. Below the transfers the only thing that
refuses a bid with `NavFloorBreached` is a fund that ends below the floor, so a
bid that does not lower the NAV is spared whenever the fund was not below the
floor already. Redemptions can bring it there.
-/

namespace Flock

open Outcome MachineInt

variable {ch : Chain} {m : Pubkey} {w w₁ w₂ w' : World} {idx : Index}

/-! ## The two halves of a bid -/

/-- `bid` up to and with its two transfers: the supply it read, and the world the
transfers left. -/
def bidMoves (ch : Chain) (w : World) (accounts : List AccountInfo)
    (sellComponent buyComponent : UInt8) (sellAmount maxBuyAmount : UInt64) :
    Except ProgramError (UInt64 × World) :=
  match accounts with
  | bidder :: indexInfo :: indexMintInfo :: bidderReceive :: bidderPay :: tokenProgram ::
      vaults => do
    requireSigner bidder
    requireTokenProgram ch tokenProgram
    let _ ← checkIndexPda ch indexInfo indexMintInfo.key
    failIf (sellComponent = buyComponent) FlockError.sameComponent
    failIf (sellAmount = 0) FlockError.zeroAmount
    let idx ← indexRef w indexInfo
    idx.isLive
    failIf (idx.rebalance.active = 0) FlockError.noRebalance
    let premium ← premiumAt idx.rebalance.startPremiumBps idx.rebalance.endPremiumBps
      idx.rebalance.startTs idx.rebalance.endTs w.clock
    failIf (premium.toInt > idx.maxPremiumBps.toNat) FlockError.invalidPremium
    let sell ← idx.component sellComponent.toNat
    let buy ← idx.component buyComponent.toNat
    let balances ← verifyVaults ch w indexInfo indexMintInfo.key vaults
    let supply := (← readMint w indexMintInfo).supply
    failIf (supply = 0) FlockError.supplyTooSmall
    let _ ← requireTokenAccountOfMint w bidderReceive sell.mint
    let _ ← requireTokenAccountOfMint w bidderPay buy.mint
    let sellBalance ← nth balances sellComponent.toNat
    let buyBalance ← nth balances buyComponent.toNat
    let buyAmount ← bidSizing sell buy idx.maxPremiumBps premium supply sellBalance buyBalance
      sellAmount maxBuyAmount
    let buyVault ← nth vaults buyComponent.toNat
    let sellVault ← nth vaults sellComponent.toNat
    let w ← transferFromUser ch w bidderPay buyVault bidder buyAmount
    let w ← transferFromVault ch w sellVault bidderReceive indexInfo sellAmount
    pure (supply, w)
  | _ => .error .notEnoughAccountKeys

/-- The rest of `bid`: value the fund, hold it to the floor, refresh the units. -/
def bidSettle (ch : Chain) (accounts : List AccountInfo) (supply : UInt64) (w : World) :
    Except ProgramError World :=
  match accounts with
  | _ :: indexInfo :: indexMintInfo :: _ :: _ :: _ :: vaults => do
    let balances ← verifyVaults ch w indexInfo indexMintInfo.key vaults
    let nav ← navE6 w indexInfo balances
    let idx ← indexRef w indexInfo
    failIf (nav < idx.rebalance.navFloorE6) FlockError.navFloorBreached
    syncUnits w indexInfo balances supply
  | _ => .error .notEnoughAccountKeys

theorem bid_eq (accounts : List AccountInfo) (s b : UInt8) (sellAmount maxBuyAmount : UInt64) :
    bid ch w accounts s b sellAmount maxBuyAmount =
      bidMoves ch w accounts s b sellAmount maxBuyAmount >>= fun r =>
        bidSettle ch accounts r.1 r.2 := by
  match accounts with
  | bidder :: indexInfo :: indexMintInfo :: bidderReceive :: bidderPay :: tokenProgram :: vaults =>
    simp only [bid, bidMoves, bind_assoc, pure_bind]
    rfl
  | [] | [_] | [_, _] | [_, _, _] | [_, _, _, _] | [_, _, _, _, _] => rfl

/-- What the first half leaves: the record, the mint and the vaults where they
were, for the second half to read. -/
theorem bidMoves_ok {bidder indexInfo indexMintInfo bidderReceive bidderPay tokenProgram : AccountInfo}
    {vaults : List AccountInfo} {s b : UInt8} {sellAmount maxBuyAmount supply : UInt64}
    (hm : indexMintInfo.key = m)
    (h : bidMoves ch w (bidder :: indexInfo :: indexMintInfo :: bidderReceive :: bidderPay ::
      tokenProgram :: vaults) s b sellAmount maxBuyAmount = .ok (supply, w'))
    (hu : bidder.isSigner = true → ch.Outsider bidder.key)
    (hC : ∀ {idx}, w.index? (ch.indexKey m) = some idx → Custody ch m w idx) :
    indexInfo.key = ch.indexKey m ∧ ∃ idx, w.index? (ch.indexKey m) = some idx ∧
      w'.index? (ch.indexKey m) = some idx ∧ vaults.map AccountInfo.key = idx.vaultKeys ch m ∧
      Custody ch m w' idx := by
  subst hm
  simp only [bidMoves, bind_ok_iff, failIf_ok_iff, indexRef_ok_iff, requireSigner,
    Bool.not_eq_false, pure_ok_iff, Prod.mk.injEq] at h
  obtain ⟨-, hsig, -, -, bump, hpda, -, -, -, -, idx, ⟨hidx, -⟩, h⟩ := h
  obtain ⟨-, -, -, -, premium, -, -, -, sell, -, buy, -, bs, hver, mi, -, -, -, h⟩ := h
  obtain ⟨tr, -, tp, -, sellBal, -, buyBal, -, buyAmount, -, bv, -, sv, -, h⟩ := h
  obtain ⟨w₁, hpay, w₂, htake, -, rfl⟩ := h
  have hi := checkIndexPda_ok hpda
  rw [hi] at hidx
  have hCw := hC hidx
  obtain ⟨hvk, -⟩ := (verifyVaults_ok_iff hCw hi hidx).mp hver
  obtain ⟨hL₁, hR₁, -, -⟩ := transferFromUser_leg (m := indexMintInfo.key) hpay (hu hsig)
  obtain ⟨hL₂, hR₂, -⟩ := transferFromVault_leg htake hCw.inUse hi
  refine ⟨hi, idx, hidx, ?_, hvk, hCw.of_flow (hL₁.trans hL₂).flow⟩
  rw [hR₂, hR₁, hidx]

/-! ## The second half -/

section Settle

variable {bidder indexInfo indexMintInfo bidderReceive bidderPay tokenProgram : AccountInfo}
  {vaults : List AccountInfo} {supply : UInt64} (hi : indexInfo.key = ch.indexKey m)
  (hm : indexMintInfo.key = m) (hidx : w.index? (ch.indexKey m) = some idx)
  (hC : Custody ch m w idx)
include hi hm hidx hC

/-- A fund at its floor is refused for a number that does not fit, if at all. -/
theorem bidSettle_only (hvk : vaults.map AccountInfo.key = idx.vaultKeys ch m)
    (hfloor : idx.rebalance.navFloorE6.toNat ≤ w.nav ch m idx) :
    Only (Custom (· = .mathOverflow))
      (bidSettle ch (bidder :: indexInfo :: indexMintInfo :: bidderReceive :: bidderPay ::
        tokenProgram :: vaults) supply w) := by
  have hver := (verifyVaults_ok_iff hC hi hidx).mpr ⟨hvk, rfl⟩
  subst hm
  unfold bidSettle
  refine pass_only hver ?_
  refine bind_only (navE6_only (E := (· = .mathOverflow)) rfl hi hidx hC _) fun nav hnav => ?_
  refine pass_only (indexRef_of_custody hi hidx hC.header) ?_
  refine bind_only (failIf_only fun hlow => ?_) fun _ _ =>
    syncUnits_only (E := (· = .mathOverflow)) rfl hi hidx hC _ _
  -- the value compared with the floor is the NAV
  have hnav' := navE6_ok hnav hi hidx rfl
  have hlt := UInt64.lt_iff_toNat_lt.mp hlow
  omega

/-- So the floor does not refuse it. -/
theorem bidSettle_avoids (hvk : vaults.map AccountInfo.key = idx.vaultKeys ch m)
    (hfloor : idx.rebalance.navFloorE6.toNat ≤ w.nav ch m idx) :
    Avoids (FlockError.navFloorBreached : ProgramError)
      (bidSettle ch (bidder :: indexInfo :: indexMintInfo :: bidderReceive :: bidderPay ::
        tokenProgram :: vaults) supply w) := by
  apply (bidSettle_only hi hm hidx hC hvk hfloor).avoids
  intro h
  obtain ⟨f, hf, rfl⟩ := h
  cases hf

/-- And no other fund is let through. -/
theorem bidSettle_floor
    (h : bidSettle ch (bidder :: indexInfo :: indexMintInfo :: bidderReceive :: bidderPay ::
      tokenProgram :: vaults) supply w = .ok w') :
    idx.rebalance.navFloorE6.toNat ≤ w.nav ch m idx := by
  subst hm
  simp only [bidSettle, bind_ok_iff, failIf_ok_iff, indexRef_ok_iff, UInt64.not_lt] at h
  obtain ⟨bs, hver, nav, hnav, idx', ⟨hrec, -⟩, -, hfloor, -⟩ := h
  obtain ⟨-, rfl⟩ := (verifyVaults_ok_iff hC hi hidx).mp hver
  rw [hi] at hrec
  obtain rfl := Option.some.inj (hidx.symm.trans hrec)
  rw [← navE6_ok hnav hi hidx rfl]
  exact UInt64.le_iff_toNat_le.mp hfloor

end Settle

/-- From any reachable world, a proposal, any run of entries, exits, accruals and
fills, and then a bid that gets as far as its transfers. If the fund is at the
floor of the proposal or above, the floor does not refuse the bid unless the bid
lowers the NAV; and where a bid is filled the fund ends at the floor or above. -/
theorem floor_spares_bids (h : Reachable ch w) {k : Pubkey} (hidx : w.index? k = some idx)
    {accounts : List AccountInfo} (signable : Signable ch accounts)
    {targets prices : List UInt64} {duration : UInt32} {startPremium endPremium : Int16}
    {maxNavLoss : UInt16}
    (hpropose : process ch w accounts
      (.proposeRebalance targets prices duration startPremium endPremium maxNavLoss) = .ok w₁)
    (hcon : Concerns idx.indexMint accounts
      (.proposeRebalance targets prices duration startPremium endPremium maxNavLoss))
    {fills : List (Nat × Nat)} (hrun : AuctionRun ch idx.indexMint w₁ fills w')
    {bidAccounts : List AccountInfo} (hbidder : Signable ch bidAccounts) {s b : UInt8}
    {sellAmount maxBuyAmount supply : UInt64}
    (hbid : Concerns idx.indexMint bidAccounts (.bid s b sellAmount maxBuyAmount))
    (hmoves : bidMoves ch w' bidAccounts s b sellAmount maxBuyAmount = .ok (supply, w₂)) :
    (navAt ch idx.indexMint w₁ * (10000 - maxNavLoss.toNat) / 10000 ≤ navAt ch idx.indexMint w' →
      navAt ch idx.indexMint w' ≤ navAt ch idx.indexMint w₂ →
      process ch w' bidAccounts (.bid s b sellAmount maxBuyAmount)
        ≠ .error FlockError.navFloorBreached) ∧
    (Succeeds (process ch w' bidAccounts (.bid s b sellAmount maxBuyAmount)) →
      navAt ch idx.indexMint w₁ * (10000 - maxNavLoss.toNat) / 10000
        ≤ navAt ch idx.indexMint w₂) := by
  have hW : AllWf ch w := (reachable_wf h).1
  obtain ⟨rfl, hwf⟩ := hW hidx
  have huse := hwf.custody.inUse
  obtain ⟨idx₁, hidx₁, hfloor⟩ := propose_floor hW huse hidx signable hpropose hcon
  have hW₁ : AllWf ch w₁ := (Step.call signable hpropose).allWf hW
  -- the floor in force is the one of the proposal
  obtain ⟨hW', ⟨idx', hidx', hreb⟩, -⟩ := hrun.floor hW₁ huse hidx₁
  rw [← hfloor, ← hreb]
  obtain ⟨bidder, indexInfo, indexMintInfo, recv, pay, tokenProgram, vaults, rfl⟩ :
      ∃ b i m r p t vs, bidAccounts = b :: i :: m :: r :: p :: t :: vs := by
    unfold bidMoves at hmoves
    split at hmoves
    · exact ⟨_, _, _, _, _, _, _, rfl⟩
    · cases hmoves
  have hm : indexMintInfo.key = idx.indexMint := Option.some.inj hbid
  obtain ⟨hi, idx₂, hrec, hidx₂, hvk, hC⟩ := bidMoves_ok hm hmoves
    (hbidder.outsider bidder (List.mem_cons_self ..)) fun hi => (hW'.wf huse hi).custody
  obtain rfl := Option.some.inj (hidx'.symm.trans hrec)
  have hprocess : process ch w' (bidder :: indexInfo :: indexMintInfo :: recv :: pay ::
      tokenProgram :: vaults) (.bid s b sellAmount maxBuyAmount) =
      bidSettle ch (bidder :: indexInfo :: indexMintInfo :: recv :: pay :: tokenProgram :: vaults)
        supply w₂ := by
    rw [process, bid_eq, hmoves, ok_bind]
  rw [hprocess, navAt_of_index? hidx₂]
  constructor
  · intro hbefore hkept
    exact bidSettle_avoids hi hm hidx₂ hC hvk (hbefore.trans hkept)
  · intro hdone
    obtain ⟨w'', hdone⟩ := hdone
    exact bidSettle_floor hi hm hidx₂ hC hdone

/-- A bid at a markup of one percent, as far as its transfers, after the local
proposal and some passages. -/
def oneBid (acts : List Act) (p : World → World → World → Except ProgramError World → Bool)
    (w : World) (idx : Index) : Bool :=
  decide (idx.indexMint = addr 1) &&
    endsIn (process localnet w proposeAccounts (proposal (-100) 0)) fun w₁ =>
      endsIn (perform passageAct w₁ acts) fun w₂ =>
        endsIn (bidMoves localnet w₂ bidAccounts 1 0 2000000 10000000000) fun r =>
          p w₁ w₂ r.2 (process localnet w₂ bidAccounts (.bid 1 0 2000000 10000000000))

theorem oneBid_iff {acts : List Act}
    {p : World → World → World → Except ProgramError World → Bool} :
    oneBid acts p w idx = true ↔ idx.indexMint = addr 1 ∧
      ∃ w₁ w₂ supply w₃, process localnet w proposeAccounts (proposal (-100) 0) = .ok w₁ ∧
        perform passageAct w₁ acts = .ok w₂ ∧
        bidMoves localnet w₂ bidAccounts 1 0 2000000 10000000000 = .ok (supply, w₃) ∧
        p w₁ w₂ w₃ (process localnet w₂ bidAccounts (.bid 1 0 2000000 10000000000)) = true := by
  unfold oneBid
  rw [Bool.and_eq_true, decide_eq_true_eq]
  simp [endsIn_iff]

/-- An entry and an exit of the same size leave the fund at the floor, and a bid at
a markup goes through. -/
theorem floor_spares_bids_local : ∃ (w w₁ w' w₂ : World) (idx : Index),
    Reachable localnet w ∧ w.index? localIndex = some idx ∧
    AuctionRun localnet idx.indexMint w₁ [] w' ∧
    navAt localnet idx.indexMint w' < navAt localnet idx.indexMint w₂ ∧
    process localnet w' bidAccounts (.bid 1 0 2000000 10000000000)
      ≠ .error FlockError.navFloorBreached := by
  obtain ⟨w, idx, hreach, hidx, hp⟩ := exists_of_run
    (openFund ⟨0, 0, 0, 100⟩ 2000000 333333333 ++ [localIssue 5000000000])
    (oneBid [localIssue 1000000000, localRedeem 1000000000, .tick 300] fun w₁ w₂ w₃ _ =>
      decide (navAt localnet (addr 1) w₁ * (10000 - (0 : UInt16).toNat) / 10000
        ≤ navAt localnet (addr 1) w₂) &&
      decide (navAt localnet (addr 1) w₂ < navAt localnet (addr 1) w₃))
    (by decide +kernel)
  obtain ⟨hm, w₁, w₂, supply, w₃, hpropose, hacts, hmoves, hp⟩ := oneBid_iff.mp hp
  simp only [Bool.and_eq_true, decide_eq_true_eq] at hp
  obtain ⟨hfloor, hrise⟩ := hp
  have hrun := AuctionRun.start.passages (perform_run passageAct_passage hacts)
  rw [← hm] at hfloor hrise hrun
  have hcon : Concerns idx.indexMint proposeAccounts (proposal (-100) 0) := congrArg some hm.symm
  have hbid : Concerns idx.indexMint bidAccounts (.bid 1 0 2000000 10000000000) :=
    congrArg some hm.symm
  obtain ⟨hspared, -⟩ := floor_spares_bids hreach hidx propose_signable hpropose hcon hrun
    bid_signable hbid hmoves
  exact ⟨w, w₁, w₂, w₃, idx, hreach, hidx, hrun, hrise, hspared hfloor hrise.le⟩

/-- Four of the five tokens are redeemed during the auction. From then on a bid
that pays the fund one percent more than it takes is refused. -/
theorem redemption_stops_auction : ∃ (w w₁ w' w₂ : World) (idx : Index) (supply : UInt64),
    Reachable localnet w ∧ w.index? localIndex = some idx ∧ Signable localnet proposeAccounts ∧
    process localnet w proposeAccounts (proposal (-100) 0) = .ok w₁ ∧
    AuctionRun localnet idx.indexMint w₁ [] w' ∧ Signable localnet bidAccounts ∧
    bidMoves localnet w' bidAccounts 1 0 2000000 10000000000 = .ok (supply, w₂) ∧
    navAt localnet idx.indexMint w' < navAt localnet idx.indexMint w₂ ∧
    process localnet w' bidAccounts (.bid 1 0 2000000 10000000000)
      = .error FlockError.navFloorBreached := by
  obtain ⟨w, idx, hreach, hidx, hp⟩ := exists_of_run
    (openFund ⟨0, 0, 0, 100⟩ 2000000 333333333 ++ [localIssue 5000000000])
    (oneBid [localRedeem 4000000000, .tick 300] fun _ w₂ w₃ r =>
      decide (navAt localnet (addr 1) w₂ < navAt localnet (addr 1) w₃) && match r with
        | .error e => decide (e = FlockError.navFloorBreached)
        | .ok _ => false)
    (by decide +kernel)
  obtain ⟨hm, w₁, w₂, supply, w₃, hpropose, hacts, hmoves, hp⟩ := oneBid_iff.mp hp
  rw [Bool.and_eq_true, decide_eq_true_eq] at hp
  obtain ⟨hrise, hp⟩ := hp
  have hrun := AuctionRun.start.passages (perform_run passageAct_passage hacts)
  rw [← hm] at hrise hrun
  refine ⟨w, w₁, w₂, w₃, idx, supply, hreach, hidx, propose_signable, hpropose, hrun, bid_signable,
    hmoves, hrise, ?_⟩
  split at hp
  next e he => rw [he, of_decide_eq_true hp]
  next => cases hp

end Flock
