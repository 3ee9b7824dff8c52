import Flock.Vaults

/-!
# An accrual in front of somebody's trade

Anybody may send `AccrueFees`, so anybody may get it in before a trade of
somebody else. `issue` and `redeem` begin with the same two steps, `accrue` and
`resync`, which are `collect` here; taken twice at one clock reading they are as
good as taken once, because no time has passed for a second fee and the vaults
stand where they stood. What the handlers check before `collect` it does not
change.

Nothing is asked of the world here: the argument is about the handlers alone.
-/

namespace Flock

open Outcome MachineInt

variable {ch : Chain} {w w₁ w' : World} {idx : Index}
  {indexInfo indexMintInfo feeAta : AccountInfo} {vaults : List AccountInfo}

/-- The first two steps of a trade, and all of `AccrueFees`. -/
def collect (ch : Chain) (indexInfo indexMintInfo feeAta : AccountInfo)
    (vaults : List AccountInfo) (w : World) : Except ProgramError World := do
  let (_, w) ← accrue ch w indexInfo indexMintInfo feeAta w.clock
  resync ch w indexInfo indexMintInfo vaults

/-! ## The reads of a sync -/

/-- The walk over the vaults reads the mints of the table and the token accounts. -/
theorem verifyEach_congr (ht : w'.token? = w.token?) {k m : Pubkey} {cs cs' : List Component}
    (hcs : cs'.map Component.mint = cs.map Component.mint) (vs : List AccountInfo) :
    verifyEach ch w' k m cs' vs = verifyEach ch w k m cs vs := by
  induction cs generalizing cs' vs with
  | nil =>
    obtain rfl := List.map_eq_nil_iff.mp hcs
    rfl
  | cons c cs ih =>
    obtain ⟨c', cs', rfl, hc, hcs⟩ := List.map_eq_cons_iff.mp hcs
    cases vs with
    | nil => rfl
    | cons v vs =>
      simp only [verifyEach, requireTokenAccount, readTokenAccount, ht, hc, ih hcs]

/-- The check of the vaults sees token accounts and the mints of the table. -/
theorem verifyVaults_congr (ht : w'.token? = w.token?) {idx' : Index}
    (hidx : indexRef w indexInfo = .ok idx) (hidx' : indexRef w' indexInfo = .ok idx')
    (hcs : idx'.components.map Component.mint = idx.components.map Component.mint) (m : Pubkey) :
    verifyVaults ch w' indexInfo m vaults = verifyVaults ch w indexInfo m vaults := by
  have hlen : idx'.components.length = idx.components.length := by
    simpa using congrArg List.length hcs
  unfold verifyVaults
  rw [hidx, hidx', ok_bind, ok_bind, hlen, verifyEach_congr ht hcs]

/-- A sync writes units only. -/
theorem syncEach_mints {s : UInt64} {cs cs' : List Component} {bs : List UInt64}
    (h : syncEach s cs bs = .ok cs') : cs'.map Component.mint = cs.map Component.mint := by
  induction cs generalizing cs' bs with
  | nil =>
    obtain rfl := Except.ok.inj h
    rfl
  | cons c cs ih =>
    cases bs with
    | nil =>
      obtain rfl := Except.ok.inj h
      rfl
    | cons b bs =>
      simp only [syncEach, bind_ok_iff, pure_ok_iff] at h
      obtain ⟨u, -, cs'', hcs, rfl⟩ := h
      rw [List.map_cons, List.map_cons, ih hcs]

/-- The units a sync wrote are the units a second one would write. -/
theorem syncEach_again {s : UInt64} {cs cs' : List Component} {bs : List UInt64}
    (h : syncEach s cs bs = .ok cs') : syncEach s cs' bs = .ok cs' := by
  induction cs generalizing cs' bs with
  | nil =>
    obtain rfl := Except.ok.inj h
    exact h
  | cons c cs ih =>
    cases bs with
    | nil =>
      obtain rfl := Except.ok.inj h
      rfl
    | cons b bs =>
      simp only [syncEach, bind_ok_iff, pure_ok_iff] at h
      obtain ⟨u, hu, cs'', hcs, rfl⟩ := h
      simp only [syncEach, bind_ok_iff, pure_ok_iff]
      exact ⟨u, hu, cs'', ih hcs, rfl⟩

/-! ## What `collect` leaves -/

/-- Minting changes the mint of no account. -/
theorem mintTo_mints {m d a : Pubkey} {x : UInt64} (h : ch.token.mintTo w m d a x = .ok w')
    (j : Pubkey) : (w'.token? j).map TokenAccount.mint = (w.token? j).map TokenAccount.mint := by
  obtain ⟨mi, t, supply, n, hm, hd, rfl, -, -, -, rfl⟩ := ch.token.mintTo_ok h
  have ham := World.accounts_of_mint? hm
  rw [World.token?_set_token, World.token?_set_of_not (by simp) (by simp [ham])]
  split
  next hj => rw [hj, hd, Option.map_some, Option.map_some]
  next => rfl

/-- Between two worlds the record changed its units and its clock of the fee, no
token account changed its mint, and no time passed. -/
structure Bookkept (k : Pubkey) (w w' : World) : Prop where
  clock : w'.clock = w.clock
  mints : ∀ j, (w'.token? j).map TokenAccount.mint = (w.token? j).map TokenAccount.mint
  record : ∃ idx cs, w.index? k = some idx ∧
    cs.map Component.mint = idx.components.map Component.mint ∧
    w'.index? k = some { idx with components := cs, lastFeeAccrual := w.clock }

/-- An accrual moves the clock of the fee, and mints. -/
theorem accrue_bookkept {owed : UInt64}
    (h : accrue ch w indexInfo indexMintInfo feeAta w.clock = .ok (owed, w₁)) :
    ∃ idx mi, indexRef w indexInfo = .ok idx ∧
      w₁.index? indexInfo.key = some (idx.accrued w.clock) ∧ w₁.clock = w.clock ∧
      w₁.mint? indexMintInfo.key = some mi ∧
      ∀ j, (w₁.token? j).map TokenAccount.mint = (w.token? j).map TokenAccount.mint := by
  obtain ⟨idx, mi, hidx, hmi, -, h⟩ := accrue_ok h
  obtain ⟨hi, -⟩ := indexRef_ok_iff.mp hidx
  have ha := World.accounts_of_index? hi
  have htok : (w.setIndex indexInfo.key (idx.accrued w.clock)).token? = w.token? :=
    World.token?_set_of_not (by simp) (by simp [ha])
  have hmnt : (w.setIndex indexInfo.key (idx.accrued w.clock)).mint? = w.mint? :=
    World.mint?_set_of_not (by simp) (by simp [ha])
  rcases h with ⟨-, rfl⟩ | ⟨howed, -, hmint⟩
  · refine ⟨idx, mi, hidx, World.index?_setIndex_self _, rfl, (congrFun hmnt _).trans hmi, ?_⟩
    intro j
    exact congrArg _ (congrFun htok j)
  · rw [mintIndexTokens, if_neg howed] at hmint
    obtain ⟨hflow, hrec, -⟩ := mintTo_flow hmint
    obtain ⟨mi', hmi', -⟩ := hflow.mint?_of ((congrFun hmnt _).trans hmi)
    refine ⟨idx, mi', hidx, ?_, hflow.clock, hmi', ?_⟩
    · rw [hrec]
      exact World.index?_setIndex_self _
    · intro j
      exact (mintTo_mints hmint j).trans (congrArg _ (congrFun htok j))

/-- At the clock reading of the last accrual there is nothing to accrue. -/
theorem accrue_again {mi : Mint} (hidx : indexRef w indexInfo = .ok idx)
    (hmi : w.mint? indexMintInfo.key = some mi) (hnow : idx.lastFeeAccrual = w.clock) :
    accrue ch w indexInfo indexMintInfo feeAta w.clock = .ok (0, w) := by
  have hi := (indexRef_ok_iff.mp hidx).1
  have hfee : streamingFeeTokens mi.supply idx.streamingFeeBps
      (saturatingSub w.clock idx.lastFeeAccrual) = .ok 0 := by
    have hle : saturatingSub w.clock idx.lastFeeAccrual ≤ 0 := by
      rw [hnow, Int64.le_iff_toInt_le, saturatingSub_self, Int64.toInt_zero]
    rw [streamingFeeTokens, if_pos (.inr (.inr hle))]
  have hself : w.setIndex indexInfo.key { idx with lastFeeAccrual := w.clock } = w := by
    rw [← hnow]
    exact World.setIndex_self hi
  simp only [accrue, bind_ok_iff, readMint_ok_iff, lift_ok_iff]
  refine ⟨idx, hidx, mi, hmi, 0, hfee, ?_⟩
  rw [if_pos rfl, hself]
  rfl

/-- A sync leaves the world, or writes the units the vaults give. -/
theorem resync_ok {mi : Mint} (hidx : indexRef w indexInfo = .ok idx)
    (hmi : w.mint? indexMintInfo.key = some mi)
    (h : resync ch w indexInfo indexMintInfo vaults = .ok w') :
    ∃ cs bs, verifyVaults ch w indexInfo indexMintInfo.key vaults = .ok bs ∧
      cs.map Component.mint = idx.components.map Component.mint ∧
      (mi.supply ≠ 0 → syncEach mi.supply cs bs = .ok cs) ∧
      w' = w.setIndex indexInfo.key { idx with components := cs } := by
  have hi := (indexRef_ok_iff.mp hidx).1
  simp only [resync, bind_ok_iff, readMint_ok_iff, hmi, Option.some.injEq] at h
  obtain ⟨bs, hver, _, rfl, h⟩ := h
  unfold syncUnits at h
  split at h
  next h0 =>
    obtain rfl := Except.ok.inj h
    exact ⟨idx.components, bs, hver, rfl, fun hne => absurd h0 hne, (World.setIndex_self hi).symm⟩
  next h0 =>
    rw [hidx, ok_bind] at h
    simp only [bind_ok_iff, lift_ok_iff, pure_ok_iff] at h
    obtain ⟨cs, hcs, rfl⟩ := h
    exact ⟨cs, bs, hver, syncEach_mints hcs, fun _ => syncEach_again hcs, rfl⟩

/-- A second sync of the same vaults changes nothing. -/
theorem resync_again {mi : Mint} (hidx : indexRef w indexInfo = .ok idx)
    (hmi : w.mint? indexMintInfo.key = some mi)
    (h : resync ch w indexInfo indexMintInfo vaults = .ok w') :
    resync ch w' indexInfo indexMintInfo vaults = .ok w' := by
  obtain ⟨hi, hhead⟩ := indexRef_ok_iff.mp hidx
  obtain ⟨cs, bs, hver, hcs, hsync, rfl⟩ := resync_ok hidx hmi h
  have ha := World.accounts_of_index? hi
  have hself : (w.setIndex indexInfo.key { idx with components := cs }).index? indexInfo.key
      = some { idx with components := cs } := World.index?_setIndex_self _
  have hidx' : indexRef (w.setIndex indexInfo.key { idx with components := cs }) indexInfo
      = .ok { idx with components := cs } := indexRef_ok_iff.mpr ⟨hself, hhead⟩
  have hver' : verifyVaults ch (w.setIndex indexInfo.key { idx with components := cs }) indexInfo
      indexMintInfo.key vaults = .ok bs :=
    (verifyVaults_congr (World.token?_set_of_not (by simp) (by simp [ha])) hidx hidx' hcs _).trans
      hver
  have hmi' : (w.setIndex indexInfo.key { idx with components := cs }).mint? indexMintInfo.key
      = some mi := (congrFun (World.mint?_set_of_not (by simp) (by simp [ha])) _).trans hmi
  unfold resync
  rw [hver', ok_bind, readMint_ok_iff.mpr hmi', ok_bind, syncUnits]
  split
  next => rfl
  next h0 =>
    rw [hidx', ok_bind, hsync h0]
    exact congrArg Except.ok (World.setIndex_setIndex ..)

/-- A sync touches no mint. -/
theorem resync_mint? (h : resync ch w indexInfo indexMintInfo vaults = .ok w')
    (hidx : indexRef w indexInfo = .ok idx) : w'.mint? = w.mint? := by
  have ha := World.accounts_of_index? (indexRef_ok_iff.mp hidx).1
  have hmint := h
  simp only [resync, bind_ok_iff, readMint_ok_iff] at hmint
  obtain ⟨-, -, mi, hmi, -⟩ := hmint
  obtain ⟨cs, -, -, -, -, rfl⟩ := resync_ok hidx hmi h
  exact World.mint?_set_of_not (by simp) (by simp [ha])

/-- After the accrual the sync changes no mint. -/
theorem accrue_resync_mint? {owed : UInt64}
    (hacc : accrue ch w indexInfo indexMintInfo feeAta w.clock = .ok (owed, w₁))
    (hsync : resync ch w₁ indexInfo indexMintInfo vaults = .ok w') : w'.mint? = w₁.mint? := by
  obtain ⟨idx, -, hidx, hrec, -⟩ := accrue_bookkept hacc
  exact resync_mint? hsync (indexRef_ok_iff.mpr ⟨hrec, (indexRef_ok_iff.mp hidx).2⟩)

/-- The accrual, then the sync. -/
theorem collect_ok_iff : collect ch indexInfo indexMintInfo feeAta vaults w = .ok w' ↔
    ∃ owed w₁, accrue ch w indexInfo indexMintInfo feeAta w.clock = .ok (owed, w₁) ∧
      resync ch w₁ indexInfo indexMintInfo vaults = .ok w' := by
  simp only [collect, bind_ok_iff, Prod.exists]

/-- Collecting touches the record and the fee, and no table of mints. -/
theorem collect_bookkept (h : collect ch indexInfo indexMintInfo feeAta vaults w = .ok w') :
    Bookkept indexInfo.key w w' := by
  obtain ⟨owed, w₁, hacc, hsync⟩ := collect_ok_iff.mp h
  obtain ⟨idx, mi, hidx, hrec, hclock, hmi, hmints⟩ := accrue_bookkept hacc
  obtain ⟨hi, hhead⟩ := indexRef_ok_iff.mp hidx
  have ha := World.accounts_of_index? hrec
  obtain ⟨cs, -, -, hcs, -, rfl⟩ := resync_ok (indexRef_ok_iff.mpr ⟨hrec, hhead⟩) hmi hsync
  refine ⟨hclock, ?_, idx, cs, hi, hcs, World.index?_setIndex_self _⟩
  intro j
  rw [← hmints j]
  exact congrArg _ (congrFun (World.token?_set_of_not (by simp) (by simp [ha])) j)

/-- The record is found again, with new units and a new fee clock. -/
theorem Bookkept.indexRef (h : Bookkept indexInfo.key w w')
    (hidx : indexRef w indexInfo = .ok idx) : ∃ cs, Flock.indexRef w' indexInfo =
      .ok { idx with components := cs, lastFeeAccrual := w.clock } := by
  obtain ⟨hi, hhead⟩ := indexRef_ok_iff.mp hidx
  obtain ⟨idx', cs, hi', -, hrec⟩ := h.record
  obtain rfl := Option.some.inj (hi.symm.trans hi')
  exact ⟨cs, indexRef_ok_iff.mpr ⟨hrec, hhead⟩⟩

/-- Collecting a second time at one clock reading does nothing. -/
theorem collect_again (h : collect ch indexInfo indexMintInfo feeAta vaults w = .ok w') :
    collect ch indexInfo indexMintInfo feeAta vaults w' = .ok w' := by
  obtain ⟨owed, w₁, hacc, hsync⟩ := collect_ok_iff.mp h
  obtain ⟨idx, mi, hidx, hrec, hclock, hmi, -⟩ := accrue_bookkept hacc
  have hidx₁ := indexRef_ok_iff.mpr ⟨hrec, (indexRef_ok_iff.mp hidx).2⟩
  have hmi' := (congrFun (resync_mint? hsync hidx₁) _).trans hmi
  have hagain := resync_again hidx₁ hmi hsync
  obtain ⟨cs, -, -, -, -, rfl⟩ := resync_ok hidx₁ hmi hsync
  have hidx' := indexRef_ok_iff.mpr
    ⟨World.index?_setIndex_self (w := w₁) (k := indexInfo.key)
      { idx.accrued w.clock with components := cs }, (indexRef_ok_iff.mp hidx).2⟩
  exact collect_ok_iff.mpr ⟨0, _, accrue_again hidx' hmi' hclock.symm, hagain⟩

/-! ## The checks in front of `collect` -/

/-- The record is one that `p` holds of. -/
def Shows (info : AccountInfo) (p : Index → Prop) (w : World) : Prop :=
  ∃ idx, indexRef w info = .ok idx ∧ p idx

/-- What a property of a record reads besides the units and the clock of the fee. -/
def Steady (p : Index → Prop) : Prop := ∀ (idx : Index) cs t,
  cs.map Component.mint = idx.components.map Component.mint →
    (p { idx with components := cs, lastFeeAccrual := t } ↔ p idx)

/-- What does not look at units and clock is shown before and after alike. -/
theorem Bookkept.shows_iff {p : Index → Prop} (h : Bookkept indexInfo.key w w') (hp : Steady p) :
    Shows indexInfo p w' ↔ Shows indexInfo p w := by
  obtain ⟨idx, cs, hi, hcs, hi'⟩ := h.record
  simp only [Shows, indexRef_ok_iff, hi, hi', Option.some.injEq]
  constructor
  · intro hs
    obtain ⟨_, ⟨rfl, hhead⟩, hs⟩ := hs
    exact ⟨idx, ⟨rfl, hhead⟩, (hp idx cs _ hcs).mp hs⟩
  · intro hs
    obtain ⟨_, ⟨rfl, hhead⟩, hs⟩ := hs
    exact ⟨_, ⟨rfl, hhead⟩, (hp idx cs _ hcs).mpr hs⟩

/-- An account of a mint. -/
def HoldsMint (w : World) (info : AccountInfo) (mint : Pubkey) : Prop :=
  Succeeds (requireTokenAccountOfMint w info mint)

/-- An account holds the same mint before and after. -/
theorem Bookkept.holdsMint_iff {k m : Pubkey} {info : AccountInfo} (h : Bookkept k w w') :
    HoldsMint w' info m ↔ HoldsMint w info m := by
  have hmap : ∀ w : World, HoldsMint w info m ↔
      (w.token? info.key).map TokenAccount.mint = some m := by
    intro w
    simp only [HoldsMint, Succeeds, requireTokenAccountOfMint_ok_iff, Option.map_eq_some_iff]
  rw [hmap, hmap, h.mints]

/-- Everything `issue` and `redeem` ask before they collect, `p` being what they
ask of the record. -/
def Opens (ch : Chain) (user indexInfo indexMintInfo userIndexAta tokenProgram : AccountInfo)
    (amount : UInt64) (p : Index → Prop) (w : World) : Prop :=
  requireSigner user = .ok () ∧ requireTokenProgram ch tokenProgram = .ok () ∧
    Succeeds (checkIndexPda ch indexInfo indexMintInfo.key) ∧ amount ≠ 0 ∧
    Shows indexInfo p w ∧ HoldsMint w userIndexAta indexMintInfo.key

/-! ## The handlers, cut behind `collect` -/

section Handlers

variable {user userIndexAta tokenProgram : AccountInfo} {rest : List AccountInfo}
  {amount : UInt64}

/-- What `issue` does once the fee is collected. -/
def issueSettle (ch : Chain) (user indexInfo indexMintInfo userIndexAta feeAta : AccountInfo)
    (rest : List AccountInfo) (amount : UInt64) (maxIn : List UInt64) (w : World) :
    Except ProgramError World := do
  let idx ← indexRef w indexInfo
  let feeTokens ← toU64 (← mulDivCeil amount.toNat idx.issueFeeBps.toNat bps)
  let gross ← checkedAdd amount feeTokens
  let w ← issueLoop ch user indexInfo gross w 0 maxIn (pairs rest)
  let w ← mintIndexTokens ch w indexMintInfo userIndexAta indexInfo amount
  let w ← mintFee ch w indexInfo indexMintInfo feeAta feeTokens
  resync ch w indexInfo indexMintInfo ((pairs rest).map Prod.fst)

/-- What `redeem` does once the fee is collected, the check of the supply first. -/
def redeemSettle (ch : Chain) (user indexInfo indexMintInfo userIndexAta feeAta : AccountInfo)
    (rest : List AccountInfo) (amount : UInt64) (minOut : List UInt64) (w : World) :
    Except ProgramError World := do
  let supply := (← readMint w indexMintInfo).supply
  failIf (supply < amount) FlockError.supplyTooSmall
  let idx ← indexRef w indexInfo
  let feeTokens ← toU64 (← mulDivCeil amount.toNat idx.redeemFeeBps.toNat bps)
  let net ← checkedSub amount feeTokens
  let w ← burnIndexTokens ch w indexMintInfo userIndexAta user amount
  let w ← mintFee ch w indexInfo indexMintInfo feeAta feeTokens
  let w ← redeemLoop ch indexInfo net w 0 minOut (pairs rest)
  resync ch w indexInfo indexMintInfo ((pairs rest).map Prod.fst)

/-- The lists a trade is given are as long as the table asks. -/
def Index.Fits (idx : Index) (amounts : List UInt64) (rest : List AccountInfo) : Prop :=
  amounts.length = idx.components.length ∧ rest.length = idx.components.length * 2

/-- State and arity do not look at units and clock. -/
theorem steady_fits (q : UInt8 → Prop) {amounts : List UInt64} :
    Steady fun idx => q idx.state ∧ idx.Fits amounts rest := by
  intro idx cs t hcs
  have hlen : cs.length = idx.components.length := by simpa using congrArg List.length hcs
  simp only [Index.Fits, hlen]

/-- `AccrueFees`: checks, then `collect`. -/
theorem accrueFees_ok_iff :
    accrueFees ch w (indexInfo :: indexMintInfo :: feeAta :: tokenProgram :: vaults) = .ok w' ↔
      (requireTokenProgram ch tokenProgram = .ok () ∧
        Succeeds (checkIndexPda ch indexInfo indexMintInfo.key) ∧
        Shows indexInfo (fun idx => idx.state ≠ stateBootstrapping) w) ∧
      collect ch indexInfo indexMintInfo feeAta vaults w = .ok w' := by
  simp only [accrueFees, bind_ok_iff, failIf_ok_iff, collect, Shows, Succeeds]
  constructor
  · intro h
    obtain ⟨_, htok, b, hpda, idx, hidx, _, hst, h⟩ := h
    exact ⟨⟨htok, ⟨b, hpda⟩, idx, hidx, hst⟩, h⟩
  · intro h
    obtain ⟨⟨htok, ⟨b, hpda⟩, idx, hidx, hst⟩, h⟩ := h
    exact ⟨(), htok, b, hpda, idx, hidx, (), hst, h⟩

/-- `Issue`: checks, `collect`, and what comes behind it. -/
theorem issue_ok_iff {maxIn : List UInt64} :
    issue ch w (user :: indexInfo :: indexMintInfo :: userIndexAta :: feeAta :: tokenProgram ::
      rest) amount maxIn = .ok w' ↔
      Opens ch user indexInfo indexMintInfo userIndexAta tokenProgram amount
        (fun idx => idx.state = stateLive ∧ idx.Fits maxIn rest) w ∧
      ∃ w₁, collect ch indexInfo indexMintInfo feeAta ((pairs rest).map Prod.fst) w = .ok w₁ ∧
        issueSettle ch user indexInfo indexMintInfo userIndexAta feeAta rest amount maxIn w₁
          = .ok w' := by
  simp only [issue, bind_ok_iff, failIf_ok_iff, Index.isLive_ok_iff, Opens, Shows, HoldsMint,
    Succeeds, Index.Fits, not_or, not_not]
  constructor
  · intro h
    obtain ⟨_, hsig, _, htok, b, hpda, _, hpos, idx, hidx, _, hlive, _, hlen, t, ht, ⟨owed, w₁⟩,
      hacc, w₂, hsync, h⟩ := h
    have hc := collect_ok_iff.mpr ⟨owed, w₁, hacc, hsync⟩
    refine ⟨⟨hsig, htok, ⟨b, hpda⟩, hpos, ⟨idx, hidx, hlive, hlen⟩, t, ht⟩, w₂, hc, ?_⟩
    obtain ⟨cs, hidx'⟩ := (collect_bookkept hc).indexRef hidx
    rw [issueSettle, hidx', ok_bind]
    simp only [bind_ok_iff]
    exact h
  · intro h
    obtain ⟨⟨hsig, htok, ⟨b, hpda⟩, hpos, ⟨idx, hidx, hlive, hlen⟩, t, ht⟩, w₂, hc, h⟩ := h
    obtain ⟨cs, hidx'⟩ := (collect_bookkept hc).indexRef hidx
    rw [issueSettle, hidx', ok_bind] at h
    simp only [bind_ok_iff] at h
    obtain ⟨owed, w₁, hacc, hsync⟩ := collect_ok_iff.mp hc
    exact ⟨(), hsig, (), htok, b, hpda, (), hpos, idx, hidx, (), hlive, (), hlen, t, ht,
      ⟨owed, w₁⟩, hacc, w₂, hsync, h⟩

/-- `Redeem`: checks, `collect`, and what comes behind it. -/
theorem redeem_ok_iff {minOut : List UInt64} :
    redeem ch w (user :: indexInfo :: indexMintInfo :: userIndexAta :: feeAta :: tokenProgram ::
      rest) amount minOut = .ok w' ↔
      Opens ch user indexInfo indexMintInfo userIndexAta tokenProgram amount
        (fun idx => idx.state ≠ stateBootstrapping ∧ idx.Fits minOut rest) w ∧
      ∃ w₁, collect ch indexInfo indexMintInfo feeAta ((pairs rest).map Prod.fst) w = .ok w₁ ∧
        redeemSettle ch user indexInfo indexMintInfo userIndexAta feeAta rest amount minOut w₁
          = .ok w' := by
  simp only [redeem, bind_ok_iff, failIf_ok_iff, Opens, Shows, HoldsMint, Succeeds, Index.Fits,
    not_or, not_not]
  -- `redeem` looks at the supply between the two halves of the sync, which leaves it alone
  constructor
  · intro h
    obtain ⟨_, hsig, _, htok, b, hpda, _, hpos, idx, hidx, _, hst, _, hlen, t, ht, ⟨owed, w₁⟩,
      hacc, bs, hver, mi, hmi, _, hle, w₂, hsync, h⟩ := h
    have hres : resync ch w₁ indexInfo indexMintInfo ((pairs rest).map Prod.fst) = .ok w₂ := by
      simp only [resync, bind_ok_iff]
      exact ⟨bs, hver, mi, hmi, hsync⟩
    have hc := collect_ok_iff.mpr ⟨owed, w₁, hacc, hres⟩
    refine ⟨⟨hsig, htok, ⟨b, hpda⟩, hpos, ⟨idx, hidx, hst, hlen⟩, t, ht⟩, w₂, hc, ?_⟩
    obtain ⟨cs, hidx'⟩ := (collect_bookkept hc).indexRef hidx
    have hmi' : readMint w₂ indexMintInfo = .ok mi := by
      rw [readMint, accrue_resync_mint? hacc hres]
      exact hmi
    rw [redeemSettle, hmi', ok_bind]
    refine bind_ok_iff.mpr ⟨(), failIf_of_not _ hle, ?_⟩
    rw [hidx', ok_bind]
    simp only [bind_ok_iff]
    exact h
  · intro h
    obtain ⟨⟨hsig, htok, ⟨b, hpda⟩, hpos, ⟨idx, hidx, hst, hlen⟩, t, ht⟩, w₂, hc, h⟩ := h
    obtain ⟨cs, hidx'⟩ := (collect_bookkept hc).indexRef hidx
    obtain ⟨owed, w₁, hacc, hres⟩ := collect_ok_iff.mp hc
    have hmint := accrue_resync_mint? hacc hres
    simp only [resync, bind_ok_iff] at hres
    obtain ⟨bs, hver, mi, hmi, hsync⟩ := hres
    have hmi' : readMint w₂ indexMintInfo = .ok mi := by
      rw [readMint, hmint]
      exact hmi
    rw [redeemSettle, hmi', ok_bind] at h
    obtain ⟨_, hle, h⟩ := bind_ok_iff.mp h
    rw [hidx', ok_bind] at h
    simp only [bind_ok_iff] at h
    exact ⟨(), hsig, (), htok, b, hpda, (), hpos, idx, hidx, (), hst, (), hlen, t, ht,
      ⟨owed, w₁⟩, hacc, bs, hver, mi, hmi, (), failIf_ok_iff.mp hle, w₂, hsync, h⟩

end Handlers

/-! ## The accrual in front -/

/-- The accounts of a trade that `AccrueFees` takes: the same fee account, the
same vaults. -/
def accrualAccounts : List AccountInfo → List AccountInfo
  | _ :: indexInfo :: indexMintInfo :: _ :: feeAta :: tokenProgram :: rest =>
    indexInfo :: indexMintInfo :: feeAta :: tokenProgram :: (pairs rest).map Prod.fst
  | _ => []

/-- Whatever opens a trade opens an accrual. -/
theorem trade_absorbs {X : World → Except ProgramError World}
    {settle : World → Except ProgramError World} {p : Index → Prop} {amount : UInt64}
    {user userIndexAta tokenProgram : AccountInfo} {rest : List AccountInfo} (hp : Steady p)
    (hsealed : ∀ idx, p idx → idx.state ≠ stateBootstrapping)
    (hX : ∀ {w w'}, X w = .ok w' ↔
      Opens ch user indexInfo indexMintInfo userIndexAta tokenProgram amount p w ∧
      ∃ w₁, collect ch indexInfo indexMintInfo feeAta ((pairs rest).map Prod.fst) w = .ok w₁ ∧
        settle w₁ = .ok w') :
    Absorbs X fun w => accrueFees ch w (accrualAccounts (user :: indexInfo :: indexMintInfo ::
      userIndexAta :: feeAta :: tokenProgram :: rest)) := by
  refine absorbs_of_guarded settle collect_again ?_ ?_ accrueFees_ok_iff hX
  · intro w w₁ hc
    have hB := collect_bookkept hc
    unfold Opens
    rw [hB.shows_iff hp, hB.holdsMint_iff]
  · intro w hopen
    obtain ⟨-, htok, hpda, -, ⟨idx, hidx, hi⟩, -⟩ := hopen
    exact ⟨htok, hpda, idx, hidx, hsealed idx hi⟩

/-- An accrual in front of an accrual is absorbed. -/
theorem accrueFees_absorbs : Absorbs (fun w => accrueFees ch w
      (indexInfo :: indexMintInfo :: feeAta :: tokenProgram :: vaults))
    fun w => accrueFees ch w (indexInfo :: indexMintInfo :: feeAta :: tokenProgram :: vaults) := by
  refine absorbs_of_guarded Except.ok collect_again ?_ id accrueFees_ok_iff ?_
  · intro w w₁ hc
    have hst : Steady fun idx => idx.state ≠ stateBootstrapping := fun _ _ _ _ => Iff.rfl
    rw [(collect_bookkept hc).shows_iff hst]
  · intro w w'
    rw [accrueFees_ok_iff]
    refine and_congr_right fun _ => ?_
    constructor
    · intro h
      exact ⟨w', h, rfl⟩
    · intro h
      obtain ⟨b, h, hb⟩ := h
      exact Except.ok.inj hb ▸ h

/-- An accrual in front of an issue is absorbed. -/
theorem issue_absorbs (accounts : List AccountInfo) (amount : UInt64) (maxIn : List UInt64) :
    Absorbs (fun w => issue ch w accounts amount maxIn)
      fun w => accrueFees ch w (accrualAccounts accounts) := by
  match accounts with
  | user :: indexInfo :: indexMintInfo :: userIndexAta :: feeAta :: tokenProgram :: rest =>
    have hlive : ∀ idx : Index, idx.state = stateLive ∧ idx.Fits maxIn rest →
        idx.state ≠ stateBootstrapping := by
      intro idx h
      rw [h.1]
      decide
    exact trade_absorbs (steady_fits (· = stateLive)) hlive issue_ok_iff
  | [] | [_] | [_, _] | [_, _, _] | [_, _, _, _] | [_, _, _, _, _] =>
    intro w w'
    exact ⟨fun h => (nomatch h), fun h => (nomatch h)⟩

/-- An accrual in front of a redemption is absorbed. -/
theorem redeem_absorbs (accounts : List AccountInfo) (amount : UInt64) (minOut : List UInt64) :
    Absorbs (fun w => redeem ch w accounts amount minOut)
      fun w => accrueFees ch w (accrualAccounts accounts) := by
  match accounts with
  | user :: indexInfo :: indexMintInfo :: userIndexAta :: feeAta :: tokenProgram :: rest =>
    exact trade_absorbs (steady_fits (· ≠ stateBootstrapping)) (fun _ h => h.1)
      redeem_ok_iff
  | [] | [_] | [_, _] | [_, _, _] | [_, _, _, _] | [_, _, _, _, _] =>
    intro w w'
    exact ⟨fun h => (nomatch h), fun h => (nomatch h)⟩

/-- An accrual takes no time. -/
theorem accrueFees_clock {accounts : List AccountInfo}
    (h : accrueFees ch w accounts = .ok w₁) : w₁.clock = w.clock := by
  match accounts, h with
  | indexInfo :: indexMintInfo :: feeAta :: tokenProgram :: vaults, h =>
    exact (collect_bookkept (accrueFees_ok_iff.mp h).2).clock

/-- An accrual that gets in front of an issuance or a redemption, at the same
clock reading, changes neither whether it succeeds nor what it leaves, and an
accrual in front of an accrual likewise. -/
theorem accrual_in_front (ch : Chain) (w w' : World) (accounts : List AccountInfo) :
    (∀ w₁, process ch w (accrualAccounts accounts) .accrueFees = .ok w₁ → w₁.clock = w.clock) ∧
    (∀ amount maxIn,
      (process ch w (accrualAccounts accounts) .accrueFees >>= fun w₁ =>
        process ch w₁ accounts (.issue amount maxIn)) = .ok w' ↔
      process ch w accounts (.issue amount maxIn) = .ok w') ∧
    (∀ amount minOut,
      (process ch w (accrualAccounts accounts) .accrueFees >>= fun w₁ =>
        process ch w₁ accounts (.redeem amount minOut)) = .ok w' ↔
      process ch w accounts (.redeem amount minOut) = .ok w') ∧
    ((process ch w accounts .accrueFees >>= fun w₁ => process ch w₁ accounts .accrueFees)
        = .ok w' ↔
      process ch w accounts .accrueFees = .ok w') := by
  refine ⟨fun _ => accrueFees_clock, ?_, ?_, ?_⟩
  · intro amount maxIn
    exact issue_absorbs accounts amount maxIn w w'
  · intro amount minOut
    exact redeem_absorbs accounts amount minOut w w'
  · match accounts with
    | indexInfo :: indexMintInfo :: feeAta :: tokenProgram :: vaults =>
      exact accrueFees_absorbs w w'
    | [] | [_] | [_, _] | [_, _, _] => exact ⟨fun h => (nomatch h), fun h => (nomatch h)⟩

end Flock
