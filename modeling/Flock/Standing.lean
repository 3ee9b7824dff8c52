import Flock.Client
import Flock.Localnet
import Flock.Quotes
import Flock.Refusals
import Flock.Pools

/-!
# A quote outlasts the wait

Between a snapshot and the transaction built from it the clock moves on, and
nothing else. The streaming fee grows with the time, so there is more supply to
divide the vaults by, so the units are fewer, and a delivery is a ceiling, which
does not grow when the units do not. The caller's maximum is one above the quote
even without slippage. What remains is that no step of `issue` but the comparison
with the maximum answers `SlippageExceeded`; of the token program that is assumed
(`AnswersCpi`).
-/

namespace Flock

open Outcome MachineInt

variable {ch : Chain} {m : Pubkey} {w w₀ w₁ w' : World} {idx : Index}

/-! ## The fee grows -/

/-- More time owes no less. -/
theorem streamingFee_le (supply : Nat) {num num' : Nat} (h : num ≤ num') (hlt : num' < wholeYear) :
    supply * num / (wholeYear - num) ≤ supply * num' / (wholeYear - num') := by
  apply Nat.div_le_div (Nat.mul_le_mul_left supply h)
  · omega
  · omega

/-- The fee the SDK shows is the closed form, time before the clock counting as none. -/
theorem Sdk.streamingFeeTokens_ok {supply feeBps : Nat} {dt pending : Int} (hS : supply ≠ 0)
    (h : Sdk.streamingFeeTokens supply feeBps dt = .ok pending) :
    pending = (supply * (feeBps * dt.toNat) / (wholeYear - feeBps * dt.toNat) : Nat) := by
  rw [Sdk.streamingFeeTokens] at h
  split at h
  next hz =>
    have hnum : feeBps * dt.toNat = 0 := by
      rw [Nat.mul_eq_zero]
      omega
    rw [hnum, Nat.mul_zero, Nat.zero_div]
    exact (Except.ok.inj h).symm
  next hz =>
    obtain ⟨n, rfl⟩ := Int.eq_ofNat_of_zero_le (show 0 ≤ dt by omega)
    have hnum : (feeBps : Int) * n = ((feeBps * n : Nat) : Int) := (Nat.cast_mul _ _).symm
    have hden : Sdk.bps * Sdk.secondsPerYear = (wholeYear : Int) := by decide
    dsimp only at h
    rw [hnum, hden] at h
    split at h
    next => cases h
    next hlt =>
      have hlt' : feeBps * n < wholeYear := by omega
      have hsub : (wholeYear : Int) - ((feeBps * n : Nat) : Int)
          = ((wholeYear - feeBps * n : Nat) : Int) := (Nat.cast_sub hlt'.le).symm
      rw [hsub, Sdk.mulDivFloor_nat _ _ (by omega)] at h
      exact (Except.ok.inj h).symm

/-- A fee the SDK expected at `asOf` is no more than the fee the program mints later. -/
theorem pendingFee_le {supply owed : UInt64} {feeBps : UInt16} {since now : Int64} {asOf pending : Int}
    (hle : since ≤ now) (hlater : asOf ≤ now.toInt)
    (hsdk : Sdk.streamingFeeTokens supply.toNat feeBps.toNat (asOf - since.toInt) = .ok pending)
    (h : streamingFeeTokens supply feeBps (saturatingSub now since) = .ok owed) :
    ∃ early : UInt64, pending = early.toNat ∧ early.toNat ≤ owed.toNat := by
  by_cases hS : supply.toNat = 0
  · -- no supply, no fee on either side
    refine ⟨0, ?_, Nat.zero_le _⟩
    rw [Sdk.streamingFeeTokens, if_pos (.inl (by exact_mod_cast hS))] at hsdk
    exact (Except.ok.inj hsdk).symm
  · obtain ⟨hlt, howed⟩ := (streamingFeeTokens_ok_iff hS hle).mp h
    have hpending := Sdk.streamingFeeTokens_ok hS hsdk
    have hdt : (asOf - since.toInt).toNat ≤ elapsed since now := by
      unfold elapsed
      omega
    have hmono := streamingFee_le supply.toNat
      (Nat.mul_le_mul_left feeBps.toNat hdt) hlt
    rw [← howed] at hmono
    generalize supply.toNat * (feeBps.toNat * (asOf - since.toInt).toNat) /
      (wholeYear - feeBps.toNat * (asOf - since.toInt).toNat) = early at hmono hpending
    have hfit : early < 2 ^ 64 := by
      have := owed.toNat_lt
      omega
    have hearly : (UInt64.ofNat early).toNat = early := UInt64.toNat_ofNat_of_lt' hfit
    exact ⟨UInt64.ofNat early, by rw [hearly, hpending], by rw [hearly]; exact hmono⟩

/-! ## The units shrink -/

/-- At a larger supply the units are no more. -/
theorem World.unitsAt_le {supply supply' : Nat} (h : supply ≤ supply')
    (hzero : supply = 0 → supply' = 0) (c : Component) :
    w.unitsAt ch m supply' c ≤ w.unitsAt ch m supply c := by
  by_cases h0 : supply = 0
  · rw [h0, hzero h0]
  · rw [World.unitsAt, if_neg (by omega), World.unitsAt, if_neg h0]
    exact Nat.div_le_div_left h (Nat.pos_of_ne_zero h0)

/-! ## The snapshot -/

/-- What a snapshot holds, whenever it was taken. -/
theorem Sdk.snapshot_ok {asOf : Int} {snap : Sdk.IndexSnapshot}
    (hidx : w.index? (ch.indexKey m) = some idx) (h : Sdk.snapshot ch w m asOf = .ok snap) :
    snap.indexMint = m ∧ (∃ st, snap.account = Sdk.accountOf idx st) ∧
      snap.supply = w.supply m ∧
      snap.balances = idx.components.map (fun c => (w.vault ch m c : Int)) ∧
      Sdk.streamingFeeTokens (w.supply m) idx.streamingFeeBps.toNat
        (asOf - idx.lastFeeAccrual.toInt) = .ok snap.pendingFee := by
  rw [Sdk.snapshot, hidx] at h
  obtain ⟨account, haccount, h⟩ := bind_ok_iff.mp h
  -- the mint first: the rest of the block hangs on the match
  cases hmint : w.mint? m with
  | none =>
    rw [hmint] at h
    cases h
  | some mint =>
  rw [hmint] at h
  obtain ⟨supply, hsupply, h⟩ := bind_ok_iff.mp h
  obtain ⟨balances, hbalances, h⟩ := bind_ok_iff.mp h
  obtain ⟨units, -, h⟩ := bind_ok_iff.mp h
  obtain ⟨pendingFee, hpending, h⟩ := bind_ok_iff.mp h
  obtain rfl := Except.ok.inj h
  have hS : supply = w.supply m := by
    rw [World.supply_of_mint? hmint]
    exact (Except.ok.inj hsupply).symm
  subst hS
  obtain ⟨st, rfl⟩ : ∃ st, account = Sdk.accountOf idx st := by
    rw [Sdk.decodeIndex] at haccount
    split at haccount
    next => cases haccount
    next =>
      obtain ⟨st, -, haccount⟩ := bind_ok_iff.mp haccount
      exact ⟨st, (Except.ok.inj haccount).symm⟩
  refine ⟨rfl, ⟨st, rfl⟩, rfl, ?_, hpending⟩
  have hmap := mapM_ok (g := fun c => (w.amount (ch.vaultKey m c.mint) : Int)) (fun {c b} hb => by
    rw [Sdk.vaultAmount] at hb
    split at hb
    next t ht =>
      rw [World.amount_of_token? ht]
      exact (Except.ok.inj hb).symm
    next => cases hb) hbalances
  rw [hmap]
  exact List.map_map

/-! ## Nothing else answers `SlippageExceeded` -/

/-- The token program answers a call with codes of its own. -/
structure TokenProgram.AnswersCpi (token : TokenProgram) : Prop where
  transfer : ∀ {w s d a x e}, token.transfer w s d a x = .error e → ∃ code, e = .cpi code
  mintTo : ∀ {w m d a x e}, token.mintTo w m d a x = .error e → ∃ code, e = .cpi code

/-- Any error but `SlippageExceeded`. -/
def Unslipped (e : ProgramError) : Prop := e ≠ .custom .slippageExceeded

/-- Errors of `math.rs` other than this one are not this one in the program. -/
theorem lift_unslipped {α : Type} {x : Except FlockError α}
    (h : Only (fun e => e ≠ .slippageExceeded) x) :
    Only Unslipped (liftM x : Except ProgramError α) := by
  intro e he
  obtain ⟨f, rfl, hf⟩ := lift_only h e he
  exact fun hs => hf (ProgramError.custom.inj hs)

section Steps

variable (w) (info : AccountInfo)

/-- Reading the record answers otherwise. -/
theorem indexRef_unslipped : Only Unslipped (indexRef w info) := by
  unfold indexRef
  split
  next => exact bind_only (failIf_only fun _ => nofun) fun _ _ => only_ok _ _
  next => exact only_error nofun

/-- Reading a mint answers otherwise. -/
theorem readMint_unslipped : Only Unslipped (readMint w info) := by
  unfold readMint
  split
  next => exact only_ok _ _
  next => exact only_error nofun

/-- Reading a token account answers otherwise. -/
theorem readTokenAccount_unslipped : Only Unslipped (readTokenAccount w info) := by
  unfold readTokenAccount
  split
  next => exact only_ok _ _
  next => exact only_error nofun

/-- The check of a token account answers otherwise. -/
theorem requireTokenAccount_unslipped (mint owner : Pubkey) :
    Only Unslipped (requireTokenAccount w info mint owner) := by
  refine bind_only (readTokenAccount_unslipped w info) fun t _ => ?_
  exact bind_only (failIf_only fun _ => nofun) fun _ _ => only_ok _ _

/-- The check of its mint answers otherwise. -/
theorem requireTokenAccountOfMint_unslipped (mint : Pubkey) :
    Only Unslipped (requireTokenAccountOfMint w info mint) := by
  refine bind_only (readTokenAccount_unslipped w info) fun t _ => ?_
  exact bind_only (failIf_only fun _ => nofun) fun _ _ => only_ok _ _

/-- The check of each vault answers otherwise. By induction on the table. -/
theorem verifyEach_unslipped (key mint : Pubkey) (cs : List Component) :
    ∀ vaults, Only Unslipped (verifyEach ch w key mint cs vaults) := by
  induction cs with
  | nil => exact fun _ => only_ok _ _
  | cons c cs ih =>
    intro vaults
    cases vaults with
    | nil => exact only_ok _ _
    | cons v vaults =>
      refine bind_only (failIf_only fun _ => nofun) fun _ _ => ?_
      refine bind_only (requireTokenAccount_unslipped w v _ _) fun _ _ => ?_
      exact bind_only (ih vaults) fun _ _ => only_ok _ _

/-- Setting the units answers otherwise. -/
theorem syncUnits_unslipped (balances : List UInt64) (supply : UInt64) :
    Only Unslipped (syncUnits w info balances supply) := by
  unfold syncUnits
  split
  next => exact only_ok _ _
  next h0 =>
    refine bind_only (indexRef_unslipped w info) fun idx _ => ?_
    exact bind_only (lift_unslipped (syncEach_only nofun h0 _ _)) fun _ _ => only_ok _ _

/-- Setting the units at the end answers otherwise. -/
theorem resync_unslipped (mintInfo : AccountInfo) (vaults : List AccountInfo) :
    Only Unslipped (resync ch w info mintInfo vaults) := by
  have hverify : Only Unslipped (verifyVaults ch w info mintInfo.key vaults) := by
    refine bind_only (indexRef_unslipped w info) fun idx _ => ?_
    refine bind_only (failIf_only fun _ => nofun) fun _ _ => ?_
    exact verifyEach_unslipped w _ _ _ vaults
  refine bind_only hverify fun balances _ => ?_
  exact bind_only (readMint_unslipped w mintInfo) fun _ _ => syncUnits_unslipped w info _ _

variable (hcpi : ch.token.AnswersCpi)
include hcpi

/-- Minting answers otherwise. -/
theorem mintIndexTokens_unslipped (mintInfo recipient : AccountInfo) (x : UInt64) :
    Only Unslipped (mintIndexTokens ch w mintInfo recipient info x) := by
  unfold mintIndexTokens
  split
  next => exact only_ok _ _
  next =>
    intro e he
    obtain ⟨code, rfl⟩ := hcpi.mintTo he
    nofun

/-- Minting the trade fee answers otherwise. -/
theorem mintFee_unslipped (mintInfo feeAta : AccountInfo) (x : UInt64) :
    Only Unslipped (mintFee ch w info mintInfo feeAta x) := by
  unfold mintFee
  split
  next =>
    refine bind_only (indexRef_unslipped w info) fun idx _ => ?_
    refine bind_only (requireTokenAccount_unslipped w feeAta _ _) fun _ _ => ?_
    exact mintIndexTokens_unslipped w info hcpi _ _ _
  next => exact only_ok _ _

/-- Accruing answers otherwise. -/
theorem accrue_unslipped (mintInfo feeAta : AccountInfo) (now : Int64) :
    Only Unslipped (accrue ch w info mintInfo feeAta now) := by
  refine bind_only (indexRef_unslipped w info) fun idx _ => ?_
  refine bind_only (readMint_unslipped w mintInfo) fun mint _ => ?_
  refine bind_only (lift_unslipped (streamingFeeTokens_only nofun _ _ _)) fun owed _ => ?_
  dsimp only
  split
  next => exact only_ok _ _
  next =>
    refine bind_only (requireTokenAccount_unslipped _ feeAta _ _) fun _ _ => ?_
    exact bind_only (mintIndexTokens_unslipped _ info hcpi _ _ _) fun _ _ => only_ok _ _

/-- A delivery answers otherwise. -/
theorem transferFromUser_unslipped (source vault user : AccountInfo) (x : UInt64) :
    Only Unslipped (transferFromUser ch w source vault user x) := by
  unfold transferFromUser
  split
  next => exact only_ok _ _
  next =>
    intro e he
    obtain ⟨code, rfl⟩ := hcpi.transfer he
    nofun

end Steps

/-- A delivery writes no record. -/
theorem transferFromUser_index? {source vault user : AccountInfo} {x : UInt64}
    (h : transferFromUser ch w source vault user x = .ok w') : w'.index? = w.index? := by
  unfold transferFromUser at h
  split at h
  next => exact congrArg World.index? (Except.ok.inj h).symm
  next => exact (transfer_flow h).2.1

/-- The delivery loop, when every round asks for no more than its maximum. -/
theorem issueLoop_unslipped (hcpi : ch.token.AnswersCpi) {user indexInfo : AccountInfo}
    {gross : UInt64} {i : Nat} {maxIns : List UInt64} {ps : List (AccountInfo × AccountInfo)}
    (hidx : w.index? indexInfo.key = some idx)
    (hmax : ∀ j c x, idx.components[i + j]? = some c → maxIns[j]? = some x →
      c.required gross ≤ x.toNat) :
    Only Unslipped (issueLoop ch user indexInfo gross w i maxIns ps) := by
  induction maxIns generalizing w i ps with
  | nil => exact only_ok _ _
  | cons maxIn maxIns ih =>
    match ps with
    | [] => exact only_ok _ _
    | (vault, source) :: ps =>
      have hcomponent : Only Unslipped (componentAt w indexInfo i) := by
        refine bind_only (indexRef_unslipped w indexInfo) fun idx' _ => ?_
        unfold Index.component
        split
        next => exact only_ok _ _
        next => exact only_error nofun
      refine bind_only hcomponent fun c hc => ?_
      obtain ⟨-, hci⟩ := (componentAt_ok_iff hidx).mp hc
      have hunits : Only Unslipped (liftM (unitsIn c.units gross) : Except ProgramError UInt64) :=
        lift_unslipped (bind_only (mulDivCeil_only nofun _ _ _) fun x _ => toU64_only nofun x)
      refine bind_only hunits fun required hrequired => ?_
      have hreq : required.toNat = c.required gross :=
        unitsIn_ok_iff.mp (lift_ok_iff.mp hrequired)
      -- the comparison this is about
      have hfits : ¬ required > maxIn := by
        have hle := hmax 0 c maxIn hci rfl
        intro hgt
        have := UInt64.lt_iff_toNat_lt.mp hgt
        omega
      refine pass_only (failIf_of_not _ hfits) ?_
      refine bind_only (requireTokenAccountOfMint_unslipped w source _) fun _ _ => ?_
      refine bind_only (transferFromUser_unslipped w hcpi source vault user _) fun w₁ hw₁ => ?_
      refine ih (by rw [transferFromUser_index? hw₁, hidx]) fun j c' x hj hx => ?_
      apply hmax (j + 1) c' x
      · rw [← hj, Nat.add_right_comm, Nat.add_assoc]
      · exact hx

/-! ## The quote against the handler -/

/-- What `issue` requires of component `i`: its steps up to the comparison. -/
def requiredAt (ch : Chain) (w : World) (indexInfo indexMintInfo feeAta : AccountInfo)
    (vaults : List AccountInfo) (amount : UInt64) (i : Nat) : Except ProgramError UInt64 := do
  let idx ← indexRef w indexInfo
  let (_, w) ← accrue ch w indexInfo indexMintInfo feeAta w.clock
  let w ← resync ch w indexInfo indexMintInfo vaults
  let feeTokens ← toU64 (← mulDivCeil amount.toNat idx.issueFeeBps.toNat bps)
  let gross ← checkedAdd amount feeTokens
  let component ← componentAt w indexInfo i
  unitsIn component.units gross

/-- `issue` requires `n` of component `i`: the delivery at the units that an accrual
to `feeAta` leaves. -/
def Requires (ch : Chain) (m : Pubkey) (idx : Index) (w : World) (feeAta : Pubkey)
    (amount : UInt64) (i n : Nat) : Prop :=
  ∃ (w₁ : World) (owed fee gross : UInt64) (c : Component),
    Accrual ch m idx w w₁ feeAta owed ∧ (w₁.supply m = 0 ∨ UnitsFit ch m w₁ idx) ∧
    fee.toNat = (amount.toNat * idx.issueFeeBps.toNat) ⌈/⌉ bps ∧
    gross.toNat = amount.toNat + fee.toNat ∧
    (idx.refreshed ch m w₁ w.clock).components[i]? = some c ∧ n = c.required gross

/-- Slippage adds to a quote, and one more. -/
theorem Sdk.lt_withSlippage {slippage : Int} (h : 0 ≤ slippage) (value : Nat) :
    (value : Int) < FlockClient.withSlippage slippage value := by
  have hnum : 0 ≤ (value : Int) * slippage := Int.mul_nonneg (Int.natCast_nonneg value) h
  have hadd : 0 ≤ ((value : Int) * slippage).tdiv Sdk.bps := Int.tdiv_nonneg hnum (by decide)
  unfold FlockClient.withSlippage
  omega

/-- The instruction a client builds from a snapshot: the numbers are in range, the
maxima are the quote with slippage, and the third account is the index mint. -/
theorem Sdk.FlockClient.issueInstruction_ok {client : FlockClient}
    {args : FlockClient.IssueInstructionArgs} {built : TransactionInstruction}
    (h : client.issueInstruction args = .ok built) :
    ∃ (quote : IssueQuote) (amount : UInt64) (maxIn : List UInt64) (user index : Pubkey)
      (tail : List Pubkey),
      Sdk.quoteIssue args.snapshot args.amount = .ok quote ∧ args.amount = amount.toNat ∧
      quote.required.map (withSlippage (slippageOf args.slippageBps))
        = maxIn.map (fun x => (x.toNat : Int)) ∧
      (FlockInstruction.issue amount maxIn).Fits ∧
      built.data = (FlockInstruction.issue amount maxIn).serialize ∧
      built.keys.map AccountMeta.pubkey = user :: index :: args.snapshot.indexMint :: tail := by
  unfold issueInstruction at h
  obtain ⟨quote, hquote, h⟩ := bind_ok_iff.mp h
  obtain ⟨userIndexAccount, -, h⟩ := bind_ok_iff.mp h
  obtain ⟨feeAccount, -, h⟩ := bind_ok_iff.mp h
  obtain ⟨components, -, h⟩ := bind_ok_iff.mp h
  obtain ⟨amount, maxIn, hamount, hmaxIn, hlen, rfl⟩ :=
    (Sdk.issue_ok_iff client.lib).mp (mapError_ok_iff.mp h)
  exact ⟨quote, amount, maxIn, _, _, _, mapError_ok_iff.mp hquote, hamount, hmaxIn, hlen, rfl, rfl⟩

section Quote

variable {asOf : Int} {snap : Sdk.IndexSnapshot} {feeAta : Pubkey} {amount : UInt64}
  {quote : Sdk.IssueQuote}

/-- An accrual in a reachable world leaves the vaults as they are: an index with a
supply does not list itself, and without one there is nothing to mint. -/
theorem Accrual.vaults_eq {owed : UInt64} (h : Accrual ch m idx w w₁ feeAta owed) (hC : Custody ch m w idx)
    (hU : Unissued m w idx) {c : Component} (hc : c ∈ idx.components) :
    w₁.vault ch m c = w.vault ch m c := by
  by_cases hS : w.supply m = 0
  · have hamount := h.leg.flow.amount (ch.vaultKey m c.mint)
    rw [h.owed_zero hS, UInt64.toNat_zero, Nat.cast_zero, Pi.single_zero, Pi.zero_apply] at hamount
    unfold World.vault
    omega
  · exact h.vault_eq hC hc (hU.mint_ne hS c hc)

/-- Whatever is quoted from a snapshot of the same record, supply and vaults is at
least what the handler asks for once it has accrued. -/
theorem required_le_quote (hC : Custody ch m w idx) (hU : Unissued m w idx)
    (hsettled : idx.lastFeeAccrual ≤ w.clock) (hidx₀ : w₀.index? (ch.indexKey m) = some idx)
    (hsupply : w₀.supply m = w.supply m)
    (hvaults : ∀ c ∈ idx.components, w₀.vault ch m c = w.vault ch m c)
    (hsnap : Sdk.snapshot ch w₀ m asOf = .ok snap) (hlater : asOf ≤ w.clock.toInt)
    (hquote : Sdk.quoteIssue snap amount.toNat = .ok quote)
    {i n : Nat} (hrequires : Requires ch m idx w feeAta amount i n) :
    ∃ value : Nat, quote.required[i]? = some (value : Int) ∧ n ≤ value := by
  obtain ⟨w₁, owed, fee, gross, c, hacc, hfits, hfee, hgross, hc, rfl⟩ := hrequires
  obtain ⟨-, ⟨st, hst⟩, hsnapSupply, hbalances, hpending⟩ := Sdk.snapshot_ok hidx₀ hsnap
  obtain ⟨mi, hmi, hmint⟩ := hacc.fee
  have hS := World.supply_of_mint? hmi
  rw [hsupply, hS] at hpending
  obtain ⟨early, hearly, hle⟩ := pendingFee_le hsettled hlater hpending hmint
  have hp : Pictured ch m w₀ idx early snap := ⟨⟨st, hst⟩, hsnapSupply, hbalances, hearly⟩
  have hquote' := hp.quoteIssue hp.unitsAt_eq hfee hgross
  obtain rfl := Except.ok.inj (hquote.symm.trans hquote')
  -- the component at the same place in the record
  rw [Index.refreshed_components, List.getElem?_map] at hc
  obtain ⟨c₀, hc₀, rfl⟩ := Option.map_eq_some_iff.mp hc
  have hmem := List.mem_of_getElem? hc₀
  refine ⟨_, by rw [List.getElem?_map, hc₀]; rfl, ?_⟩
  -- the handler divides by the larger supply
  have hsup₁ : w₁.supply m = w.supply m + owed.toNat := by
    have := hacc.leg.supply
    omega
  have hzero : w₀.supply m + early.toNat = 0 → w₁.supply m = 0 := by
    intro h0
    have h00 : w.supply m = 0 := by omega
    rw [hsup₁, hacc.owed_zero h00, h00]
    rfl
  have hunits : (w₁.freshUnits ch m c₀).toNat
      ≤ w₀.unitsAt ch m (w₀.supply m + early.toNat) c₀ := by
    have hv : ∀ c ∈ idx.components, w₁.vault ch m c = w₀.vault ch m c := by
      intro c hc
      rw [hacc.vaults_eq hC hU hc, hvaults c hc]
    rw [World.freshUnits_toNat hv hfits hmem]
    exact World.unitsAt_le (by omega) hzero c₀
  exact Rounding.ceilDiv_le_ceilDiv unitScale_pos (Nat.mul_le_mul_right gross.toNat hunits)

/-- And with slippage on top it stays within the maxima. -/
theorem required_le_maxIn {slippage : Int} {maxIn : List UInt64}
    (hslippage : 0 ≤ slippage)
    (hmaxIn : quote.required.map (Sdk.FlockClient.withSlippage slippage)
      = maxIn.map (fun x => (x.toNat : Int))) {i value n : Nat} {x : UInt64}
    (hvalue : quote.required[i]? = some (value : Int)) (hle : n ≤ value) (hx : maxIn[i]? = some x) :
    n ≤ x.toNat := by
  have hat : (quote.required.map (Sdk.FlockClient.withSlippage slippage))[i]?
      = some (x.toNat : Int) := by
    rw [hmaxIn, List.getElem?_map, hx]
    rfl
  rw [List.getElem?_map, hvalue, Option.map_some] at hat
  have hsame := Option.some.inj hat
  have hlt := Sdk.lt_withSlippage hslippage value
  omega

end Quote

section Handler

variable {user indexInfo indexMintInfo userIndexAta feeAta tokenProgram : AccountInfo}
  {rest : List AccountInfo} {amount : UInt64} {maxIn : List UInt64}
  (hm : indexMintInfo.key = m) (hidx : w.index? (ch.indexKey m) = some idx)
  (hC : Custody ch m w idx)
include hm hidx hC

/-- `issue`, when what it asks for after its accrual is within the maxima. -/
theorem issue_unslipped (hcpi : ch.token.AnswersCpi)
    (hmax : ∀ i n x, Requires ch m idx w feeAta.key amount i n → maxIn[i]? = some x →
      n ≤ x.toNat) :
    Only Unslipped (issue ch w (user :: indexInfo :: indexMintInfo :: userIndexAta :: feeAta ::
      tokenProgram :: rest) amount maxIn) := by
  subst hm
  refine bind_only (failIf_only fun _ h => by cases h) fun _ _ => ?_
  refine bind_only (failIf_only fun _ h => by cases h) fun _ _ => ?_
  refine bind_only (bind_only (failIf_only fun _ h => by cases h) fun _ _ => only_ok _ _)
    fun bump hpda => ?_
  have hi := checkIndexPda_ok hpda
  have hidx' : w.index? indexInfo.key = some idx := by rw [hi, Chain.indexKey] at *; exact hidx
  refine bind_only (failIf_only fun _ h => by cases h) fun _ _ => ?_
  refine pass_only (indexRef_ok_iff.mpr ⟨hidx', hC.header⟩) ?_
  have hlive : Only Unslipped idx.isLive := by
    unfold Index.isLive
    split
    next => exact only_ok _ _
    next => split <;> exact only_error fun h => by cases h
  refine bind_only hlive fun _ _ => ?_
  refine bind_only (failIf_only fun _ h => by cases h) fun _ _ => ?_
  refine bind_only (requireTokenAccountOfMint_unslipped w userIndexAta _) fun _ _ => ?_
  refine bind_only (accrue_unslipped w indexInfo hcpi _ feeAta _) fun r hr => ?_
  obtain ⟨owed, w₁⟩ := r
  have hA := accrue_accrual hr hi hidx'
  have hC₁ := (hC.of_flow hA.leg.flow).accrued w.clock
  refine bind_only (resync_unslipped w₁ indexInfo _ _) fun w₂ hw₂ => ?_
  obtain ⟨-, hfits, rfl⟩ := (resync_ok_iff hC₁ hi rfl hA.record).mp hw₂
  refine bind_only (lift_unslipped (mulDivCeil_only (fun h => by cases h) _ _ _)) fun _ hceil => ?_
  refine bind_only (lift_unslipped (toU64_only (fun h => by cases h) _)) fun fee hfee => ?_
  refine bind_only (lift_unslipped (toU64_only (fun h => by cases h) _)) fun gross hgross => ?_
  rw [lift_ok_iff, mulDivCeil_ok_iff] at hceil
  obtain ⟨-, -, rfl⟩ := hceil
  have hfee' := toU64_ok_iff.mp (lift_ok_iff.mp hfee)
  have hgross' := toU64_ok_iff.mp (lift_ok_iff.mp hgross)
  refine bind_only ?_ fun w₃ _ => ?_
  · have hR : (w₁.setIndex (ch.indexKey indexMintInfo.key)
        (idx.refreshed ch indexMintInfo.key w₁ w.clock)).index? indexInfo.key
          = some (idx.refreshed ch indexMintInfo.key w₁ w.clock) := by
      rw [hi]
      exact World.index?_setIndex_self _
    apply issueLoop_unslipped hcpi hR
    intro j c x hc hx
    rw [Nat.zero_add] at hc
    exact hmax j _ x ⟨w₁, owed, fee, gross, c, hA, hfits, hfee', hgross', hc, rfl⟩ hx
  · refine bind_only (mintIndexTokens_unslipped w₃ indexInfo hcpi _ _ _) fun w₄ _ => ?_
    refine bind_only (mintFee_unslipped w₄ indexInfo hcpi _ _ _) fun w₅ _ => ?_
    exact resync_unslipped w₅ indexInfo _ _

/-- What `requiredAt` returns, in the terms of the accrual. -/
theorem requiredAt_ok (hi : indexInfo.key = ch.indexKey m) {vaults : List AccountInfo} {i : Nat}
    {required : UInt64}
    (h : requiredAt ch w indexInfo indexMintInfo feeAta vaults amount i = .ok required) :
    Requires ch m idx w feeAta.key amount i required.toNat := by
  subst hm
  have hidx' : w.index? indexInfo.key = some idx := by rw [hi, hidx]
  simp only [requiredAt, bind_ok_iff, indexRef_ok_iff, lift_ok_iff, mulDivCeil_ok_iff,
    toU64_ok_iff, checkedAdd, unitsIn_ok_iff] at h
  obtain ⟨idx', ⟨hsame, -⟩, ⟨owed, w₁⟩, hacc, w₂, hsync, _, ⟨-, -, rfl⟩, fee, hfee, gross, hgross, c,
    hc, hrequired⟩ := h
  obtain rfl := Option.some.inj (hidx'.symm.trans hsame)
  have hA := accrue_accrual hacc hi hidx'
  have hC₁ := (hC.of_flow hA.leg.flow).accrued w.clock
  obtain ⟨-, hfits, rfl⟩ := (resync_ok_iff hC₁ hi rfl hA.record).mp hsync
  have hR : (w₁.setIndex (ch.indexKey indexMintInfo.key)
      (idx.refreshed ch indexMintInfo.key w₁ w.clock)).index? indexInfo.key
        = some (idx.refreshed ch indexMintInfo.key w₁ w.clock) := by
    rw [hi]
    exact World.index?_setIndex_self _
  exact ⟨w₁, owed, fee, gross, c, hA, hfits, hfee, hgross, ((componentAt_ok_iff hR).mp hc).2,
    hrequired⟩

end Handler

/-- From every reachable world, at every reading of the clock from the snapshot's
on: an instruction the client built from a snapshot of the same record, supply and
vaults is not refused with `SlippageExceeded`, and what is required of a component
is within its maximum. -/
theorem issue_quote_stands (hcpi : ch.token.AnswersCpi) (h : Reachable ch w) {k : Pubkey}
    (hidx : w.index? k = some idx) (hidx₀ : w₀.index? k = some idx)
    (hsupply : w₀.supply idx.indexMint = w.supply idx.indexMint)
    (hvaults : ∀ c ∈ idx.components, w₀.vault ch idx.indexMint c = w.vault ch idx.indexMint c)
    {asOf : Int} {args : Sdk.FlockClient.IssueInstructionArgs}
    (hsnap : Sdk.snapshot ch w₀ idx.indexMint asOf = .ok args.snapshot)
    (hlater : asOf ≤ w.clock.toInt)
    (hslippage : 0 ≤ Sdk.FlockClient.slippageOf args.slippageBps)
    {client : Sdk.FlockClient} {built : Sdk.TransactionInstruction}
    (hbuilt : client.issueInstruction args = .ok built) {accounts : List AccountInfo}
    (haccounts : accounts.map AccountInfo.key = built.keys.map AccountMeta.pubkey) :
    processData ch w accounts built.data ≠ .error (.custom .slippageExceeded) ∧
    ∃ amount maxIn, FlockInstruction.tryFromSlice built.data = some (.issue amount maxIn) ∧
      ∀ indexInfo indexMintInfo feeAta vaults i required x, indexInfo.key = k →
        indexMintInfo.key = idx.indexMint →
        requiredAt ch w indexInfo indexMintInfo feeAta vaults amount i = .ok required →
        maxIn[i]? = some x → required ≤ x := by
  obtain ⟨hW, -⟩ := reachable_wf h
  obtain ⟨rfl, hwf⟩ := hW hidx
  have hC := hwf.custody
  have hU := reachable_unissued h hC.inUse hidx
  obtain ⟨quote, amount, maxIn, user, index, tail, hquote, hamount, hmaxIn, hfit, hdata, hkeys⟩ :=
    Sdk.FlockClient.issueInstruction_ok hbuilt
  rw [hamount] at hquote
  have hmint := (Sdk.snapshot_ok hidx₀ hsnap).1
  have hmax : ∀ feeAta i n x, Requires ch idx.indexMint idx w feeAta amount i n →
      maxIn[i]? = some x → n ≤ x.toNat := by
    intro feeAta i n x hrequires hx
    obtain ⟨value, hvalue, hle⟩ := required_le_quote hC hU hwf.settled hidx₀ hsupply hvaults hsnap
      hlater hquote hrequires
    exact required_le_maxIn hslippage hmaxIn hvalue hle hx
  constructor
  · -- the program decodes what the SDK encoded, and the third account is the mint
    rw [hdata, processData_serialize hfit]
    rw [hkeys, hmint] at haccounts
    have hunslipped : Only Unslipped (issue ch w accounts amount maxIn) := by
      match accounts, haccounts with
      | user :: indexInfo :: indexMintInfo :: userIndexAta :: feeAta :: tokenProgram :: rest,
        haccounts =>
        have hm : indexMintInfo.key = idx.indexMint := by
          simp only [List.map_cons, List.cons.injEq] at haccounts
          exact haccounts.2.2.1
        exact issue_unslipped hm hidx hC hcpi (hmax feeAta.key)
      | [_, _, _], _ | [_, _, _, _], _ | [_, _, _, _, _], _ => exact only_error nofun
    intro hrefused
    exact hunslipped _ hrefused rfl
  · refine ⟨amount, maxIn, FlockInstruction.tryFromSlice_iff.mpr ⟨hfit, hdata⟩, ?_⟩
    intro indexInfo indexMintInfo feeAta vaults i required x hi hm hrequired hx
    rw [UInt64.le_iff_toNat_le]
    exact hmax feeAta.key i _ x (requiredAt_ok hm hidx hC hi hrequired) hx

/-! ### On the local chain -/

/-- The legacy token program answers with its own errors. -/
theorem legacyToken_answersCpi (id : Pubkey) : (legacyToken id).AnswersCpi where
  transfer := by
    intro w s d a x
    show Only (fun e => ∃ code, e = .cpi code) (legacyTransfer w s d a x)
    unfold legacyTransfer
    split
    next ts td _ _ =>
      refine bind_only (failIf_only fun _ => ⟨17, rfl⟩) fun _ _ => ?_
      refine bind_only (failIf_only fun _ => ⟨1, rfl⟩) fun _ _ => ?_
      refine bind_only (failIf_only fun _ => ⟨3, rfl⟩) fun _ _ => ?_
      refine bind_only (failIf_only fun _ => ⟨4, rfl⟩) fun _ _ => ?_
      split
      next => exact only_ok _ _
      next =>
        split
        next => exact only_ok _ _
        next => exact only_error ⟨14, rfl⟩
    next => exact only_error ⟨0, rfl⟩
  mintTo := by
    intro w m d a x
    show Only (fun e => ∃ code, e = .cpi code) (legacyMintTo w m d a x)
    unfold legacyMintTo
    split
    next mi t _ _ =>
      refine bind_only (failIf_only fun _ => ⟨17, rfl⟩) fun _ _ => ?_
      refine bind_only (failIf_only fun _ => ⟨3, rfl⟩) fun _ _ => ?_
      refine bind_only (failIf_only fun _ => ⟨4, rfl⟩) fun _ _ => ?_
      split
      next => exact only_ok _ _
      next => exact only_error ⟨14, rfl⟩
    next => exact only_error ⟨0, rfl⟩

/-- A client of the local chain. -/
def localClient : Sdk.FlockClient where
  lib :=
    { findProgramAddress := fun seeds _ => localAddress seeds
      systemProgramId := 8
      tokenProgramId := 7 }
  associatedTokenAddress := fun mint owner _ =>
    some (addr (if owner = addr 41 then 30 else mint.val.toNat + 19))
  programId := 9

/-- The accounts of a transaction with this one instruction. -/
def infosOf (built : Sdk.TransactionInstruction) : List AccountInfo :=
  built.keys.map fun key => ⟨key.pubkey, key.isSigner⟩

/-- Holder 40 asks for tokens, with no slippage. -/
def localArgs (snap : Sdk.IndexSnapshot) : Sdk.FlockClient.IssueInstructionArgs :=
  { snapshot := snap, user := addr 40, amount := 1000000007, slippageBps := some 0 }

/-- A quote taken at time zero is used half a year later. -/
def quoteThenIssue (w : World) : Bool :=
  match Sdk.snapshot localnet w (addr 1) 0 with
  | .ok snap => match localClient.issueInstruction (localArgs snap) with
    | .ok built => decide (snap.pendingFee = 0) && decide (w.clock ≤ 15768000) &&
      endsIn (processData localnet { w with clock := 15768000 } (infosOf built) built.data)
        fun _ => true
    | .error _ => false
  | .error _ => false

/-- The test of the example, as a statement about it. -/
theorem quoteThenIssue_cases (h : quoteThenIssue w = true) : ∃ snap built w',
    Sdk.snapshot localnet w (addr 1) 0 = .ok snap ∧
    localClient.issueInstruction (localArgs snap) = .ok built ∧ snap.pendingFee = 0 ∧
    w.clock ≤ 15768000 ∧
    processData localnet { w with clock := 15768000 } (infosOf built) built.data = .ok w' := by
  unfold quoteThenIssue at h
  split at h
  next snap hsnap =>
    split at h
    next built hbuilt =>
      simp only [Bool.and_eq_true, decide_eq_true_eq, endsIn_iff] at h
      obtain ⟨⟨hpending, hclock⟩, w', hdone, -⟩ := h
      exact ⟨snap, built, w', hsnap, hbuilt, hpending, hclock, hdone⟩
    next => cases h
  next => cases h

/-- The local fund, quoted at time zero and issued half a year later. -/
theorem issue_quote_stands_local : ∃ (w₀ w w' : World) (idx : Index) (snap : Sdk.IndexSnapshot)
    (built : Sdk.TransactionInstruction), Reachable localnet w ∧
    w₀.index? localIndex = some idx ∧ w.index? localIndex = some idx ∧ w.clock = 15768000 ∧
    Sdk.snapshot localnet w₀ idx.indexMint 0 = .ok snap ∧ snap.pendingFee = 0 ∧
    localClient.issueInstruction (localArgs snap) = .ok built ∧
    processData localnet w (infosOf built) built.data = .ok w' ∧
    ∃ amount maxIn, FlockInstruction.tryFromSlice built.data = some (.issue amount maxIn) ∧
      ∀ indexInfo indexMintInfo feeAta vaults i required x, indexInfo.key = localIndex →
        indexMintInfo.key = idx.indexMint →
        requiredAt localnet w indexInfo indexMintInfo feeAta vaults amount i = .ok required →
        maxIn[i]? = some x → required ≤ x := by
  obtain ⟨w, idx, hreach, hidx, hp⟩ := exists_of_run
    (openFund ⟨100, 30, 50, 100⟩ 2000000 333333333 ++ [localIssue 5000000000])
    (fun w idx => decide (idx.indexMint = addr 1) && quoteThenIssue w) (by decide +kernel)
  simp only [Bool.and_eq_true, decide_eq_true_eq] at hp
  obtain ⟨hm, hquote⟩ := hp
  obtain ⟨snap, built, w', hsnap, hbuilt, hpending, hclock, hdone⟩ := quoteThenIssue_cases hquote
  rw [← hm] at hsnap
  have hreach' : Reachable localnet { w with clock := 15768000 } :=
    hreach.step (.outside (Outside.tick hclock))
  have hkeys : (infosOf built).map AccountInfo.key = built.keys.map AccountMeta.pubkey := by
    rw [infosOf, List.map_map]
    rfl
  have hsnap' : Sdk.snapshot localnet w idx.indexMint 0 = .ok (localArgs snap).snapshot := hsnap
  have hlater : (0 : Int) ≤ (15768000 : Int64).toInt := by decide
  have hstands := issue_quote_stands (legacyToken_answersCpi 7) hreach' hidx hidx rfl
    (fun _ _ => rfl) hsnap' hlater (le_refl (0 : Int)) hbuilt hkeys
  exact ⟨w, _, w', idx, snap, built, hreach', hidx, hidx, rfl, hsnap, hpending, hbuilt, hdone,
    hstands.2⟩

end Flock
