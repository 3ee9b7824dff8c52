import Flock.Create
import Flock.Interposed
import Flock.Pass
import Flock.Torn

/-!
# An order from the command line

`issue` and `redeem` take a snapshot, show what it comes to, and send a transaction with
the limits that the snapshot and the slippage allow. Between the two requests of the
snapshot and before the transaction lands everybody else may do what they like, the
governor and the manager included.

If the transaction lands all the same, then on the terms that were shown: who issues has
the amount more of the index and no more than the limit less of each component
(`issue_costs_as_shown`), who redeems has at least the limit more of each component and no
more than the amount less of the index (`redeem_pays_as_shown`).

Both suppose that no token account of the payer has a delegate. A delegate may spend from
one in between as the payer may, on whatever terms.
-/

namespace Flock

open Outcome MachineInt Graded

variable {ch : Chain} {client : Sdk.FlockClient} {ata : Keeper.AssociatedTokens}
  {payer m : Pubkey} {w w' w₀ w₁ w₂ : World} {snap : Sdk.IndexSnapshot}

namespace Cli

open Sdk

/-! ## The commands -/

/-- An amount of each component, by the table of the snapshot. -/
def bill : List ComponentAccount → List Int → Pubkey → ℤ
  | c :: cs, x :: xs => Pi.single c.mint x + bill cs xs
  | _, _ => 0

/-- The transaction of `issue`: the account for the index tokens, and the instruction. -/
def sendIssue (ch : Chain) (ata : Keeper.AssociatedTokens) (payer indexMint : Pubkey)
    (built : TransactionInstruction) (w : World) : Except Failure World := do
  let w ← (ata.createIdempotent w indexMint payer).mapError .refused
  deliver ch [payer] w built

/-- The transaction of `redeem`: an account for each component, and the instruction. -/
def sendRedeem (ch : Chain) (ata : Keeper.AssociatedTokens) (payer : Pubkey) (mints : List Pubkey)
    (built : TransactionInstruction) (w : World) : Except Failure World := do
  let w ← (mints.foldlM (fun w mint => ata.createIdempotent w mint payer) w).mapError .refused
  deliver ch [payer] w built

/-- An `issue` that was typed in `w₀` and has landed in `w'`. -/
structure Issues (ch : Chain) (client : FlockClient) (ata : Keeper.AssociatedTokens)
    (payer m : Pubkey) (w₀ : World) (amount slippageBps : Int) (snap : IndexSnapshot)
    (quote : IssueQuote) (w' : World) : Prop where
  intro ::
  snapshot : ∃ w₁ w₂ asOf built, Keeper.Meanwhile ch payer w₀ w₁ ∧
    snapshotAcross ch w₀ w₁ m asOf = .ok snap ∧
    client.issueInstruction
      { snapshot := snap, user := payer, amount, slippageBps := some slippageBps } = .ok built ∧
    Keeper.Meanwhile ch payer w₁ w₂ ∧ sendIssue ch ata payer m built w₂ = .ok w'
  shown : quoteIssue snap amount = .ok quote

/-- A `redeem` that was typed in `w₀` and has landed in `w'`. -/
structure Redeems (ch : Chain) (client : FlockClient) (ata : Keeper.AssociatedTokens)
    (payer m : Pubkey) (w₀ : World) (amount slippageBps : Int) (snap : IndexSnapshot)
    (quote : RedeemQuote) (w' : World) : Prop where
  intro ::
  snapshot : ∃ w₁ w₂ asOf feeAccount built, Keeper.Meanwhile ch payer w₀ w₁ ∧
    snapshotAcross ch w₀ w₁ m asOf = .ok snap ∧
    client.tokenAddress m snap.account.feeRecipient true = .ok feeAccount ∧
    client.redeemInstruction
      { snapshot := snap, user := payer, amount, slippageBps := some slippageBps, feeAccount }
        = .ok built ∧
    Keeper.Meanwhile ch payer w₁ w₂ ∧
    sendRedeem ch ata payer (snap.account.components.map ComponentAccount.mint) built w₂ = .ok w'
  shown : quoteRedeem snap amount = .ok quote

/-! ## The bill -/

theorem bill_eq_perMint {cs : List ComponentAccount} {xs : List UInt64} :
    bill cs (xs.map fun x => (x.toNat : Int)) = perMint (cs.map ComponentAccount.mint) xs := by
  induction cs generalizing xs with
  | nil => rfl
  | cons c cs ih =>
    cases xs with
    | nil => rfl
    | cons x xs =>
      show Pi.single c.mint (x.toNat : Int) + bill cs (xs.map fun x => (x.toNat : Int)) = _
      rw [ih]
      rfl

/-- Who owns every account that is named has every entry coming to them. -/
theorem perOwned_eq_perMint {u : Pubkey} {ms : List Pubkey} {xs : List UInt64}
    {accounts : List AccountInfo} (hlen : ms.length ≤ accounts.length)
    (howns : ∀ (i : Nat) (M : Pubkey) (a : AccountInfo), ms[i]? = some M →
      accounts[i]? = some a → w.owns u M a.key = true) :
    perOwned w u ms xs accounts = perMint ms xs := by
  induction ms generalizing xs accounts with
  | nil => cases xs <;> rfl
  | cons M ms ih =>
    cases xs with
    | nil => rfl
    | cons x xs =>
      cases accounts with
      | nil => cases hlen
      | cons a accounts =>
        have hfirst := howns 0 M a rfl rfl
        have hrest : perOwned w u ms xs accounts = perMint ms xs :=
          ih (Nat.le_of_succ_le_succ hlen) fun i M' a' hM ha => howns (i + 1) M' a' hM ha
        rw [perOwned, hrest, perMint, coins, if_pos hfirst]

/-! ## What is built -/

/-- The command line and the chain mean the same accounts. -/
structure Aligned (ch : Chain) (client : FlockClient) (ata : Keeper.AssociatedTokens) : Prop where
  programId : client.programId = ch.programId
  address : ∀ {mint owner offCurve address},
    client.associatedTokenAddress mint owner offCurve = some address →
      address = ata.address mint owner

theorem Aligned.tokenAddress (h : Aligned ch client ata) {mint owner address : Pubkey}
    {offCurve : Bool} (ha : client.tokenAddress mint owner offCurve = .ok address) :
    address = ata.address mint owner := by
  unfold FlockClient.tokenAddress at ha
  rcases haddress : client.associatedTokenAddress mint owner offCurve with _ | address'
  · rw [haddress] at ha
    cases ha
  · rw [haddress] at ha
    obtain rfl := Except.ok.inj ha
    exact h.address haddress

theorem Aligned.componentPairs (h : Aligned ch client ata) {user : Pubkey}
    {ps : List ComponentPair} (hps : client.componentPairs snap user = .ok ps) :
    ps = (snap.account.components.map ComponentAccount.mint).map fun mint =>
      ⟨mint, ata.address mint user⟩ := by
  rw [List.map_map]
  refine mapM_ok (fun {c p} hp => ?_) hps
  obtain ⟨address, haddress, hp⟩ := bind_ok_iff.mp hp
  obtain rfl := Except.ok.inj hp
  rw [h.tokenAddress haddress]
  rfl

/-- The instruction of an `issue`, in the program's terms. -/
theorem Aligned.issueInstruction (h : Aligned ch client ata) {amount : Int}
    {slippageBps : Option Int} {built : TransactionInstruction}
    (hbuilt : client.issueInstruction { snapshot := snap, user := payer, amount, slippageBps }
      = .ok built) :
    ∃ (quote : IssueQuote) (n : UInt64) (maxIn : List UInt64) (index fee : Pubkey)
      (tail : List AccountMeta), quoteIssue snap amount = .ok quote ∧ amount = n.toNat ∧
      quote.required.map (FlockClient.withSlippage (FlockClient.slippageOf slippageBps))
        = maxIn.map (fun x => (x.toNat : Int)) ∧
      (FlockInstruction.issue n maxIn).Fits ∧
      built.data = (FlockInstruction.issue n maxIn).serialize ∧
      built.keys = signerRo payer :: rw index :: rw snap.indexMint ::
        rw (ata.address snap.indexMint payer) :: rw fee :: ro client.lib.tokenProgramId ::
        tail := by
  obtain ⟨quote, hquote, hbuilt⟩ := bind_ok_iff.mp hbuilt
  obtain ⟨userIndexAccount, huser, hbuilt⟩ := bind_ok_iff.mp hbuilt
  obtain ⟨feeAccount, -, hbuilt⟩ := bind_ok_iff.mp hbuilt
  obtain ⟨components, -, hbuilt⟩ := bind_ok_iff.mp hbuilt
  obtain ⟨n, maxIn, hn, hmaxIn, hlen, rfl⟩ :=
    (Sdk.issue_ok_iff client.lib).mp (mapError_ok_iff.mp hbuilt)
  rw [h.tokenAddress huser]
  exact ⟨quote, n, maxIn, (indexPda client.lib client.programId snap.indexMint).1, feeAccount,
    componentMetas client.lib client.programId snap.indexMint components,
    mapError_ok_iff.mp hquote, hn, hmaxIn, hlen, rfl, rfl⟩

/-- The instruction of a `redeem`, in the program's terms. -/
theorem Aligned.redeemInstruction (h : Aligned ch client ata) {amount : Int}
    {slippageBps : Option Int} {feeAccount : Pubkey} {built : TransactionInstruction}
    (hbuilt : client.redeemInstruction
      { snapshot := snap, user := payer, amount, slippageBps, feeAccount } = .ok built) :
    ∃ (quote : RedeemQuote) (n : UInt64) (minOut : List UInt64) (index : Pubkey),
      quoteRedeem snap amount = .ok quote ∧ amount = n.toNat ∧
      quote.payout.map (FlockClient.lessSlippage (FlockClient.slippageOf slippageBps))
        = minOut.map (fun x => (x.toNat : Int)) ∧
      (FlockInstruction.redeem n minOut).Fits ∧
      built.data = (FlockInstruction.redeem n minOut).serialize ∧
      built.keys = signerRo payer :: rw index :: rw snap.indexMint ::
        rw (ata.address snap.indexMint payer) :: rw feeAccount :: ro client.lib.tokenProgramId ::
        componentMetas client.lib client.programId snap.indexMint
          ((snap.account.components.map ComponentAccount.mint).map fun mint =>
            ⟨mint, ata.address mint payer⟩) := by
  obtain ⟨quote, hquote, hbuilt⟩ := bind_ok_iff.mp hbuilt
  obtain ⟨userIndexAccount, huser, hbuilt⟩ := bind_ok_iff.mp hbuilt
  obtain ⟨components, hcomponents, hbuilt⟩ := bind_ok_iff.mp hbuilt
  obtain ⟨n, minOut, hn, hminOut, hlen, rfl⟩ :=
    (Sdk.redeem_ok_iff client.lib).mp (mapError_ok_iff.mp hbuilt)
  rw [h.tokenAddress huser, h.componentPairs hcomponents]
  exact ⟨quote, n, minOut, (indexPda client.lib client.programId snap.indexMint).1,
    mapError_ok_iff.mp hquote, hn, hminOut, hlen, rfl, rfl⟩

/-- The accounts that are paid into stand behind the vaults. -/
theorem pairs_componentMetas {lib : Library} {programId indexMint : Pubkey}
    (f : AccountMeta → AccountInfo) (ps : List ComponentPair) :
    (pairs ((componentMetas lib programId indexMint ps).map f)).map Prod.snd
      = ps.map fun p => f (rw p.tokenAccount) := by
  induction ps with
  | nil => rfl
  | cons p ps ih =>
    show f (rw p.tokenAccount)
      :: (pairs ((componentMetas lib programId indexMint ps).map f)).map Prod.snd = _
    rw [ih]
    rfl

/-- A snapshot reports the record its first request found. -/
theorem snapshotAcross_account {asOf : Int} (h : snapshotAcross ch w₀ w₁ m asOf = .ok snap) :
    ∃ idx st, w₀.index? (ch.indexKey m) = some idx ∧ snap.account = accountOf idx st ∧
      snap.indexMint = m ∧ snap.balances.length = snap.account.components.length := by
  rcases hidx : w₀.index? (ch.indexKey m) with _ | idx
  · rw [snapshotAcross, hidx] at h
    cases h
  · rw [snapshotAcross, hidx] at h
    obtain ⟨account, haccount, h⟩ := bind_ok_iff.mp h
    -- the mint first: the rest of the block hangs on the match
    rcases hmint : w₁.mint? m with _ | mint
    · rw [hmint] at h
      cases h
    rw [hmint] at h
    obtain ⟨supply, -, h⟩ := bind_ok_iff.mp h
    obtain ⟨balances, hbalances, h⟩ := bind_ok_iff.mp h
    obtain ⟨units, -, h⟩ := bind_ok_iff.mp h
    obtain ⟨pendingFee, -, h⟩ := bind_ok_iff.mp h
    obtain rfl := Except.ok.inj h
    obtain ⟨st, rfl⟩ : ∃ st, account = accountOf idx st := by
      rw [Sdk.decodeIndex] at haccount
      split at haccount
      next => cases haccount
      next =>
        obtain ⟨st, -, haccount⟩ := bind_ok_iff.mp haccount
        exact ⟨st, (Except.ok.inj haccount).symm⟩
    exact ⟨idx, st, rfl, rfl, rfl, length_of_mapM_ok hbalances⟩

/-- The table of a snapshot is the one that is listed. -/
theorem snapshotAcross_table {asOf : Int} (h : snapshotAcross ch w₀ w₁ m asOf = .ok snap) :
    snap.indexMint = m ∧ snap.account.components.map ComponentAccount.mint
      = w₀.mints (ch.indexKey m) ∧ snap.balances.length = snap.account.components.length := by
  obtain ⟨idx, st, hidx, haccount, hmint, hlen⟩ := snapshotAcross_account h
  refine ⟨hmint, ?_, hlen⟩
  rw [World.mints_of_index? hidx, haccount]
  exact List.map_map

theorem length_unitsAt {supply : Int} {units : List Int}
    (hlen : snap.balances.length = snap.account.components.length)
    (h : Sdk.unitsAt snap supply = .ok units) : units.length = snap.account.components.length := by
  rw [Sdk.unitsAt] at h
  by_cases hsupply : supply = 0
  · rw [if_pos hsupply] at h
    rw [← Except.ok.inj h, List.length_map]
  · rw [if_neg hsupply] at h
    rw [length_of_mapM_ok h, hlen]

theorem length_required {amount : Int} {quote : IssueQuote}
    (hlen : snap.balances.length = snap.account.components.length)
    (h : quoteIssue snap amount = .ok quote) :
    quote.required.length = snap.account.components.length := by
  obtain ⟨units, hunits, h⟩ := bind_ok_iff.mp h
  obtain ⟨fee, -, h⟩ := bind_ok_iff.mp h
  obtain ⟨required, hrequired, h⟩ := bind_ok_iff.mp h
  rw [← Except.ok.inj h, length_of_mapM_ok hrequired, length_unitsAt hlen hunits]

theorem length_payout {amount : Int} {quote : RedeemQuote}
    (hlen : snap.balances.length = snap.account.components.length)
    (h : quoteRedeem snap amount = .ok quote) :
    quote.payout.length = snap.account.components.length := by
  obtain ⟨units, hunits, h⟩ := bind_ok_iff.mp h
  obtain ⟨fee, -, h⟩ := bind_ok_iff.mp h
  obtain ⟨payout, hpayout, h⟩ := bind_ok_iff.mp h
  rw [← Except.ok.inj h, length_of_mapM_ok hpayout, length_unitsAt hlen hunits]

/-! ## What lands -/

/-- One account after another is opened, and all of them are the payer's then. -/
theorem createIdempotents_gains {mints : List Pubkey}
    (h : mints.foldlM (fun w mint => ata.createIdempotent w mint payer) w = .ok w')
    (hdel : w.Undelegated payer) : Gains payer 0 w w' ∧
      ∀ mint ∈ mints, w'.owns payer mint (ata.address mint payer) = true := by
  induction mints generalizing w with
  | nil =>
    obtain rfl := Except.ok.inj h
    exact ⟨(purses payer).refl w, nofun⟩
  | cons mint mints ih =>
    rw [List.foldlM_cons] at h
    obtain ⟨w₁, hw₁, hrest⟩ := bind_ok_iff.mp h
    obtain ⟨hopen, hown⟩ := createIdempotent_gains hw₁ hdel
    obtain ⟨hgains, howns⟩ := ih hrest (hopen.undelegated hdel)
    refine ⟨(add_zero (0 : Pubkey → ℤ)) ▸ (purses payer).trans hopen hgains, ?_⟩
    intro mint' hmint'
    obtain rfl | hlater := List.mem_cons.mp hmint'
    · exact hgains.owns hown
    · exact howns mint' hlater

/-- The table an instruction meets is the one it was built for: the program asks for one
amount a component, and nothing that is listed is ever dropped. -/
theorem table_met {idx : Index} {k : Pubkey} {mints : List Pubkey} {xs : List UInt64}
    (hidx : w.index? k = some idx) (hbegins : mints <+: w.mints k)
    (hlen : mints.length = xs.length) (hfits : xs.length = idx.components.length) :
    w.mints k = mints := by
  refine (hbegins.eq_of_length ?_).symm
  rw [World.mints_of_index? hidx, List.length_map]
  omega

section Landing

variable (hA : Aligned ch client ata) (hu : ch.Personal payer) (hm : ch.inUse snap.indexMint)
  (hlen : snap.balances.length = snap.account.components.length)
  (hbegins : snap.account.components.map ComponentAccount.mint
    <+: w.mints (ch.indexKey snap.indexMint))
  {amount : Int} {slippageBps : Option Int} {built : TransactionInstruction}
include hA hu hm hlen hbegins

theorem issue_lands (hbuilt : client.issueInstruction
      { snapshot := snap, user := payer, amount, slippageBps } = .ok built)
    (hown : w.owns payer snap.indexMint (ata.address snap.indexMint payer) = true)
    (h : deliver ch [payer] w built = .ok w') :
    ∃ quote, quoteIssue snap amount = .ok quote ∧
      Gains payer (Pi.single snap.indexMint amount - bill snap.account.components
        (quote.required.map (FlockClient.withSlippage (FlockClient.slippageOf slippageBps))))
        w w' := by
  obtain ⟨quote, n, maxIn, index, fee, tail, hquote, rfl, hmaxIn, hfit, hdata, hkeys⟩ :=
    hA.issueInstruction hbuilt
  obtain ⟨-, hdone⟩ := deliver_ok hdata hfit h
  rw [accountsOf, hkeys] at hdone
  refine ⟨quote, hquote, ?_⟩
  -- the record that the instruction meets
  obtain ⟨⟨-, -, ⟨b, hpda⟩, -, ⟨idx, hidx, -, hfits⟩, -⟩, -⟩ := Flock.issue_ok_iff.mp hdone
  have hindex : index = ch.indexKey snap.indexMint := checkIndexPda_ok hpda
  have hlength : (snap.account.components.map ComponentAccount.mint).length = maxIn.length := by
    have hlengths := congrArg List.length hmaxIn
    rw [List.length_map, List.length_map, length_required hlen hquote] at hlengths
    rw [List.length_map, hlengths]
  have hidx' := (indexRef_ok_iff.mp hidx).1
  have htable := table_met (hindex ▸ hidx') hbegins hlength hfits.1
  refine (process_earns hu ?_ w' hdone).weaken fun M => ?_
  · intro m' hc
    rw [← Option.some.inj (show some snap.indexMint = some m' from hc)]
    exact hm
  · rw [hmaxIn, bill_eq_perMint, ← htable, ← hindex]
    simp only [settlement, receipts, stakes, calls, List.map_cons, signerRo, rw, hown, coins,
      decide_true, if_true, le_refl]

theorem redeem_lands {feeAccount : Pubkey} (hbuilt : client.redeemInstruction
      { snapshot := snap, user := payer, amount, slippageBps, feeAccount } = .ok built)
    (howns : ∀ mint ∈ snap.account.components.map ComponentAccount.mint,
      w.owns payer mint (ata.address mint payer) = true)
    (h : deliver ch [payer] w built = .ok w') :
    ∃ quote, quoteRedeem snap amount = .ok quote ∧
      Gains payer (bill snap.account.components
        (quote.payout.map (FlockClient.lessSlippage (FlockClient.slippageOf slippageBps)))
          - Pi.single snap.indexMint amount) w w' := by
  obtain ⟨quote, n, minOut, index, hquote, rfl, hminOut, hfit, hdata, hkeys⟩ :=
    hA.redeemInstruction hbuilt
  obtain ⟨-, hdone⟩ := deliver_ok hdata hfit h
  rw [accountsOf, hkeys] at hdone
  refine ⟨quote, hquote, ?_⟩
  obtain ⟨⟨-, -, ⟨b, hpda⟩, -, ⟨idx, hidx, -, hfits⟩, -⟩, -⟩ := Flock.redeem_ok_iff.mp hdone
  have hindex : index = ch.indexKey snap.indexMint := checkIndexPda_ok hpda
  have hlength : (snap.account.components.map ComponentAccount.mint).length = minOut.length := by
    have hlengths := congrArg List.length hminOut
    rw [List.length_map, List.length_map, length_payout hlen hquote] at hlengths
    rw [List.length_map, hlengths]
  have hidx' := (indexRef_ok_iff.mp hidx).1
  have htable := table_met (hindex ▸ hidx') hbegins hlength hfits.1
  refine (process_earns hu ?_ w' hdone).weaken fun M => ?_
  · intro m' hc
    rw [← Option.some.inj (show some snap.indexMint = some m' from hc)]
    exact hm
  · have hreceipts : perOwned w payer (snap.account.components.map ComponentAccount.mint) minOut
        ((pairs ((componentMetas client.lib client.programId snap.indexMint
          ((snap.account.components.map ComponentAccount.mint).map fun mint =>
            ⟨mint, ata.address mint payer⟩)).map fun key =>
              ⟨key.pubkey, decide (key.pubkey ∈ [payer])⟩)).map Prod.snd)
        = perMint (snap.account.components.map ComponentAccount.mint) minOut := by
      rw [pairs_componentMetas, List.map_map]
      refine perOwned_eq_perMint (le_of_eq (List.length_map _).symm) fun i M' a hM' ha => ?_
      rw [List.getElem?_map, hM'] at ha
      obtain rfl := Option.some.inj ha
      exact howns M' (List.mem_of_getElem? hM')
    rw [hminOut, bill_eq_perMint]
    simp only [settlement, receipts, stakes, calls, List.map_cons, signerRo, rw, decide_true,
      if_true, hindex, htable, hreceipts, le_refl]

end Landing

/-! ## The results -/

section Orders

variable (hA : Aligned ch client ata) (hu : ch.Personal payer) (hm : ch.inUse m)
  (hdel : w₀.Undelegated payer) {amount slippageBps : Int}
include hA hu hm hdel

/-- Whatever happens before it lands: an `issue` adds the amount to the payer's purse of the
index and takes no more of each component than was shown, with the slippage on top. -/
theorem issue_costs_as_shown {quote : IssueQuote}
    (h : Issues ch client ata payer m w₀ amount slippageBps snap quote w') (M : Pubkey) :
    (w₀.purse payer M : ℤ) + (Pi.single m amount - bill snap.account.components
      (quote.required.map (FlockClient.withSlippage slippageBps)) : Pubkey → ℤ) M
        ≤ w'.purse payer M := by
  obtain ⟨⟨w₁, w₂, asOf, built, hbefore, hsnap, hbuilt, hafter, hsent⟩, hquote⟩ := h
  obtain ⟨rfl, htable, hlen⟩ := snapshotAcross_table hsnap
  obtain ⟨w₃, hw₃, hlanded⟩ := bind_ok_iff.mp hsent
  have hwaited := Keeper.Meanwhile.gains (hbefore.trans hafter) hu
  obtain ⟨hopen, hown⟩ := createIdempotent_gains (mapError_ok_iff.mp hw₃) (hwaited.undelegated hdel)
  have hready := (purses payer).trans hwaited hopen
  obtain ⟨quote', hquote', hgains⟩ := issue_lands hA hu hm hlen
    (htable ▸ hready.mints _) hbuilt hown hlanded
  obtain rfl := Except.ok.inj (hquote.symm.trans hquote')
  have hall := ((purses payer).trans hready hgains).purse M
  rw [zero_add, zero_add] at hall
  exact hall

/-- Whatever happens before it lands: a `redeem` adds to the payer's purse of each component
what was shown, less the slippage, and takes no more of the index than the amount. -/
theorem redeem_pays_as_shown {quote : RedeemQuote}
    (h : Redeems ch client ata payer m w₀ amount slippageBps snap quote w') (M : Pubkey) :
    (w₀.purse payer M : ℤ) + (bill snap.account.components
      (quote.payout.map (FlockClient.lessSlippage slippageBps))
        - Pi.single m amount : Pubkey → ℤ) M ≤ w'.purse payer M := by
  obtain ⟨⟨w₁, w₂, asOf, feeAccount, built, hbefore, hsnap, -, hbuilt, hafter, hsent⟩, hquote⟩ := h
  obtain ⟨rfl, htable, hlen⟩ := snapshotAcross_table hsnap
  obtain ⟨w₃, hw₃, hlanded⟩ := bind_ok_iff.mp hsent
  have hwaited := Keeper.Meanwhile.gains (hbefore.trans hafter) hu
  obtain ⟨hopen, howns⟩ :=
    createIdempotents_gains (mapError_ok_iff.mp hw₃) (hwaited.undelegated hdel)
  have hready := (purses payer).trans hwaited hopen
  obtain ⟨quote', hquote', hgains⟩ := redeem_lands hA hu hm hlen
    (htable ▸ hready.mints _) hbuilt howns hlanded
  obtain rfl := Except.ok.inj (hquote.symm.trans hquote')
  have hall := ((purses payer).trans hready hgains).purse M
  rw [zero_add, zero_add] at hall
  exact hall

end Orders

/-! ### On the local chain -/

/-- The command line of holder 40. -/
def localCommand : FlockClient where
  lib := localLibrary
  associatedTokenAddress := fun mint owner _ => some (localTokens mint owner)
  programId := 9

theorem localCommand_aligned : Aligned localnet localCommand localAssociated where
  programId := rfl
  address := fun h => (Option.some.inj h).symm

/-- One token, and half a percent of slippage. -/
def localIssueArgs (snap : IndexSnapshot) : FlockClient.IssueInstructionArgs where
  snapshot := snap
  user := addr 40
  amount := 1000000000
  slippageBps := some 50

def localRedeemArgs (snap : IndexSnapshot) : FlockClient.RedeemInstructionArgs where
  snapshot := snap
  user := addr 40
  amount := 1000000000
  slippageBps := some 50
  feeAccount := localTokens (addr 1) snap.account.feeRecipient

/-- The governor raises the fees of the fund. -/
def localRaise : FlockInstruction := .setParams 100 50 50 100 300

theorem localRaise_meanwhile (h : process localnet w [signer 60, indexAccount, account 1] localRaise
    = .ok w') : Keeper.Meanwhile localnet (addr 40) w w' := by
  have hsignable : Signable localnet [signer 60, indexAccount, account 1] :=
    Act.signable (show (Act.call [signer 60, indexAccount, account 1] localRaise).permitted = true
      by decide +kernel)
  exact .single (.call hsignable (by decide) h)

/-- Holder 40 takes a snapshot, the governor raises the fees, and then the order is sent. -/
def localOrder (sent : IndexSnapshot → World → Bool) (w : World) : Bool :=
  okAnd (snapshotAcross localnet w w (addr 1) 0) fun snap =>
    okAnd (process localnet w [signer 60, indexAccount, account 1] localRaise) (sent snap)

theorem localOrder_iff {sent : IndexSnapshot → World → Bool} (h : localOrder sent w = true) :
    ∃ snap w₂, snapshotAcross localnet w w (addr 1) 0 = .ok snap ∧
      Keeper.Meanwhile localnet (addr 40) w w₂ ∧ sent snap w₂ = true := by
  obtain ⟨snap, hsnap, h⟩ := okAnd_iff.mp h
  obtain ⟨w₂, hraised, hsent⟩ := okAnd_iff.mp h
  exact ⟨snap, w₂, hsnap, localRaise_meanwhile hraised, hsent⟩

theorem issue_costs_as_shown_local : ∃ (w₀ w' : World) (snap : IndexSnapshot) (quote : IssueQuote),
    Issues localnet localCommand localAssociated (addr 40) (addr 1) w₀ 1000000000 50 snap quote w' ∧
    ∀ M, (w₀.purse (addr 40) M : ℤ) + (Pi.single (addr 1) 1000000000 - bill snap.account.components
      (quote.required.map (FlockClient.withSlippage 50)) : Pubkey → ℤ) M
        ≤ w'.purse (addr 40) M := by
  have hrun : endsIn (perform (fun _ act => act.permitted) localWorld
      (openFund ⟨100, 30, 30, 100⟩ 2000000 333333333 ++ [localIssue 5000000000]))
      (localOrder fun snap w₂ =>
        okAnd (localCommand.issueInstruction (localIssueArgs snap)) fun built =>
          okAnd (quoteIssue snap 1000000000) fun _ =>
            okAnd (sendIssue localnet localAssociated (addr 40) (addr 1) built w₂) fun _ =>
              true) = true := by decide +kernel
  obtain ⟨w, hw, hp⟩ := endsIn_iff.mp hrun
  obtain ⟨snap, w₂, hsnap, hwait, hsent⟩ := localOrder_iff hp
  obtain ⟨built, hbuilt, hsent⟩ := okAnd_iff.mp hsent
  obtain ⟨quote, hquote, hsent⟩ := okAnd_iff.mp hsent
  obtain ⟨w', hdone, -⟩ := okAnd_iff.mp hsent
  have horder : Issues localnet localCommand localAssociated (addr 40) (addr 1) w 1000000000 50
      snap quote w' := ⟨⟨w, w₂, 0, built, .refl, hsnap, hbuilt, hwait, hdone⟩, hquote⟩
  exact ⟨w, w', snap, quote, horder, issue_costs_as_shown localCommand_aligned
    (localnet_personal (by decide)) (show (addr 1).val.toNat < 2 * localBase by decide)
    (localRun_undelegated (by decide) hw) horder⟩

theorem redeem_pays_as_shown_local :
    ∃ (w₀ w' : World) (snap : IndexSnapshot) (quote : RedeemQuote),
    Redeems localnet localCommand localAssociated (addr 40) (addr 1) w₀ 1000000000 50 snap quote w' ∧
    ∀ M, (w₀.purse (addr 40) M : ℤ) + (bill snap.account.components
      (quote.payout.map (FlockClient.lessSlippage 50))
        - Pi.single (addr 1) 1000000000 : Pubkey → ℤ) M ≤ w'.purse (addr 40) M := by
  have hrun : endsIn (perform (fun _ act => act.permitted) localWorld
      (openFund ⟨100, 30, 30, 100⟩ 2000000 333333333 ++ [localIssue 5000000000]))
      (localOrder fun snap w₂ =>
        okAnd (localCommand.redeemInstruction (localRedeemArgs snap)) fun built =>
          okAnd (quoteRedeem snap 1000000000) fun _ =>
            okAnd (sendRedeem localnet localAssociated (addr 40)
              (snap.account.components.map ComponentAccount.mint) built w₂) fun _ =>
                true) = true := by decide +kernel
  obtain ⟨w, hw, hp⟩ := endsIn_iff.mp hrun
  obtain ⟨snap, w₂, hsnap, hwait, hsent⟩ := localOrder_iff hp
  obtain ⟨built, hbuilt, hsent⟩ := okAnd_iff.mp hsent
  obtain ⟨quote, hquote, hsent⟩ := okAnd_iff.mp hsent
  obtain ⟨w', hdone, -⟩ := okAnd_iff.mp hsent
  have horder : Redeems localnet localCommand localAssociated (addr 40) (addr 1) w 1000000000 50
      snap quote w' := ⟨⟨w, w₂, 0, _, built, .refl, hsnap, rfl, hbuilt, hwait, hdone⟩, hquote⟩
  exact ⟨w, w', snap, quote, horder, redeem_pays_as_shown localCommand_aligned
    (localnet_personal (by decide)) (show (addr 1).val.toNat < 2 * localBase by decide)
    (localRun_undelegated (by decide) hw) horder⟩

end Cli

end Flock
