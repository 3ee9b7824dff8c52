import Flock.Band
import Flock.Redemption
import Flock.Units

/-!
# A run on the fund

While no streaming fee falls due a redemption only takes shares and assets out,
and takes them at the pool's own quote. So a series of them, by whomever and in
whatever pieces, takes no more than an exact share of what was there and leaves
no less to whoever is still in (`redemptions_pro_rata`). The last one out is paid
two floors below the balance, and what is stranded is counted in `last_out_leaves`.
-/

namespace Flock

open Outcome MachineInt Trace

variable {ch : Chain} {m : Pubkey} {w w₁ w' : World} {ws : List World} {idx : Index}

/-- Somebody redeems while no streaming fee is due, or time passes. -/
inductive Exiting (ch : Chain) (m : Pubkey) (w w' : World) : Prop where
  | redeem {accounts : List AccountInfo} {amount : UInt64} {minOut : List UInt64}
      (signable : Signable ch accounts)
      (done : process ch w accounts (.redeem amount minOut) = .ok w')
      (concerns : Concerns m accounts (.redeem amount minOut)) (noFee : NoFeeDue ch m w)
  | tick {t : Int64} (later : w.clock ≤ t) (passed : w' = { w with clock := t })

/-- The fund of `m` with this table of mints. -/
structure Listing (ch : Chain) (m : Pubkey) (idx : Index) (w : World) : Prop where
  wf : AllWf ch w
  record : ∃ idx', w.index? (ch.indexKey m) = some idx' ∧
    idx'.components.map Component.mint = idx.components.map Component.mint

theorem Redeemed.leaves {amount fee net : UInt64} {user userIndexAta feeAta : Pubkey}
    {payees : List (AccountInfo × AccountInfo)}
    (h : Redeemed ch m idx w w₁ w' amount user userIndexAta feeAta payees 0 fee net)
    (hC : Custody ch m w idx) (hne : ∀ c ∈ idx.components, c.mint ≠ m) {c : Component}
    (hc : c ∈ idx.components) :
    Pool.Leaves unitScale (w.pool ch m c) (w'.pool ch m c) := by
  obtain ⟨dA, hl⟩ := h.leg
  have hS := hl.supply
  have hpos := h.positive
  have henough := h.enough
  have hS₁ : w₁.supply m ≠ 0 := by omega
  rw [← h.accrual.still rfl c]
  obtain ⟨c₁, hc₁, he, hu⟩ := exists_refreshed w.clock hS₁ h.fits hc
  obtain ⟨p, hp⟩ := h.exists_payee hc₁
  have hmints : (idx.refreshed ch m w₁ w.clock).components.map Component.mint
      = idx.components.map Component.mint := Index.refreshed_mints w.clock
  have hv := h.vault_eq hC hp (mint_ne_of_mints hne hmints c₁ hc₁)
  have hpay : paidOut ch m net c₁ p.2 ≤ c₁.units.toNat * net.toNat / unitScale :=
    paidOut_le ch m net c₁ p.2
  simp only [World.vault_congr he] at hv
  rw [hu, World.pool_congr he] at hpay
  have hnet : w₁.supply m - w'.supply m = net.toNat := by omega
  refine ⟨?_, ?_, ?_⟩
  · show w'.supply m ≤ w₁.supply m
    omega
  · show w'.vault ch m c ≤ w₁.vault ch m c
    omega
  · show w₁.vault ch m c ≤ w'.vault ch m c +
      Pool.rate unitScale (w₁.pool ch m c) * (w₁.supply m - w'.supply m) / unitScale
    rw [hnet]
    omega

/-- The step lemma. -/
theorem Exiting.leaves (h : Exiting ch m w w') (hm : ch.inUse m) (hlist : Listing ch m idx w)
    (hne : ∀ c ∈ idx.components, c.mint ≠ m) :
    Listing ch m idx w' ∧
      ∀ c ∈ idx.components, Pool.Leaves unitScale (w.pool ch m c) (w'.pool ch m c) := by
  obtain ⟨hW, idx', hidx', hmints⟩ := hlist
  rcases h with ⟨signable, done, concerns, noFee⟩ | ⟨later, passed⟩
  · rcases hW.call_cases hm signable done with heff | ⟨hother, -⟩
    swap
    · exact absurd concerns hother
    cases heff with
    | redeem key signed before red =>
      obtain rfl := Option.some.inj (hidx'.symm.trans before)
      obtain rfl := red.accrual.owed_eq hidx' noFee
      have hC := (hW.wf hm hidx').custody
      refine ⟨⟨(Step.call signable done).allWf hW, _, red.record,
        (Index.settled_mints _ w' w.clock).trans hmints⟩, ?_⟩
      · intro c hc
        obtain ⟨c', hc', he⟩ := exists_of_mints hmints hc
        have hleaves := red.leaves hC (mint_ne_of_mints hne hmints) hc'
        rwa [World.pool_congr he, World.pool_congr he] at hleaves
  · subst passed
    refine ⟨⟨?_, idx', hidx', hmints⟩, ?_⟩
    · exact (Step.outside (Outside.tick later)).allWf hW
    · intro c _
      exact ⟨le_refl _, le_refl _, Nat.le_add_right _ _⟩

/-- The run lemma. -/
theorem isChain_leaves (hrun : (w :: ws).IsChain (Exiting ch m)) (hm : ch.inUse m)
    (hlist : Listing ch m idx w) (hne : ∀ c ∈ idx.components, c.mint ≠ m) :
    ∀ c ∈ idx.components, ((w :: ws).map fun w => w.pool ch m c).IsChain (Pool.Leaves unitScale) := by
  induction ws generalizing w with
  | nil =>
    intro c _
    exact .singleton _
  | cons w₁ ws ih =>
    obtain ⟨hstep, hrest⟩ := List.isChain_cons_cons.mp hrun
    obtain ⟨hlist₁, hleaves⟩ := hstep.leaves hm hlist hne
    intro c hc
    exact List.isChain_cons_cons.mpr ⟨hleaves c hc, ih hrest hlist₁ c hc⟩

/-- The supply along a run. -/
def supplyTrace (m : Pubkey) (ws : List World) : List Nat := ws.map fun w => w.supply m

/-- From every reachable world in which there is a supply, and in every series of
redemptions while no streaming fee falls due: what was paid out of a vault is at
most an exact share of it for the tokens that were retired, what is left is at
least one for the tokens that remain, and it covers whatever part of these is
redeemed next. -/
theorem redemptions_pro_rata (h : Reachable ch w) {k : Pubkey} (hidx : w.index? k = some idx)
    (hS : w.supply idx.indexMint ≠ 0)
    (hrun : (w :: ws).IsChain (Exiting ch idx.indexMint))
    (hlast : (w :: ws).getLast (List.cons_ne_nil w ws) = w') :
    ∀ c ∈ idx.components,
      lowered (vaultTrace ch idx.indexMint c (w :: ws)) * w.supply idx.indexMint
        ≤ w.vault ch idx.indexMint c * lowered (supplyTrace idx.indexMint (w :: ws)) ∧
      w.vault ch idx.indexMint c * w'.supply idx.indexMint
        ≤ w'.vault ch idx.indexMint c * w.supply idx.indexMint ∧
      ∀ n ≤ w'.supply idx.indexMint,
        w'.vault ch idx.indexMint c * unitScale / w'.supply idx.indexMint * n / unitScale
          ≤ w'.vault ch idx.indexMint c := by
  have hW : AllWf ch w := (reachable_wf h).1
  obtain ⟨rfl, hwf⟩ := hW hidx
  have hm := hwf.custody.inUse
  have hne := h.mint_ne hm hidx hS
  intro c hc
  have hlist : Listing ch idx.indexMint idx w := ⟨hW, idx, hidx, rfl⟩
  have hchain := isChain_leaves hrun hm hlist hne c hc
  have hvaults : (vaultTrace ch idx.indexMint c (w :: ws)).IsChain fun x y => y ≤ x := by
    rw [vaultTrace, List.isChain_map]
    exact ((List.isChain_map _).mp hchain).imp fun _ _ hl => hl.falls
  have hsupplies : (supplyTrace idx.indexMint (w :: ws)).IsChain fun x y => y ≤ x := by
    rw [supplyTrace, List.isChain_map]
    exact ((List.isChain_map _).mp hchain).imp fun _ _ hl => hl.shares
  -- the books of the vault and of the supply, down to the last world
  have hpaid := getLast_add_lowered (fun w => w.vault ch idx.indexMint c) w ws
  rw [← vaultTrace, raised_of_antitone hvaults] at hpaid
  have hretired := getLast_add_lowered (fun w => w.supply idx.indexMint) w ws
  rw [← supplyTrace, raised_of_antitone hsupplies] at hretired
  simp only [hlast, add_zero] at hpaid hretired
  have hmem : w'.pool ch idx.indexMint c ∈ (w :: ws).map fun w => w.pool ch idx.indexMint c := by
    rw [← hlast]
    exact List.mem_map_of_mem (List.getLast_mem _)
  obtain ⟨hrich, -⟩ := Pool.richer_of_isChain unitScale_pos hchain _ hmem
  have hrich' : w.vault ch idx.indexMint c * w'.supply idx.indexMint
      ≤ w'.vault ch idx.indexMint c * w.supply idx.indexMint := hrich
  refine ⟨?_, hrich', ?_⟩
  · have hB : w.vault ch idx.indexMint c * w.supply idx.indexMint
        = w'.vault ch idx.indexMint c * w.supply idx.indexMint
          + lowered (vaultTrace ch idx.indexMint c (w :: ws)) * w.supply idx.indexMint := by
      rw [← Nat.add_mul, hpaid]
    have hS' : w.vault ch idx.indexMint c * w.supply idx.indexMint
        = w.vault ch idx.indexMint c * w'.supply idx.indexMint
          + w.vault ch idx.indexMint c * lowered (supplyTrace idx.indexMint (w :: ws)) := by
      rw [← Nat.mul_add, hretired]
    omega
  · intro n hn
    exact Pool.rate_mul_div_le (p := w'.pool ch idx.indexMint c) hn

/-- A holder redeems twice at half a percent, out of a fund with dust in a vault. -/
theorem redemptions_pro_rata_local : ∃ (w w₁ w₂ : World) (idx : Index),
    Reachable localnet w ∧ w.index? localIndex = some idx ∧
    [w, w₁, w₂].IsChain (Exiting localnet idx.indexMint) ∧
    w₂.supply idx.indexMint < w₁.supply idx.indexMint ∧
    w₁.supply idx.indexMint < w.supply idx.indexMint ∧
    ∀ c ∈ idx.components,
      lowered (vaultTrace localnet idx.indexMint c [w, w₁, w₂]) * w.supply idx.indexMint
        ≤ w.vault localnet idx.indexMint c * lowered (supplyTrace idx.indexMint [w, w₁, w₂]) := by
  obtain ⟨w, idx, hreach, hidx, hp⟩ := exists_of_run
    (openFund ⟨0, 0, 50, 100⟩ 2000000 333333333 ++
      [localIssue 5000000000, .transfer (addr 21) (addr 1002) (addr 40) 1])
    (fun w idx => decide (idx.indexMint = addr 1) && decide (w.supply (addr 1) ≠ 0) &&
      feeless w &&
      endsIn (process localnet w tradeAccounts (.redeem 1000000007 [0, 0])) fun w₁ =>
        decide (w₁.supply (addr 1) < w.supply (addr 1)) && feeless w₁ &&
        endsIn (process localnet w₁ tradeAccounts (.redeem 2999999993 [0, 0])) fun w₂ =>
          decide (w₂.supply (addr 1) < w₁.supply (addr 1)))
    (by decide +kernel)
  simp only [Bool.and_eq_true, decide_eq_true_eq] at hp
  obtain ⟨⟨⟨hm, hS⟩, hfee⟩, hp⟩ := hp
  obtain ⟨w₁, hw₁, hp⟩ := endsIn_iff.mp hp
  simp only [Bool.and_eq_true, decide_eq_true_eq] at hp
  obtain ⟨⟨hfall, hfee₁⟩, hp⟩ := hp
  obtain ⟨w₂, hw₂, hp⟩ := endsIn_iff.mp hp
  have hfall₂ := of_decide_eq_true hp
  rw [← hm] at hS hfall hfall₂
  have hrun : [w, w₁, w₂].IsChain (Exiting localnet idx.indexMint) := by
    rw [hm]
    refine List.isChain_cons_cons.mpr ⟨?_, List.isChain_pair.mpr ?_⟩
    · exact .redeem trade_signable hw₁ rfl (noFeeDue_of_feeless hfee)
    · exact .redeem trade_signable hw₂ rfl (noFeeDue_of_feeless hfee₁)
  have hshare := redemptions_pro_rata hreach hidx hS hrun rfl
  exact ⟨w, w₁, w₂, idx, hreach, hidx, hrun, hfall₂, hfall, fun c hc => (hshare c hc).1⟩

/-! ## The last one out -/

/-- Where no fee is charged on it, a redemption of the whole supply, to accounts
other than the vaults, leaves in each vault what flooring its units left out. That
is at most one base unit for each whole token of the supply, or part of one. -/
theorem last_out_leaves (h : Reachable ch w) {k : Pubkey} (hidx : w.index? k = some idx)
    {user indexInfo indexMintInfo userIndexAta feeAta tokenProgram : AccountInfo}
    {rest : List AccountInfo}
    (signable : Signable ch (user :: indexInfo :: indexMintInfo :: userIndexAta :: feeAta ::
      tokenProgram :: rest))
    (hm : indexMintInfo.key = idx.indexMint) (hfee : idx.redeemFeeBps.toNat = 0)
    {amount : UInt64} {minOut : List UInt64}
    (done : process ch w (user :: indexInfo :: indexMintInfo :: userIndexAta :: feeAta ::
      tokenProgram :: rest) (.redeem amount minOut) = .ok w')
    (hall : amount.toNat = idx.grown w.clock (w.supply idx.indexMint))
    (hrecv : ∀ p ∈ pairs rest, ∀ c ∈ idx.components, p.2.key ≠ ch.vaultKey idx.indexMint c.mint) :
    w'.supply idx.indexMint = 0 ∧ ∀ c ∈ idx.components,
      w'.vault ch idx.indexMint c
        = (w.vault ch idx.indexMint c * unitScale % amount.toNat) ⌈/⌉ unitScale ∧
      w'.vault ch idx.indexMint c ≤ amount.toNat ⌈/⌉ unitScale := by
  have hW : AllWf ch w := (reachable_wf h).1
  obtain ⟨rfl, hwf⟩ := hW hidx
  have hC := hwf.custody
  rcases hW.call_cases hC.inUse signable done with heff | ⟨hother, -⟩
  swap
  · exact absurd (congrArg some hm) hother
  cases heff with
  | @redeem _ _ _ _ _ _ _ _ _ _ w₁ _ _ net key signed before red =>
    obtain rfl := Option.some.inj (hidx.symm.trans before)
    have hpos := red.positive
    have hS : w.supply idx.indexMint ≠ 0 := by
      intro h0
      rw [h0, Index.grown, Nat.zero_mul, Nat.zero_div] at hall
      omega
    have hne := h.mint_ne hC.inUse hidx hS
    obtain ⟨-, hgrown⟩ := red.accrual.grown hwf.settled hS
    rw [← hgrown] at hall
    -- nothing is kept back for a fee
    have hnet := red.net_eq
    rw [red.fee_eq, hfee, Nat.mul_zero, zero_ceilDiv, add_zero] at hnet
    obtain ⟨dA, hl⟩ := red.leg
    have hsupply := hl.supply
    refine ⟨by omega, ?_⟩
    intro c hc
    obtain ⟨c₁, hc₁, he, hu⟩ := exists_refreshed w.clock (by omega) red.fits hc
    obtain ⟨p, hp⟩ := red.exists_payee hc₁
    have hmints : (idx.refreshed ch idx.indexMint w₁ w.clock).components.map Component.mint
        = idx.components.map Component.mint := Index.refreshed_mints w.clock
    have hv := red.vault_eq hC hp (mint_ne_of_mints hne hmints c₁ hc₁)
    have hout : p.2.key ≠ ch.vaultKey idx.indexMint c₁.mint := by
      rw [he]
      exact hrecv p (List.of_mem_zip hp).2 c hc
    rw [paidOut, if_neg hout, Component.payout, hu, World.pool_congr he, hnet, hall] at hv
    simp only [World.vault_congr he] at hv
    have hleft := Pool.rate_mul_div_add unitScale_pos (w₁.pool ch idx.indexMint c)
    have hleft' : Pool.rate unitScale (w₁.pool ch idx.indexMint c) * w₁.supply idx.indexMint
          / unitScale
        + (w₁.vault ch idx.indexMint c * unitScale % w₁.supply idx.indexMint) ⌈/⌉ unitScale
        = w₁.vault ch idx.indexMint c := hleft
    have hsame := red.accrual.vault_eq hC hc (hne c hc)
    have hmod : w.vault ch idx.indexMint c * unitScale % amount.toNat ≤ amount.toNat :=
      (Nat.mod_lt _ (Nat.pos_of_ne_zero hpos)).le
    have hstays : w'.vault ch idx.indexMint c
        = (w.vault ch idx.indexMint c * unitScale % amount.toNat) ⌈/⌉ unitScale := by
      rw [hall, ← hsame]
      omega
    refine ⟨hstays, ?_⟩
    rw [hstays]
    exact Rounding.ceilDiv_le_ceilDiv unitScale_pos hmod

/-- Holder 40 redeems all of the five tokens there are. -/
def lastOut (p : World → Index → World → Bool) (w : World) (idx : Index) : Bool :=
  decide (idx.indexMint = addr 1) && decide (idx.redeemFeeBps.toNat = 0) &&
    decide (idx.grown w.clock (w.supply (addr 1)) = 5000000000) &&
    decide (∀ p ∈ pairs localRest, ∀ c ∈ idx.components,
      p.2.key ≠ localnet.vaultKey (addr 1) c.mint) &&
    endsIn (process localnet w tradeAccounts (.redeem 5000000000 [0, 0])) (p w idx)

/-- One base unit was given to a vault, and stays there. -/
theorem last_out_leaves_local : ∃ (w w' : World) (idx : Index) (c : Component),
    Reachable localnet w ∧ w.index? localIndex = some idx ∧ c ∈ idx.components ∧
    w.vault localnet idx.indexMint c = 10000001 ∧ w'.supply idx.indexMint = 0 ∧
    w'.vault localnet idx.indexMint c
      = (w.vault localnet idx.indexMint c * unitScale % 5000000000) ⌈/⌉ unitScale := by
  obtain ⟨w, idx, hreach, hidx, hp⟩ := exists_of_run
    (openFund ⟨0, 0, 0, 100⟩ 2000000 333333333 ++
      [localIssue 5000000000, .transfer (addr 21) (addr 1002) (addr 40) 1])
    (lastOut fun w idx _ => idx.components.any fun c =>
      decide (w.vault localnet (addr 1) c = 10000001))
    (by decide +kernel)
  simp only [lastOut, Bool.and_eq_true, decide_eq_true_eq] at hp
  obtain ⟨⟨⟨⟨hm, hfee⟩, hall⟩, hrecv⟩, hp⟩ := hp
  obtain ⟨w', hw', hp⟩ := endsIn_iff.mp hp
  simp only [List.any_eq_true, decide_eq_true_eq] at hp
  obtain ⟨c, hc, hB⟩ := hp
  rw [← hm] at hall hrecv hB
  obtain ⟨hout, hleft⟩ := last_out_leaves hreach hidx trade_signable hm.symm hfee hw' hall.symm hrecv
  exact ⟨w, w', idx, c, hreach, hidx, hc, hB, hout, (hleft c hc).1⟩

/-- A fill took 5000001 base units of component 3, and the redemption of the five
tokens leaves four base units of it. -/
theorem last_out_leaves_four : ∃ (w w' : World) (idx : Index) (c : Component),
    Reachable localnet w ∧ w.index? localIndex = some idx ∧ idx.state ≠ stateBootstrapping ∧
    idx.redeemFeeBps.toNat = 0 ∧ c ∈ idx.components ∧
    idx.grown w.clock (w.supply idx.indexMint) = 5000000000 ∧
    (∀ p ∈ pairs localRest, ∀ c ∈ idx.components,
      p.2.key ≠ localnet.vaultKey idx.indexMint c.mint) ∧
    Signable localnet tradeAccounts ∧
    process localnet w tradeAccounts (.redeem 5000000000 [0, 0]) = .ok w' ∧
    w'.supply idx.indexMint = 0 ∧ w.vault localnet idx.indexMint c = 1661666664 ∧
    w'.vault localnet idx.indexMint c = 4 ∧
    ¬ w.vault localnet idx.indexMint c - 1
      ≤ w.vault localnet idx.indexMint c - w'.vault localnet idx.indexMint c := by
  obtain ⟨w, idx, hreach, hidx, hp⟩ := exists_of_run
    (openAuction 2050000 ++ [.call bidAccounts (.bid 1 0 5000001 10000000000)])
    (lastOut fun w idx w' => decide (idx.state ≠ stateBootstrapping) &&
      decide (w'.supply (addr 1) = 0) && idx.components.any fun c =>
        decide (w.vault localnet (addr 1) c = 1661666664) &&
        decide (w'.vault localnet (addr 1) c = 4))
    (by decide +kernel)
  simp only [lastOut, Bool.and_eq_true, decide_eq_true_eq] at hp
  obtain ⟨⟨⟨⟨hm, hfee⟩, hall⟩, hrecv⟩, hp⟩ := hp
  obtain ⟨w', hw', hp⟩ := endsIn_iff.mp hp
  simp only [Bool.and_eq_true, List.any_eq_true, decide_eq_true_eq] at hp
  obtain ⟨⟨hsealed, hout⟩, c, hc, hB, hB'⟩ := hp
  rw [← hm] at hall hrecv hout hB hB'
  exact ⟨w, w', idx, c, hreach, hidx, hsealed, hfee, hc, hall, hrecv, trade_signable, hw', hout, hB,
    hB', by omega⟩

end Flock
