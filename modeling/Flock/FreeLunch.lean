import Flock.Parallel
import Flock.SelfListing
import Flock.Units

/-!
# No free lunch

A run of entries and exits that ends with at least the supply it began with
leaves every vault with at least what it held. One step alone does not show it:
an issuer pays by floored units and can pay less than the exact share. Seen as
a pool (`World.pool`) every step is a trade at the pool's own quote, and
`Pool.assets_le_of_run` is the argument over the whole run.

The second half reads the same from the side of one user: component tokens are
neither made nor lost by these steps, so what the vaults do not lose and nobody
else loses, the user has not gained.
-/

namespace Flock

open Outcome MachineInt

variable {ch : Chain} {m : Pubkey} {w w₁ w' : World} {idx idx' : Index}

/-- An entry or an exit that mints no streaming fee, a deposit, a burn, or the
passing of time. -/
inductive EntryExit (ch : Chain) (m : Pubkey) (w w' : World) : Prop where
  | trade {accounts : List AccountInfo} {ix : FlockInstruction} (signable : Signable ch accounts)
      (done : process ch w accounts ix = .ok w') (concerns : Concerns m accounts ix)
      (isTrade : ix.isTrade = true) (noFee : NoFeeDue ch m w)
  | deposit {source destination user : Pubkey} {x : UInt64} (outsider : ch.Outsider user)
      (done : ch.token.transfer w source destination user x = .ok w')
  | burn {account user : Pubkey} {x : UInt64} (outsider : ch.Outsider user)
      (done : ch.token.burn w account m user x = .ok w')
  | tick {t : Int64} (later : w.clock ≤ t) (done : w' = { w with clock := t })

/-- Such a step between worlds with index tokens outstanding. -/
structure LiveStep (ch : Chain) (m : Pubkey) (w w' : World) : Prop where
  step : EntryExit ch m w w'
  before : 0 < w.supply m
  after : 0 < w'.supply m

theorem EntryExit.step (h : EntryExit ch m w w') : Step ch w w' := by
  cases h with
  | trade signable done concerns isTrade noFee => exact .call signable done
  | deposit outsider done => exact .outside (Outside.transfer outsider done)
  | burn outsider done => exact .outside (Outside.burn outsider done)
  | tick later done => exact .outside (done ▸ Outside.tick later)

/-- The step is an issue or a redemption without a streaming fee, or it leaves
the index undisturbed. -/
theorem EntryExit.cases (h : EntryExit ch m w w') (hW : AllWf ch w) (hm : ch.inUse m)
    (hidx : w.index? (ch.indexKey m) = some idx) :
    (∃ w₁ amount maxIn userIndexAta feeAta fee gross,
      Issued ch m idx w w₁ w' amount maxIn userIndexAta feeAta 0 fee gross) ∨
    (∃ w₁ amount user userIndexAta feeAta payees fee net, ch.Outsider user ∧
      Redeemed ch m idx w w₁ w' amount user userIndexAta feeAta payees 0 fee net) ∨
    (Undisturbed ch m w w' ∧ (w'.supply m = w.supply m ∨
      ∃ account user x, ch.Outsider user ∧ ch.token.burn w account m user x = .ok w')) := by
  cases h with
  | trade signable hdone concerns isTrade noFee =>
    rcases hW.call_cases hm signable hdone with heff | ⟨hne, -⟩
    swap
    · exact absurd concerns hne
    cases heff with
    | issue key before done =>
      obtain rfl := Option.some.inj (hidx.symm.trans before)
      obtain rfl := done.accrual.owed_eq hidx noFee
      exact .inl ⟨_, _, _, _, _, _, _, done⟩
    | redeem key signed before done =>
      obtain rfl := Option.some.inj (hidx.symm.trans before)
      obtain rfl := done.accrual.owed_eq hidx noFee
      exact .inr (.inl ⟨_, _, _, _, _, _, _, _,
        signable.outsider _ (List.mem_cons_self ..) signed, done⟩)
    | initIndex | addComponent | sealIndex | accrueFees | proposeRebalance | bid | endRebalance
    | setParams | setAuthority | setPaused => cases isTrade
  | deposit outsider done =>
    refine .inr (.inr ⟨(Outside.transfer outsider done).each hm, .inl ?_⟩)
    rw [World.supply_congr (transfer_flow done).2.2]
  | burn outsider done =>
    exact .inr (.inr ⟨(Outside.burn outsider done).each hm, .inr ⟨_, _, _, outsider, done⟩⟩)
  | tick later done => exact .inr (.inr ⟨(done ▸ Outside.tick later).each hm, .inl (by rw [done]; rfl)⟩)

/-- The step lemma: to every component, a live step is a trade of its pool. -/
theorem LiveStep.trade (h : LiveStep ch m w w') (hW : AllWf ch w) (hm : ch.inUse m)
    (hidx : w.index? (ch.indexKey m) = some idx) :
    ∃ idx', w'.index? (ch.indexKey m) = some idx' ∧
      idx'.components.map Component.mint = idx.components.map Component.mint ∧
      ∀ c ∈ idx.components, Pool.Trade unitScale (w.pool ch m c) (w'.pool ch m c) := by
  have hquote : ∀ {w₁ : World} {feeAta : Pubkey}, Accrual ch m idx w w₁ feeAta 0 →
      UnitsFit ch m w₁ idx → ∀ {c}, c ∈ idx.components →
      ∃ c₁ ∈ (idx.refreshed ch m w₁ w.clock).components, c₁.mint = c.mint ∧
        c₁.units.toNat = Pool.rate unitScale (w.pool ch m c) ∧
        w₁.pool ch m c₁ = w.pool ch m c := by
    intro w₁ feeAta hacc hfit c hc
    have hS : w₁.supply m = w.supply m := congrArg Pool.State.shares (hacc.still rfl c)
    obtain ⟨c₁, hc₁, he, hu⟩ := exists_refreshed w.clock (hS ▸ h.before.ne') hfit hc
    have hpool : w₁.pool ch m c₁ = w.pool ch m c :=
      (World.pool_congr he).trans (hacc.still rfl c)
    exact ⟨c₁, hc₁, he, by rw [hu, hpool], hpool⟩
  rcases h.step.cases hW hm hidx with ⟨w₁, amount, maxIn, ata, feeAta, fee, gross, done⟩ |
    ⟨w₁, amount, user, ata, feeAta, payees, fee, net, -, done⟩ | ⟨hun, -⟩
  · refine ⟨_, done.record, Index.settled_mints w₁ w' w.clock, fun c hc => ?_⟩
    have hfit := done.fits.resolve_left (by
      have hS : w₁.supply m = w.supply m :=
        congrArg Pool.State.shares (done.accrual.still rfl c)
      have := h.before
      omega)
    obtain ⟨c₁, hc₁, he, hu, hpool⟩ := hquote done.accrual hfit hc
    have hmove := done.move hc₁
    rw [hu, hpool, World.pool_congr he] at hmove
    exact ⟨h.before, h.after, hmove⟩
  · refine ⟨_, done.record, Index.settled_mints w₁ w' w.clock, fun c hc => ?_⟩
    obtain ⟨c₁, hc₁, he, hu, hpool⟩ := hquote done.accrual done.fits hc
    have hmove := done.move hc₁
    rw [hu, hpool, World.pool_congr he] at hmove
    exact ⟨h.before, h.after, hmove⟩
  · exact ⟨idx, by rw [hun.record, hidx], rfl, fun c hc =>
      ⟨h.before, h.after, hun.move (hW.wf hm hidx).custody hc _⟩⟩

/-- The run lemma. -/
theorem trades_of_run (hrun : Relation.ReflTransGen (LiveStep ch m) w w') (hW : AllWf ch w)
    (hm : ch.inUse m) (hidx : w.index? (ch.indexKey m) = some idx) :
    AllWf ch w' ∧ ∃ idx', w'.index? (ch.indexKey m) = some idx' ∧
      idx'.components.map Component.mint = idx.components.map Component.mint ∧
      ∀ c ∈ idx.components,
        Relation.ReflTransGen (Pool.Trade unitScale) (w.pool ch m c) (w'.pool ch m c) := by
  induction hrun with
  | refl => exact ⟨hW, idx, hidx, rfl, fun _ _ => .refl⟩
  | tail _ hstep ih =>
    obtain ⟨hW', idx', hidx', hmints, htr⟩ := ih
    obtain ⟨idx'', hidx'', hmints', htr'⟩ := hstep.trade hW' hm hidx'
    refine ⟨hstep.step.step.allWf hW', idx'', hidx'', hmints'.trans hmints, fun c hc => ?_⟩
    obtain ⟨c', hc', he⟩ := exists_of_mints hmints hc
    have hlast := htr' c' hc'
    rw [World.pool_congr he, World.pool_congr he] at hlast
    exact (htr c hc).tail hlast

/-! ## What these steps conserve -/

/-- No component token was made or lost, and index tokens were made and lost
only together with supply. -/
structure Conserves (m : Pubkey) (w w' : World) : Prop where
  total : ∀ x, x ≠ m → w'.total x = w.total x
  supply : w'.supply m + w.total m = w.supply m + w'.total m

theorem Conserves.trans {w'' : World} (h : Conserves m w w') (h' : Conserves m w' w'') :
    Conserves m w w'' where
  total := fun x hx => (h'.total x hx).trans (h.total x hx)
  supply := by
    have := h.supply
    have := h'.supply
    omega

theorem Flow.conserves {dS dA : Pubkey → ℤ} (h : Flow w w' dS dA) (h0 : ∀ x, x ≠ m → dS x = 0) :
    Conserves m w w' where
  total := by
    intro x hx
    have ht := h.total x
    rw [h0 x hx] at ht
    omega
  supply := by
    have := h.supply m
    have := h.total m
    omega

theorem Leg.conserves {dS : ℤ} {dA : Pubkey → ℤ} (h : Leg ch m w w' dS dA) : Conserves m w w' :=
  h.flow.conserves fun _ hx => Pi.single_eq_of_ne hx _

theorem EntryExit.conserves (h : EntryExit ch m w w') (hW : AllWf ch w) (hm : ch.inUse m) :
    Conserves m w w' := by
  cases h with
  | trade signable hdone concerns isTrade noFee =>
    rcases hW.call_cases hm signable hdone with heff | ⟨hne, -⟩
    · obtain ⟨dS, dA, hleg⟩ := heff.leg
      exact hleg.conserves
    · exact absurd concerns hne
  | deposit outsider done => exact (transfer_flow done).1.conserves fun _ _ => rfl
  | burn outsider done =>
    exact (burn_flow done).1.conserves fun x hx => by
      rw [Pi.neg_apply, Pi.single_eq_of_ne hx, neg_zero]
  | tick later done => exact done ▸ ⟨fun _ _ => rfl, rfl⟩

theorem conserves_of_run (hrun : Relation.ReflTransGen (LiveStep ch m) w w') (hW : AllWf ch w)
    (hm : ch.inUse m) : AllWf ch w' ∧ Conserves m w w' := by
  induction hrun with
  | refl => exact ⟨hW, fun _ _ => rfl, rfl⟩
  | tail _ hstep ih =>
    exact ⟨hstep.step.step.allWf ih.1, ih.2.trans (hstep.step.conserves ih.1 hm)⟩

/-! ## The result -/

/-- `U` are the accounts of one user who acted alone between `w` and `w'`:
nobody else's account, the vaults apart, lost anything. -/
structure Alone (ch : Chain) (m : Pubkey) (idx : Index) (U : Finset Pubkey) (w w' : World) :
    Prop where
  vaults : ∀ c ∈ idx.components, ch.vaultKey m c.mint ∉ U
  others : ∀ k ∉ U, (∀ c ∈ idx.components, k ≠ ch.vaultKey m c.mint) →
    ∀ x, w.held x k ≤ w'.held x k

/-- Outside the user's accounts and the vault of `c`, nothing of `c`'s mint was
lost: the other vaults hold none of it. -/
theorem Alone.held_le {U : Finset Pubkey} (h : Alone ch m idx U w w') (hC : Custody ch m w idx)
    {x k : Pubkey} (hk : k ∉ U) (hx : ∀ c ∈ idx.components, c.mint = x → k ≠ ch.vaultKey m c.mint) :
    w.held x k ≤ w'.held x k := by
  by_cases hv : ∀ c ∈ idx.components, k ≠ ch.vaultKey m c.mint
  · exact h.others k hk hv x
  · simp only [not_forall, ne_eq, not_not] at hv
    obtain ⟨c, hc, rfl⟩ := hv
    rw [hC.held_vault_of_ne hc fun e => hx c hc e rfl]
    exact Nat.zero_le _

/-- What the user and the vault of `c` together gained, the total gained. -/
theorem Alone.gain_le {U : Finset Pubkey} (h : Alone ch m idx U w w') (hC : Custody ch m w idx)
    (hC' : Custody ch m w' idx) {c : Component} (hc : c ∈ idx.components) :
    w'.vault ch m c + ∑ k ∈ U, w'.held c.mint k + w.total c.mint
      ≤ w.vault ch m c + ∑ k ∈ U, w.held c.mint k + w'.total c.mint := by
  have hgain := FiniteSum.sum_gain_le (f := fun k => w.held c.mint k)
    (g := fun k => w'.held c.mint k) (U := insert (ch.vaultKey m c.mint) U) (by
      intro k hk
      rw [Finset.mem_insert, not_or] at hk
      exact h.held_le hC hk.2 fun c' _ he => by rw [he]; exact hk.1)
  rw [Finset.sum_insert (h.vaults c hc), Finset.sum_insert (h.vaults c hc), hC.held_vault hc,
    hC'.held_vault hc] at hgain
  exact hgain

/-- A user who acted alone and ends with the index tokens they began with has
not lowered the supply. -/
theorem Alone.supply_le {U : Finset Pubkey} (h : Alone ch m idx U w w')
    (hrun : Relation.ReflTransGen (LiveStep ch m) w w') (hW : AllWf ch w) (hm : ch.inUse m)
    (hidx : w.index? (ch.indexKey m) = some idx) (hne : ∀ c ∈ idx.components, c.mint ≠ m)
    (hsame : ∑ k ∈ U, w'.held m k = ∑ k ∈ U, w.held m k) :
    w.supply m ≤ w'.supply m := by
  have hC := (hW.wf hm hidx).custody
  have hcons := (conserves_of_run hrun hW hm).2.supply
  -- no vault holds index tokens
  have hgain := FiniteSum.sum_gain_le (f := fun k => w.held m k) (g := fun k => w'.held m k)
    (U := U) fun k hk => h.held_le hC hk fun c hc he => absurd he (hne c hc)
  have htot : ∀ w : World, ∑ k, w.held m k = w.total m := fun _ => rfl
  rw [htot, htot] at hgain
  omega

/-- From any reachable world with index tokens outstanding, over any run of
entries, exits, deposits and burns: if the supply did not fall, no vault did;
and a user who acted alone and ends with the index tokens they began with holds
no more of any component than at the start. -/
theorem no_free_lunch (h : Reachable ch w) {k : Pubkey} (hidx : w.index? k = some idx)
    (hS : 0 < w.supply idx.indexMint)
    (hrun : Relation.ReflTransGen (LiveStep ch idx.indexMint) w w') :
    (w.supply idx.indexMint ≤ w'.supply idx.indexMint →
      ∀ c ∈ idx.components, w.vault ch idx.indexMint c ≤ w'.vault ch idx.indexMint c) ∧
    (∀ U : Finset Pubkey, Alone ch idx.indexMint idx U w w' →
      ∑ k ∈ U, w'.held idx.indexMint k = ∑ k ∈ U, w.held idx.indexMint k →
      ∀ c ∈ idx.components, ∑ k ∈ U, w'.held c.mint k ≤ ∑ k ∈ U, w.held c.mint k) := by
  have hW : AllWf ch w := (reachable_wf h).1
  obtain ⟨rfl, hwf⟩ := hW hidx
  have hC := hwf.custody
  obtain ⟨hW', idx', hidx', hmints, htr⟩ := trades_of_run hrun hW hC.inUse hidx
  have hvaults : w.supply idx.indexMint ≤ w'.supply idx.indexMint →
      ∀ c ∈ idx.components, w.vault ch idx.indexMint c ≤ w'.vault ch idx.indexMint c :=
    fun hle c hc => Pool.assets_le_of_run unitScale_pos (htr c hc) hS hle
  refine ⟨hvaults, fun U halone hsame c hc => ?_⟩
  have hC₂ := (hW'.wf hC.inUse hidx').custody
  have hC' : Custody ch idx.indexMint w' idx := hC₂.of_record
    (hC.header.1.trans hC₂.header.1.symm) (hC.header.2.trans hC₂.header.2.symm)
    hC₂.indexMint.symm hmints.symm
  have hne := h.mint_ne hC.inUse hidx hS.ne'
  have hle := hvaults (halone.supply_le hrun hW hC.inUse hidx hne hsame) c hc
  have hgain := halone.gain_le hC hC' hc
  have htot := (conserves_of_run hrun hW hC.inUse).2.total c.mint (hne c hc)
  omega

/-- An act that is a live step of the local index. -/
def liveAct (w : World) (act : Act) : Bool :=
  act.permitted && decide (0 < w.supply (addr 1)) &&
    endsIn (act.run localnet w) (fun w' => decide (0 < w'.supply (addr 1))) &&
    match act with
    | .call accounts ix => ix.isTrade && feeless w &&
        decide (accounts[ix.mintSlot]?.map AccountInfo.key = some (addr 1))
    | .burn _ m _ _ => decide (m = addr 1)
    | _ => true

theorem liveAct_live {w w' : World} {act : Act} (hc : liveAct w act = true)
    (h : act.run localnet w = .ok w') : LiveStep localnet (addr 1) w w' := by
  unfold liveAct at hc
  simp only [Bool.and_eq_true, decide_eq_true_eq, endsIn_iff] at hc
  obtain ⟨⟨⟨hp, hbefore⟩, w'', h'', hafter⟩, hc⟩ := hc
  obtain rfl := Except.ok.inj (h.symm.trans h'')
  refine ⟨?_, hbefore, hafter⟩
  cases act with
  | call accounts ix =>
    simp only [Bool.and_eq_true, decide_eq_true_eq] at hc
    exact .trade (Act.signable hp) h hc.2 hc.1.1 (noFeeDue_of_feeless hc.1.2)
  | tick t =>
    obtain ⟨ht, rfl⟩ := Act.tick_ok h
    exact .tick ht rfl
  | transfer s d a x =>
    exact .deposit (localnet_outsider (by simpa [Act.permitted] using hp)) h
  | burn s m a x =>
    rw [decide_eq_true_eq] at hc
    subst hc
    exact .burn (localnet_outsider (by simpa [Act.permitted] using hp)) h

/-- A round trip in odd amounts, around a deposit. -/
def roundTrip : List Act :=
  [localIssue 7, .transfer (addr 21) (addr 1002) (addr 40) 3, localRedeem 4, localIssue 11,
   localRedeem 13]

/-- Holder 40 issues, and redeems as much. -/
def issueAndRedeem (w : World) : Except ProgramError World := do
  let w ← (localIssue 11).run localnet w
  (localRedeem 11).run localnet w

/-- Accounts that neither is passed they leave alone. -/
theorem issueAndRedeem_frame {w w' : World} (h : issueAndRedeem w = .ok w') {k : Pubkey}
    (hk : k ∉ tradeAccounts.map AccountInfo.key) : w'.accounts k = w.accounts k := by
  obtain ⟨w₁, hissue, hredeem⟩ := bind_ok_iff.mp h
  have hissue' : process localnet w tradeAccounts
    (.issue 11 [2000000000000000000, 2000000000000000000]) = .ok w₁ := hissue
  have hredeem' : process localnet w₁ tradeAccounts (.redeem 11 [0, 0]) = .ok w' := hredeem
  have hunwritten : ∀ ix : FlockInstruction, k ∉ ix.written tradeAccounts := by
    rintro ix ⟨i, a, ha, -, rfl⟩
    exact hk (List.mem_map_of_mem (List.mem_of_getElem? ha))
  exact (process_frame hredeem' (hunwritten _)).trans (process_frame hissue' (hunwritten _))

/-- The accounts of a trade that are neither the holder's nor a vault. -/
def bystanders : List Pubkey := [addr 40, localIndex, addr 1, addr 30, addr 7]

/-- The holder did it alone: no other account but the vaults lost anything. -/
theorem issueAndRedeem_alone {w w' : World} (h : issueAndRedeem w = .ok w')
    (hstay : bystanders.all (fun k => decide (w'.token? k = w.token? k)) = true)
    (hvaults : idx.vaultKeys localnet (addr 1) = [addr 1002, addr 1003]) :
    Alone localnet (addr 1) idx {addr 20, addr 21, addr 22} w w' where
  vaults := by
    intro c hc
    have hkey : localnet.vaultKey (addr 1) c.mint ∈ [addr 1002, addr 1003] :=
      hvaults ▸ List.mem_map_of_mem hc
    generalize localnet.vaultKey (addr 1) c.mint = k at hkey
    simp only [List.mem_cons, List.not_mem_nil, or_false] at hkey
    rcases hkey with rfl | rfl <;> decide
  others := by
    intro k hk hnot x
    have htoken : w'.token? k = w.token? k := by
      by_cases hother : k ∈ bystanders
      · exact of_decide_eq_true (List.all_eq_true.mp hstay k hother)
      by_cases hvault : k ∈ [addr 1002, addr 1003]
      · rw [← hvaults] at hvault
        obtain ⟨c, hc, rfl⟩ := List.mem_map.mp hvault
        exact absurd rfl (hnot c hc)
      · have hpassed : k ∉ tradeAccounts.map AccountInfo.key := by
          simp only [Finset.mem_insert, Finset.mem_singleton, not_or] at hk
          simp only [bystanders, List.mem_cons, List.not_mem_nil, or_false, not_or] at hother hvault
          simp only [tradeAccounts, signer, account, indexAccount, List.map_cons, List.map_nil,
            List.mem_cons, List.not_mem_nil, or_false, not_or]
          obtain ⟨h20, h21, h22⟩ := hk
          obtain ⟨h40, hindex, h1, h30, h7⟩ := hother
          exact ⟨h40, hindex, h1, h20, h30, h7, hvault.1, h21, hvault.2, h22⟩
        rw [World.token?, World.token?, issueAndRedeem_frame h hpassed]
    unfold World.held
    rw [htoken]

/-- The round trip leaves one token more and no vault poorer, and the issue with its redemption
leaves the holder no richer. -/
theorem no_free_lunch_local : ∃ (w w₁ w₂ : World) (idx : Index), Reachable localnet w ∧
    w.index? localIndex = some idx ∧ idx.components.length = 2 ∧
    w.supply idx.indexMint < w₁.supply idx.indexMint ∧
    (∀ c ∈ idx.components, w.vault localnet idx.indexMint c ≤ w₁.vault localnet idx.indexMint c) ∧
    issueAndRedeem w = .ok w₂ ∧
    ∀ c ∈ idx.components, ∑ k ∈ {addr 20, addr 21, addr 22}, w₂.held c.mint k
      ≤ ∑ k ∈ {addr 20, addr 21, addr 22}, w.held c.mint k := by
  obtain ⟨w, idx, hreach, hidx, hp⟩ := exists_of_run
    (openFund ⟨0, 0, 0, 100⟩ 2000000 333333333 ++ [localIssue 5000000000])
    (fun w idx => decide (idx.indexMint = addr 1) && idx.components.length == 2 &&
      decide (idx.vaultKeys localnet (addr 1) = [addr 1002, addr 1003]) &&
      decide (0 < w.supply (addr 1)) &&
      endsIn (perform liveAct w roundTrip) (fun w₁ =>
        decide (w.supply (addr 1) < w₁.supply (addr 1))) &&
      liveAct w (localIssue 11) && endsIn ((localIssue 11).run localnet w) (fun w₁ =>
        liveAct w₁ (localRedeem 11)) &&
      endsIn (issueAndRedeem w) (fun w₂ =>
        bystanders.all (fun k => decide (w₂.token? k = w.token? k)) &&
        decide ((w₂.held (addr 1) (addr 20), w₂.held (addr 1) (addr 21), w₂.held (addr 1) (addr 22))
          = (w.held (addr 1) (addr 20), w.held (addr 1) (addr 21), w.held (addr 1) (addr 22)))))
    (by decide +kernel)
  simp only [Bool.and_eq_true, decide_eq_true_eq, beq_iff_eq, endsIn_iff, Prod.mk.injEq] at hp
  obtain ⟨⟨⟨⟨⟨⟨⟨hm, hlen⟩, hvaults⟩, hS⟩, w₁, hw₁, hS₁⟩, hlive⟩, v, hv, hlive'⟩, w₂, hw₂, hstay,
    h20, h21, h22⟩ := hp
  have halone := issueAndRedeem_alone hw₂ hstay hvaults
  obtain ⟨v', hissue, hredeem⟩ := bind_ok_iff.mp hw₂
  obtain rfl := Except.ok.inj (hv.symm.trans hissue)
  rw [← hm] at hS hS₁ halone h20 h21 h22
  have hrun : Relation.ReflTransGen (LiveStep localnet idx.indexMint) w w₁ := by
    rw [hm]
    exact perform_run liveAct_live hw₁
  have hback : Relation.ReflTransGen (LiveStep localnet idx.indexMint) w w₂ := by
    rw [hm]
    exact .tail (.single (liveAct_live hlive hissue)) (liveAct_live hlive' hredeem)
  have hsame : ∑ k ∈ {addr 20, addr 21, addr 22}, w₂.held idx.indexMint k
      = ∑ k ∈ {addr 20, addr 21, addr 22}, w.held idx.indexMint k := by
    refine Finset.sum_congr rfl fun k hk => ?_
    simp only [Finset.mem_insert, Finset.mem_singleton] at hk
    rcases hk with rfl | rfl | rfl
    · exact h20
    · exact h21
    · exact h22
  exact ⟨w, w₁, w₂, idx, hreach, hidx, hlen, hS₁, (no_free_lunch hreach hidx hS hrun).1 hS₁.le, hw₂,
    (no_free_lunch hreach hidx hS hback).2 _ halone hsame⟩

end Flock
