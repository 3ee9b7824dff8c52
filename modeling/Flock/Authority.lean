import Flock.Localnet
import Flock.Record

/-!
# Who may change what

The governor sets rates, keys and the pause; the manager sets targets and
prices. `AuthorityKept` says which signature a single call needs to change which
field, and `authority_boundaries` reads from it what a run can do in which
neither of the two keys signs: it can close an auction that has expired, and
otherwise none of these fields moves, whoever calls and whatever accounts they
name. The keys themselves are among the fields, so nobody can sign their way in
half-way through the run.
-/

namespace Flock

open Outcome MachineInt

variable {ch : Chain} {m : Pubkey} {w w' : World} {idx idx' : Index}

/-- The rates, the limits and the keys of an index. -/
structure Settings where
  streamingFeeBps : UInt16
  issueFeeBps : UInt16
  redeemFeeBps : UInt16
  maxPremiumBps : UInt16
  rebalanceDelay : UInt32
  governor : Pubkey
  manager : Pubkey
  feeRecipient : Pubkey

def Index.settings (idx : Index) : Settings :=
  { streamingFeeBps := idx.streamingFeeBps
    issueFeeBps := idx.issueFeeBps
    redeemFeeBps := idx.redeemFeeBps
    maxPremiumBps := idx.maxPremiumBps
    rebalanceDelay := idx.rebalanceDelay
    governor := idx.governor
    manager := idx.manager
    feeRecipient := idx.feeRecipient }

def Index.targets (idx : Index) : List UInt64 := idx.components.map Component.targetUnits

def Index.prices (idx : Index) : List UInt64 := idx.components.map Component.refPriceE9

/-- The targets, the prices and the auction are the same in both records. -/
structure SameMandate (idx idx' : Index) : Prop where
  targets : idx'.targets = idx.targets
  prices : idx'.prices = idx.prices
  rebalance : idx'.rebalance = idx.rebalance

/-- What a successful call on an index had to carry for what it changed. -/
structure AuthorityKept (w : World) (accounts : List AccountInfo) (ix : FlockInstruction)
    (idx idx' : Index) : Prop where
  settings : idx'.settings ≠ idx.settings → SignedBy idx.governor accounts
  released : idx.state = statePaused → idx'.state = stateLive → SignedBy idx.governor accounts
  braked : idx.state = stateLive → idx'.state = statePaused →
    SignedBy idx.governor accounts ∨ SignedBy idx.manager accounts
  mandate : ¬ SameMandate idx idx' →
    (∃ targets prices duration startPremium endPremium maxNavLoss,
      ix = .proposeRebalance targets prices duration startPremium endPremium maxNavLoss ∧
        SignedBy idx.manager accounts) ∨
    (∃ units, ix = .addComponent units ∧ idx.state = stateBootstrapping) ∨
    (ix = .endRebalance ∧ (SignedBy idx.manager accounts ∨ idx.rebalance.endTs < w.clock))

theorem SameMandate.refl (idx : Index) : SameMandate idx idx := ⟨rfl, rfl, rfl⟩

theorem AuthorityKept.refl (accounts : List AccountInfo) (ix : FlockInstruction) (idx : Index) :
    AuthorityKept w accounts ix idx idx where
  settings := fun hne => absurd rfl hne
  released := fun hp hl => absurd (hp.symm.trans hl) (by decide)
  braked := fun hl hp => absurd (hl.symm.trans hp) (by decide)
  mandate := fun hne => absurd (SameMandate.refl idx) hne

/-- A change that keeps the state is neither a release nor a brake. -/
theorem AuthorityKept.of_state {accounts : List AccountInfo} {ix : FlockInstruction}
    (hst : idx'.state = idx.state)
    (hset : idx'.settings ≠ idx.settings → SignedBy idx.governor accounts)
    (hman : ¬ SameMandate idx idx' →
      (∃ targets prices duration startPremium endPremium maxNavLoss,
        ix = .proposeRebalance targets prices duration startPremium endPremium maxNavLoss ∧
          SignedBy idx.manager accounts) ∨
      (∃ units, ix = .addComponent units ∧ idx.state = stateBootstrapping) ∨
      (ix = .endRebalance ∧ (SignedBy idx.manager accounts ∨ idx.rebalance.endTs < w.clock))) :
    AuthorityKept w accounts ix idx idx' where
  settings := hset
  released := fun hp hl => absurd (hp.symm.trans (hst.symm.trans hl)) (by decide)
  braked := fun hl hp => absurd (hl.symm.trans (hst.symm.trans hp)) (by decide)
  mandate := hman

theorem Index.Refreshes.sameMandate (h : idx.Refreshes idx') : SameMandate idx idx' where
  targets := map_eq_of_shape _ (fun _ => rfl) h.shape
  prices := map_eq_of_shape _ (fun _ => rfl) h.shape
  rebalance := by rw [h.record]

theorem Index.Refreshes.settings (h : idx.Refreshes idx') : idx'.settings = idx.settings := by
  rw [h.record]
  rfl

theorem Ended.signed {accounts : List AccountInfo} {caller : Pubkey}
    (h : Ended ch m idx w w' caller) (hs : SignedBy caller accounts) :
    SignedBy idx.manager accounts ∨ idx.rebalance.endTs < w.clock := by
  rcases h.allowed with hlate | hman
  · exact .inr hlate
  · exact .inl (hman ▸ hs)

theorem Index.closed_synced_settings (ch : Chain) (m : Pubkey) (w : World) (idx : Index) :
    (idx.synced ch m w).closed.settings = idx.settings ∧
      (idx.synced ch m w).closed.state = idx.state := by
  rw [Index.closed, Index.synced_eq]
  exact ⟨rfl, rfl⟩

/-- The step lemma, one case for each way a record changes. -/
theorem RecordChange.authorityKept {accounts : List AccountInfo} {ix : FlockInstruction}
    (h : RecordChange ch m w w' accounts idx ix idx') : AuthorityKept w accounts ix idx idx' := by
  cases h with
  | market market sealed refreshes =>
    refine .of_state ?_ (fun hne => absurd refreshes.settings hne)
      fun hne => absurd refreshes.sameMandate hne
    rw [refreshes.record]
  | added signed done =>
    exact .of_state rfl (fun hne => absurd rfl hne) fun _ => .inr (.inl ⟨_, rfl, done.bootstrapping⟩)
  | sealed signed done =>
    have hboot := done.bootstrapping
    exact
      { settings := fun hne => absurd rfl hne
        released := fun hp _ => absurd (hp.symm.trans hboot) (by decide)
        braked := fun hl _ => absurd (hl.symm.trans hboot) (by decide)
        mandate := fun hne => absurd ⟨rfl, rfl, rfl⟩ hne }
  | proposed signed done =>
    exact .of_state rfl (fun hne => absurd rfl hne) fun _ =>
      .inl ⟨_, _, _, _, _, _, rfl, signed⟩
  | ended signed done =>
    obtain ⟨hset, hst⟩ := idx.closed_synced_settings ch m w
    exact .of_state hst (fun hne => absurd hset hne) fun _ =>
      .inr (.inr ⟨rfl, done.signed signed⟩)
  | params signed fees =>
    exact .of_state rfl (fun _ => signed) fun hne => absurd ⟨rfl, rfl, rfl⟩ hne
  | authority signed =>
    obtain ⟨hst, hreb⟩ := idx.withAuthority_state _ _
    refine .of_state hst (fun _ => signed) fun hne => absurd ⟨?_, ?_, hreb⟩ hne
    · rw [Index.targets, Index.withAuthority_components, Index.targets]
    · rw [Index.prices, Index.withAuthority_components, Index.prices]
  | @paused paused sealed brake release =>
    refine ⟨fun hne => absurd rfl hne, fun _ hl => ?_, fun _ hp => ?_,
      fun hne => absurd ⟨rfl, rfl, rfl⟩ hne⟩
    · cases paused with
      | true => exact absurd (show statePaused = stateLive from hl) (by decide)
      | false => exact release rfl
    · cases paused with
      | true => exact brake rfl
      | false => exact absurd (show stateLive = statePaused from hp) (by decide)

/-! ## Runs without the two keys -/

/-- A step in which neither of two keys signs. -/
inductive StrangerStep (ch : Chain) (governor manager : Pubkey) (w w' : World) : Prop where
  | call {accounts : List AccountInfo} {ix : FlockInstruction} (signable : Signable ch accounts)
      (done : process ch w accounts ix = .ok w') (noGovernor : ¬ SignedBy governor accounts)
      (noManager : ¬ SignedBy manager accounts) : StrangerStep ch governor manager w w'
  | outside (h : Outside ch w w') : StrangerStep ch governor manager w w'

theorem StrangerStep.step {governor manager : Pubkey} (h : StrangerStep ch governor manager w w') :
    Step ch w w' := by
  cases h with
  | call signable done noGovernor noManager => exact .call signable done
  | outside ho => exact .outside ho

/-- Between the two worlds an auction that had expired was closed: the targets
are the units of that moment, and of the auction there remains who proposed it
and when. -/
structure ExpiryClosed (ch : Chain) (m : Pubkey) (w w' : World) (idx idx' : Index) : Prop where
  intro ::
  closing : ∃ w₁ w₂ idx₁ accounts,
    Relation.ReflTransGen (StrangerStep ch idx.governor idx.manager) w w₁ ∧
    process ch w₁ accounts .endRebalance = .ok w₂ ∧
    Relation.ReflTransGen (StrangerStep ch idx.governor idx.manager) w₂ w' ∧
    w₁.index? (ch.indexKey m) = some idx₁ ∧ idx.rebalance.endTs < w₁.clock ∧
    idx'.targets = (idx₁.synced ch m w₁).components.map Component.units
  active : idx.rebalance.active ≠ 0
  prices : idx'.prices = idx.prices
  rebalance : idx'.rebalance = { Rebalance.default with
    proposer := idx.rebalance.proposer
    proposedAt := idx.rebalance.proposedAt }

/-- What is left of a record after a run without the two keys. -/
structure Untouched (ch : Chain) (m : Pubkey) (w w' : World) (idx idx' : Index) : Prop where
  settings : idx'.settings = idx.settings
  state : idx'.state = idx.state
  mandate : SameMandate idx idx' ∨ ExpiryClosed ch m w w' idx idx'

theorem SameMandate.trans {idx'' : Index} (h : SameMandate idx idx') (h' : SameMandate idx' idx'') :
    SameMandate idx idx'' :=
  ⟨h'.targets.trans h.targets, h'.prices.trans h.prices, h'.rebalance.trans h.rebalance⟩

/-- One more step that leaves the mandate alone. -/
theorem ExpiryClosed.tail {idx'' : Index} {w'' : World} (h : ExpiryClosed ch m w w' idx idx')
    (hstep : StrangerStep ch idx.governor idx.manager w' w'') (h' : SameMandate idx' idx'') :
    ExpiryClosed ch m w w'' idx idx'' := by
  obtain ⟨⟨w₁, w₂, idx₁, accounts, hrun, hend, hrest, hidx₁, hlate, htargets⟩, hact, hprices,
    hreb⟩ := h
  exact ⟨⟨w₁, w₂, idx₁, accounts, hrun, hend, hrest.tail hstep, hidx₁, hlate,
    h'.targets.trans htargets⟩, hact, h'.prices.trans hprices, h'.rebalance.trans hreb⟩

/-- A step that leaves the record alone. -/
theorem Untouched.tail {w'' : World} (h : Untouched ch m w w' idx idx')
    (hstep : StrangerStep ch idx.governor idx.manager w' w'') : Untouched ch m w w'' idx idx' :=
  ⟨h.settings, h.state, h.mandate.imp_right fun hc => hc.tail hstep (SameMandate.refl idx')⟩

/-- A closed record has the units for targets. -/
theorem Index.closed_targets : idx.closed.targets = idx.components.map Component.units ∧
    idx.closed.prices = idx.prices := by
  rw [Index.targets, Index.prices, Index.closed, List.map_map, List.map_map]
  exact ⟨rfl, rfl⟩

/-- One more change of the record, without the two keys. -/
theorem Untouched.change {accounts : List AccountInfo} {ix : FlockInstruction} {w₁ w₂ : World}
    {idx₁ idx₂ : Index} (h : Untouched ch m w w₁ idx idx₁)
    (hrun : Relation.ReflTransGen (StrangerStep ch idx.governor idx.manager) w w₁)
    (hidx₁ : w₁.index? (ch.indexKey m) = some idx₁) (signable : Signable ch accounts)
    (hdone : process ch w₁ accounts ix = .ok w₂)
    (hchange : RecordChange ch m w₁ w₂ accounts idx₁ ix idx₂)
    (hgov : ¬ SignedBy idx.governor accounts) (hman : ¬ SignedBy idx.manager accounts) :
    Untouched ch m w w₂ idx idx₂ := by
  obtain ⟨hset, hst, hmandate⟩ := h
  have hstep : StrangerStep ch idx.governor idx.manager w₁ w₂ := .call signable hdone hgov hman
  have hgov₁ : ¬ SignedBy idx₁.governor accounts := by
    rw [show idx₁.governor = idx.governor from congrArg Settings.governor hset]
    exact hgov
  have hman₁ : ¬ SignedBy idx₁.manager accounts := by
    rw [show idx₁.manager = idx.manager from congrArg Settings.manager hset]
    exact hman
  cases hchange with
  | market market sealed refreshes =>
    refine ⟨refreshes.settings.trans hset, ?_, ?_⟩
    · rw [refreshes.record]
      exact hst
    · exact hmandate.imp (fun hs => hs.trans refreshes.sameMandate)
        fun hc => hc.tail hstep refreshes.sameMandate
  | added signed done => exact absurd signed hman₁
  | sealed signed done => exact absurd signed hman₁
  | proposed signed done => exact absurd signed hman₁
  | ended signed done =>
    obtain ⟨hset', hst'⟩ := idx₁.closed_synced_settings ch m w₁
    refine ⟨hset'.trans hset, hst'.trans hst, .inr ?_⟩
    rcases hmandate with hsame | hclosed
    · have hreb := hsame.rebalance
      have hlate := (done.signed signed).resolve_left hman₁
      have hprices : (idx₁.synced ch m w₁).prices = idx₁.prices :=
        Index.synced_map ch m w₁ idx₁ Component.refPriceE9 fun _ _ => rfl
      refine ⟨⟨w₁, w₂, idx₁, accounts, hrun, hdone, .refl, hidx₁, hreb ▸ hlate,
        Index.closed_targets.1⟩, hreb ▸ done.active,
        Index.closed_targets.2.trans (hprices.trans hsame.prices), ?_⟩
      rw [← hreb, Index.closed, Index.synced_eq]
    · -- it was closed before, and a closed auction cannot be closed again
      have hact := done.active
      rw [hclosed.rebalance] at hact
      exact absurd rfl hact
  | params signed fees => exact absurd signed hgov₁
  | authority signed => exact absurd signed hgov₁
  | @paused paused sealed brake release =>
    cases paused with
    | true => exact ((brake rfl).elim hgov₁ hman₁).elim
    | false => exact absurd (release rfl) hgov₁

/-- The run lemma. -/
theorem untouched_of_run (hW : AllWf ch w) (hm : ch.inUse m)
    (hidx : w.index? (ch.indexKey m) = some idx)
    (hrun : Relation.ReflTransGen (StrangerStep ch idx.governor idx.manager) w w') :
    AllWf ch w' ∧ ∃ idx', w'.index? (ch.indexKey m) = some idx' ∧
      Untouched ch m w w' idx idx' := by
  induction hrun with
  | refl => exact ⟨hW, idx, hidx, rfl, rfl, .inl (SameMandate.refl idx)⟩
  | tail hrun hstep ih =>
    obtain ⟨hW₁, idx₁, hidx₁, huntouched⟩ := ih
    refine ⟨hstep.step.allWf hW₁, ?_⟩
    have hsame := huntouched.tail hstep
    cases hstep with
    | outside ho => exact ⟨idx₁, by rw [ho.records, hidx₁], hsame⟩
    | call signable done noGovernor noManager =>
      rcases hW₁.record_cases hm hidx₁ signable done with
        ⟨-, hrecord⟩ | ⟨-, idx₂, hidx₂, hchange⟩
      · exact ⟨idx₁, hrecord, hsame⟩
      · exact ⟨idx₂, hidx₂,
          huntouched.change hrun hidx₁ signable done hchange noGovernor noManager⟩

/-- From every reachable world: a successful call changes the rates, the limits
and the keys of an index only with the governor's signature, releases the pause
only with the governor's and sets it with either's, and changes targets, prices
and auction only as a proposal the manager signed, before the seal, or as a
closing that the manager signed or that comes after the end. And over any run in
which neither key signs nothing of this changes, but for an expired auction
being closed. -/
theorem authority_boundaries (h : Reachable ch w) {k : Pubkey} (hidx : w.index? k = some idx) :
    (∀ {accounts : List AccountInfo} {ix : FlockInstruction} {w' : World}, Signable ch accounts →
      process ch w accounts ix = .ok w' →
      ∃ idx', w'.index? k = some idx' ∧ AuthorityKept w accounts ix idx idx' ∧
        (Concerns idx.indexMint accounts ix → ix = .endRebalance →
          SignedBy idx.manager accounts ∨ idx.rebalance.endTs < w.clock)) ∧
    (∀ {w' : World}, Relation.ReflTransGen (StrangerStep ch idx.governor idx.manager) w w' →
      ∃ idx', w'.index? k = some idx' ∧ Untouched ch idx.indexMint w w' idx idx') := by
  have hW : AllWf ch w := (reachable_wf h).1
  obtain ⟨rfl, hwf⟩ := hW hidx
  have hm := hwf.custody.inUse
  refine ⟨fun {accounts ix w'} signable done => ?_, fun {w'} hrun => ?_⟩
  · rcases hW.record_cases hm hidx signable done with ⟨hne, hsame⟩ | ⟨-, idx', hidx', hchange⟩
    · exact ⟨idx, hsame, AuthorityKept.refl accounts ix idx, fun hc => absurd hc hne⟩
    · refine ⟨idx', hidx', hchange.authorityKept, fun _ hend => ?_⟩
      cases hchange with
      | ended signed closing => exact closing.signed signed
      | market market => rw [hend] at market; cases market
      | added | sealed | proposed | params | authority | paused => cases hend
  · exact (untouched_of_run hW hm hidx hrun).2

/-- A permitted act that the keys 60 and 61 have no part in. -/
def strangerAct (_ : World) (act : Act) : Bool :=
  act.permitted && match act with
    | .call accounts _ => accounts.all fun a =>
        ! a.isSigner || (decide (a.key ≠ addr 60) && decide (a.key ≠ addr 61))
    | _ => true

theorem strangerAct_stranger {act : Act} (hc : strangerAct w act = true)
    (h : act.run localnet w = .ok w') : StrangerStep localnet (addr 60) (addr 61) w w' := by
  unfold strangerAct at hc
  rw [Bool.and_eq_true] at hc
  obtain ⟨hp, hc⟩ := hc
  by_cases hcall : ∀ accounts ix, act ≠ .call accounts ix
  · exact .outside (Act.outside hp hcall h)
  · simp only [not_forall, not_not] at hcall
    obtain ⟨accounts, ix, rfl⟩ := hcall
    simp only [List.all_eq_true, Bool.or_eq_true, Bool.not_eq_true', Bool.and_eq_true,
      decide_eq_true_eq] at hc
    refine .call (Act.signable hp) h ?_ ?_ <;> rintro ⟨a, ha, hs, hk⟩ <;>
      rcases hc a ha with hns | ⟨h60, h61⟩
    · rw [hns] at hs
      cases hs
    · exact h60 hk
    · rw [hns] at hs
      cases hs
    · exact h61 hk

/-- Holder 40 closes the local auction after its end, and goes on trading. -/
theorem authority_boundaries_local : ∃ (w w' : World) (idx : Index), Reachable localnet w ∧
    w.index? localIndex = some idx ∧ idx.rebalance.active = 1 ∧
    Relation.ReflTransGen (StrangerStep localnet idx.governor idx.manager) w w' ∧
    ∃ idx', w'.index? localIndex = some idx' ∧ idx'.rebalance.active = 0 ∧
      Untouched localnet idx.indexMint w w' idx idx' := by
  obtain ⟨w, idx, hreach, hidx, hp⟩ := exists_of_run
    (openFund ⟨100, 0, 0, 100⟩ 2000000 333333333 ++ [localIssue 5000000000,
      localPropose 2050000 330000000 1000000000 30000000000 0 0])
    (fun w idx => decide (idx.governor = addr 60) && decide (idx.manager = addr 61) &&
      decide (idx.rebalance.active = 1) &&
      endsIn (perform strangerAct w [localRedeem 7, .tick 3901,
        .call [signer 40, indexAccount, account 1, account 1002, account 1003] .endRebalance,
        localIssue 11]) (indexPasses fun _ idx' => decide (idx'.rebalance.active = 0)))
    (by decide +kernel)
  simp only [Bool.and_eq_true, decide_eq_true_eq, endsIn_iff, indexPasses_iff] at hp
  obtain ⟨⟨⟨hgov, hman⟩, hact⟩, w', hw', idx', hidx', hclosed⟩ := hp
  have hrun : Relation.ReflTransGen (StrangerStep localnet idx.governor idx.manager) w w' := by
    rw [hgov, hman]
    exact perform_run strangerAct_stranger hw'
  obtain ⟨idx'', hidx'', huntouched⟩ := (authority_boundaries hreach hidx).2 hrun
  obtain rfl := Option.some.inj (hidx'.symm.trans hidx'')
  exact ⟨w, w', idx, hreach, hidx, hact, hrun, idx', hidx', hclosed, huntouched⟩

end Flock
