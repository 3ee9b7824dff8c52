import Flock.Authority
import Flock.Lifecycle
import Flock.NavLoss

/-!
# Where a fill comes from

Every auction was proposed: a record with an auction in it goes back to one call
of the history, the latest proposal, and what the record says of targets, prices,
band, floor and window is what that call fixed. `Provenance` is the invariant; a
market operation and a change of parameters or keys keep it, a proposal renews
it, and a closing leaves no auction to account for. A fill then inherits the
window: it comes no earlier than the notice the index demanded when the proposal
was made, whatever has been done to that delay or to the manager's key since.
-/

namespace Flock

open Outcome MachineInt

variable {ch : Chain} {m : Pubkey} {w₀ w w' : World} {idx idx' : Index}

/-! ## Histories -/

/-- One successful call of a history. -/
structure Entry where
  before : World
  accounts : List AccountInfo
  ix : FlockInstruction
  after : World

/-- A run from `w₀` with its calls in order. -/
inductive History (ch : Chain) (w₀ : World) : List Entry → World → Prop where
  | start : History ch w₀ [] w₀
  | call {calls w accounts ix w'} (run : History ch w₀ calls w) (signable : Signable ch accounts)
      (done : process ch w accounts ix = .ok w') :
      History ch w₀ (calls ++ [⟨w, accounts, ix, w'⟩]) w'
  | outside {calls w w'} (run : History ch w₀ calls w) (step : Outside ch w w') :
      History ch w₀ calls w'

theorem History.reachable {calls : List Entry} (h : History ch w₀ calls w) (hg : Genesis w₀) :
    Reachable ch w := by
  induction h with
  | start => exact ⟨w₀, hg, .refl⟩
  | call run signable done ih => exact ih.step (.call signable done)
  | outside run step ih => exact ih.step (.outside step)

/-- Every run has a history. -/
theorem exists_history (h : Relation.ReflTransGen (Step ch) w₀ w) :
    ∃ calls, History ch w₀ calls w := by
  induction h with
  | refl => exact ⟨[], .start⟩
  | tail _ hstep ih =>
    obtain ⟨calls, hrun⟩ := ih
    cases hstep with
    | call signable done => exact ⟨_, hrun.call signable done⟩
    | outside ho => exact ⟨calls, hrun.outside ho⟩

def FlockInstruction.isProposal : FlockInstruction → Bool
  | .proposeRebalance .. => true
  | _ => false

def FlockInstruction.isClosing : FlockInstruction → Bool
  | .endRebalance => true
  | _ => false

/-- The call proposed an auction for the index of `m`. -/
def Entry.Proposes (m : Pubkey) (e : Entry) : Prop :=
  Concerns m e.accounts e.ix ∧ e.ix.isProposal = true

/-- The call closed the auction of the index of `m`. -/
def Entry.Closes (m : Pubkey) (e : Entry) : Prop :=
  Concerns m e.accounts e.ix ∧ e.ix.isClosing = true

/-! ## What a proposal fixes -/

/-- The call `e` is a proposal the manager of the moment signed on a live index,
and the auction in `idx` is the one it proposed: the window opens the delay of
the moment later and closes within a week, and targets, prices, band and floor
are those of the call. -/
inductive Entry.Authorizes (ch : Chain) (m : Pubkey) : Entry → Index → Prop where
  | intro {before after : World} {accounts : List AccountInfo} {targets prices : List UInt64}
      {p : AuctionParams} {idx₀ idx : Index}
      (record : before.index? (ch.indexKey m) = some idx₀)
      (signed : SignedBy idx₀.manager accounts) (live : idx₀.state = stateLive)
      (delay : 300 ≤ idx₀.rebalanceDelay.toNat) (duration : p.duration.toNat ≤ 604800)
      (opens : idx.rebalance.startTs.toInt = before.clock.toInt + idx₀.rebalanceDelay.toNat)
      (closes : idx.rebalance.endTs.toInt
        = before.clock.toInt + idx₀.rebalanceDelay.toNat + p.duration.toNat)
      (targets_eq : idx.targets = targets) (prices_eq : idx.prices = prices)
      (startPremium : idx.rebalance.startPremiumBps = p.startPremiumBps)
      (endPremium : idx.rebalance.endPremiumBps = p.endPremiumBps)
      (navFloor : idx.rebalance.navFloorE6.toNat
        = navAt ch m after * (10000 - p.maxNavLossBps.toNat) / 10000) :
      Entry.Authorizes ch m ⟨before, accounts, .proposeRebalance targets prices p.duration
        p.startPremiumBps p.endPremiumBps p.maxNavLossBps, after⟩ idx

theorem Entry.Authorizes.of_same {e : Entry} (h : e.Authorizes ch m idx)
    (hs : SameMandate idx idx') : e.Authorizes ch m idx' := by
  obtain ⟨htargets, hprices, hreb⟩ := hs
  cases h with
  | intro record signed live delay duration opens closes targets_eq prices_eq startPremium
      endPremium navFloor =>
    rw [← hreb] at opens closes startPremium endPremium navFloor
    exact .intro record signed live delay duration opens closes (htargets.trans targets_eq)
      (hprices.trans prices_eq) startPremium endPremium navFloor

theorem Proposed.authorizes {accounts : List AccountInfo} {targets prices : List UInt64}
    {p : AuctionParams} {manager : Pubkey} {nav navFloor : UInt64} {startTs endTs : Int64}
    (h : Proposed ch m idx w w' targets prices p manager nav navFloor startTs endTs)
    (hidx : w.index? (ch.indexKey m) = some idx) (hf : FeesInBounds idx.streamingFeeBps
      idx.issueFeeBps idx.redeemFeeBps idx.maxPremiumBps idx.rebalanceDelay)
    (signed : SignedBy idx.manager accounts) (hidx' : w'.index? (ch.indexKey m) = some idx') :
    Entry.Authorizes ch m ⟨w, accounts, .proposeRebalance targets prices p.duration
      p.startPremiumBps p.endPremiumBps p.maxNavLossBps, w'⟩ idx' := by
  obtain ⟨hstart, hend, -, hlong⟩ := h.window
  obtain ⟨htargets, hprices⟩ := writeTargets_written h.targets_length h.prices_length
  obtain ⟨idx₁, hidx₁, hfloor⟩ := h.floor hidx hf.premium
  obtain rfl := Option.some.inj (hidx'.symm.trans hidx₁)
  have hworld := h.world
  subst hworld
  rw [World.index?_setIndex_self] at hidx'
  obtain rfl := Option.some.inj hidx'
  exact .intro hidx signed h.live hf.delay hlong hstart (by rw [← hstart]; exact hend) htargets
    hprices rfl rfl hfloor

/-! ## The invariant -/

/-- The auction in `idx` goes back to a call of the history that no later proposal
or closing followed. -/
structure Provenance (ch : Chain) (m : Pubkey) (calls : List Entry) (idx : Index) : Prop where
  intro ::
  latest : ∃ pre e post, calls = pre ++ e :: post ∧ e.Proposes m ∧ e.Authorizes ch m idx ∧
    ∀ x ∈ post, ¬ x.Proposes m ∧ ¬ x.Closes m

/-- A call that neither proposes nor closes, and keeps what the proposal fixed. -/
theorem Provenance.extend {calls : List Entry} {x : Entry} (h : Provenance ch m calls idx)
    (hs : SameMandate idx idx') (hp : ¬ x.Proposes m) (hc : ¬ x.Closes m) :
    Provenance ch m (calls ++ [x]) idx' := by
  obtain ⟨pre, e, post, rfl, he, hauth, hpost⟩ := h
  refine ⟨pre, e, post ++ [x], by rw [List.append_assoc, List.cons_append], he,
    hauth.of_same hs, fun y hy => ?_⟩
  rcases List.mem_append.mp hy with hy | hy
  · exact hpost y hy
  · obtain rfl := List.mem_singleton.mp hy
    exact ⟨hp, hc⟩

theorem isMarket_cases {ix : FlockInstruction} (h : ix.isMarket = true) :
    ix.isProposal = false ∧ ix.isClosing = false := by
  cases ix <;> first | exact ⟨rfl, rfl⟩ | cases h

/-- The run lemma: in every history, an auction has its provenance. -/
theorem History.provenance {calls : List Entry} (h : History ch w₀ calls w) (hg : Genesis w₀)
    (hm : ch.inUse m) (hidx : w.index? (ch.indexKey m) = some idx)
    (hact : idx.rebalance.active ≠ 0) : Provenance ch m calls idx := by
  induction h generalizing idx with
  | start =>
    rw [hg.fresh] at hidx
    cases hidx
  | outside run step ih =>
    rw [step.records] at hidx
    exact ih hidx hact
  | @call calls w accounts ix w' run signable done ih =>
    have hreach := run.reachable hg
    have hW : AllWf ch w := (reachable_wf hreach).1
    -- a call of another kind than the two that write auctions
    have hother : ∀ {idx₀ : Index}, w.index? (ch.indexKey m) = some idx₀ → SameMandate idx₀ idx →
        ix.isProposal = false → ix.isClosing = false →
        Provenance ch m (calls ++ [⟨w, accounts, ix, w'⟩]) idx := by
      intro idx₀ hidx₀ hs hp hc
      refine (ih hidx₀ (hs.rebalance ▸ hact)).extend hs (fun h => ?_) fun h => ?_
      · exact absurd (h.2.symm.trans hp) (by decide)
      · exact absurd (h.2.symm.trans hc) (by decide)
    rcases hW.record_origin hm signable done hidx with
      ⟨idx₀, hidx₀, ⟨hne, rfl⟩ | ⟨hcon, hchange⟩⟩ | ⟨_, _, _, _, _, rfl⟩
    · exact (ih hidx₀ hact).extend (SameMandate.refl idx) (fun h => hne h.1) fun h => hne h.1
    · have hwf := hW.wf hm hidx₀
      have horder := reachable_orderly hreach hm hidx₀
      cases hchange with
      | market market sealed refreshes =>
        obtain ⟨hp, hc⟩ := isMarket_cases market
        exact hother hidx₀ refreshes.sameMandate hp hc
      | added signed added => exact absurd added.bootstrapping (horder hact).sealed
      | sealed signed sealed => exact absurd sealed.bootstrapping (horder hact).sealed
      | proposed signed proposed =>
        exact ⟨calls, _, [], rfl, ⟨hcon, rfl⟩, proposed.authorizes hidx₀ hwf.fees signed hidx,
          fun x hx => absurd hx List.not_mem_nil⟩
      | ended signed ended => exact absurd rfl hact
      | params signed fees => exact hother hidx₀ ⟨rfl, rfl, rfl⟩ rfl rfl
      | authority signed =>
        refine hother hidx₀ ⟨?_, ?_, (Index.withAuthority_state _ _ _).2⟩ rfl rfl
        · rw [Index.targets, Index.withAuthority_components, Index.targets]
        · rw [Index.prices, Index.withAuthority_components, Index.prices]
      | paused sealed brake release => exact hother hidx₀ ⟨rfl, rfl, rfl⟩ rfl rfl
    · -- a new record has no auction
      exact absurd rfl hact

/-! ## The result -/

/-- There is one latest element with a property. -/
theorem latest_unique {α : Type} {p : α → Prop} {pre pre' post post' : List α} {e e' : α}
    (h : pre ++ e :: post = pre' ++ e' :: post') (he : p e) (he' : p e')
    (hpost : ∀ x ∈ post, ¬ p x) (hpost' : ∀ x ∈ post', ¬ p x) :
    pre' = pre ∧ e' = e ∧ post' = post := by
  rcases List.append_eq_append_iff.mp h with ⟨as, hpre, has⟩ | ⟨bs, hpre, hbs⟩
  · cases as with
    | nil =>
      obtain ⟨rfl, rfl⟩ := List.cons.inj has
      exact ⟨by rw [hpre, List.append_nil], rfl, rfl⟩
    | cons a as =>
      obtain ⟨-, rfl⟩ := List.cons.inj has
      exact absurd he' (hpost e' (by simp))
  · cases bs with
    | nil =>
      obtain ⟨rfl, rfl⟩ := List.cons.inj hbs
      exact ⟨by rw [hpre, List.append_nil], rfl, rfl⟩
    | cons b bs =>
      obtain ⟨-, rfl⟩ := List.cons.inj hbs
      exact absurd he (hpost' e (by simp))

/-- In every history and for every bid that is filled: there is one latest
proposal before it, no closing came after that, and it authorizes the fill. The
fill comes inside the window the proposal announced, at least five minutes after
it and at least the delay then in force, and on the terms it fixed. -/
theorem fill_provenance (hg : Genesis w₀) {calls : List Entry} (hrun : History ch w₀ calls w)
    {k : Pubkey} (hidx : w.index? k = some idx) {accounts : List AccountInfo}
    (signable : Signable ch accounts) {s b : UInt8} {sellAmount maxBuyAmount : UInt64}
    (done : process ch w accounts (.bid s b sellAmount maxBuyAmount) = .ok w')
    (hcon : Concerns idx.indexMint accounts (.bid s b sellAmount maxBuyAmount)) :
    ∃ pre e post, calls = pre ++ e :: post ∧ e.Proposes idx.indexMint ∧
      (∀ x ∈ post, ¬ x.Proposes idx.indexMint ∧ ¬ x.Closes idx.indexMint) ∧
      (∀ pre' e' post', calls = pre' ++ e' :: post' → e'.Proposes idx.indexMint →
        (∀ x ∈ post', ¬ x.Proposes idx.indexMint) → pre' = pre ∧ e' = e ∧ post' = post) ∧
      e.Authorizes ch idx.indexMint idx ∧
      idx.rebalance.startTs ≤ w.clock ∧ w.clock ≤ idx.rebalance.endTs := by
  have hreach := hrun.reachable hg
  have hW : AllWf ch w := (reachable_wf hreach).1
  obtain ⟨rfl, hwf⟩ := hW hidx
  have hm := hwf.custody.inUse
  have hfill : Fill ch idx.indexMint w w' := .bid signable done hcon
  obtain ⟨_, _, _, _, _, _, _, _, _, _, _, hfilled⟩ := hfill.filled hW hm hidx
  obtain ⟨hopen, hclose, -⟩ := premiumAt_window hfilled.premium_eq
  obtain ⟨pre, e, post, rfl, he, hauth, hpost⟩ := hrun.provenance hg hm hidx hfilled.active
  exact ⟨pre, e, post, rfl, he, hpost, fun pre' e' post' heq he' hpost' =>
    latest_unique heq he he' (fun x hx => (hpost x hx).1) hpost', hauth, hopen, hclose⟩

/-- Between the local proposal and the bid the governor doubles the delay and
replaces the manager. -/
theorem fill_provenance_local : ∃ (w₀ w w' : World) (idx : Index) (calls : List Entry) (e : Entry),
    Genesis w₀ ∧ History localnet w₀ calls w ∧ w.index? localIndex = some idx ∧
    idx.rebalanceDelay = 600 ∧ idx.manager = addr 62 ∧
    process localnet w bidAccounts (.bid 1 0 5000000 10000000000) = .ok w' ∧
    e ∈ calls ∧ e.Proposes idx.indexMint ∧ e.Authorizes localnet idx.indexMint idx := by
  obtain ⟨w, idx, ⟨w₀, hg, hrun⟩, hidx, hp⟩ := exists_of_run
    (openFund ⟨0, 0, 0, 100⟩ 2000000 333333333 ++ [localIssue 5000000000,
      localPropose 2050000 330000000 1000000000 30000000000 0 0,
      .call [signer 60, indexAccount, account 1] (.setParams 0 0 0 100 600),
      .call [signer 60, indexAccount, account 1] (.setAuthority roleManager (addr 62)), .tick 300])
    (fun w idx => decide (idx.indexMint = addr 1) && decide (idx.rebalanceDelay = 600) &&
      decide (idx.manager = addr 62) &&
      endsIn (process localnet w bidAccounts (.bid 1 0 5000000 10000000000)) fun _ => true)
    (by decide +kernel)
  simp only [Bool.and_eq_true, decide_eq_true_eq, endsIn_iff] at hp
  obtain ⟨⟨⟨hm, hdelay⟩, hmanager⟩, w', hdone, -⟩ := hp
  obtain ⟨calls, hcalls⟩ := exists_history hrun
  have hcon : Concerns idx.indexMint bidAccounts (.bid 1 0 5000000 10000000000) :=
    congrArg some hm.symm
  obtain ⟨pre, e, post, rfl, he, -, -, hauth, -⟩ :=
    fill_provenance hg hcalls hidx bid_signable hdone hcon
  exact ⟨w₀, w, w', idx, _, e, hg, hcalls, hidx, hdelay, hmanager, hdone, by simp, he, hauth⟩

end Flock
