import Flock.Units

/-!
# What a call does to a record

Four of the twelve instructions are market operations: `issue`, `redeem`,
`accrue_fees` and `bid`. Whoever calls them, they write units and the fee clock
into the record and nothing else. Every other instruction that writes a record
asks somebody to sign. `RecordChange` lists the ways a successful call can
change the record of an index, each with what it had to carry, and
`Effect.record_change` says there is no other way. What the results about
lifecycles, authorities and proposals need of the handlers they read off that
list.
-/

namespace Flock

open Outcome MachineInt

variable {ch : Chain} {m : Pubkey} {w w' : World} {idx idx' : Index}

/-- All of a component but its units. -/
def Component.shape (c : Component) : Component := { c with units := 0 }

/-- A table with the same shapes agrees on whatever does not read the units. -/
theorem map_eq_of_shape {α : Type} (f : Component → α) (hf : ∀ c, f c.shape = f c)
    (h : idx'.components.map Component.shape = idx.components.map Component.shape) :
    idx'.components.map f = idx.components.map f := by
  have hmap := congrArg (List.map f) h
  rw [List.map_map, List.map_map] at hmap
  have hcomp : f ∘ Component.shape = f := funext hf
  rwa [hcomp] at hmap

/-- The holder of this key signed the instruction. -/
def SignedBy (key : Pubkey) (accounts : List AccountInfo) : Prop :=
  ∃ a ∈ accounts, a.isSigner = true ∧ a.key = key

/-- The instructions anybody may call that move tokens. -/
def FlockInstruction.isMarket (ix : FlockInstruction) : Bool := ix.accrues || ix.isBid

/-- Units and the fee clock apart, the two records are one. -/
structure Index.Refreshes (idx idx' : Index) : Prop where
  record : idx' = { idx with
    components := idx'.components
    lastFeeAccrual := idx'.lastFeeAccrual }
  shape : idx'.components.map Component.shape = idx.components.map Component.shape

inductive RecordChange (ch : Chain) (m : Pubkey) (w w' : World) (accounts : List AccountInfo)
    (idx : Index) : FlockInstruction → Index → Prop where
  | market {ix idx'} (market : ix.isMarket = true) (sealed : idx.state ≠ stateBootstrapping)
      (refreshes : idx.Refreshes idx') : RecordChange ch m w w' accounts idx ix idx'
  | added {c manager} (signed : SignedBy idx.manager accounts)
      (done : Added ch m idx w w' c manager) :
      RecordChange ch m w w' accounts idx (.addComponent c.units) (idx.withComponent c)
  | sealed {manager} (signed : SignedBy idx.manager accounts)
      (done : Sealed ch m idx w w' manager) :
      RecordChange ch m w w' accounts idx .sealIndex
        { idx with state := stateLive, lastFeeAccrual := w.clock }
  | proposed {targets prices p manager nav navFloor startTs endTs}
      (signed : SignedBy idx.manager accounts)
      (done : Proposed ch m idx w w' targets prices p manager nav navFloor startTs endTs) :
      RecordChange ch m w w' accounts idx
        (.proposeRebalance targets prices p.duration p.startPremiumBps p.endPremiumBps
          p.maxNavLossBps)
        { idx with
          components := writeTargets idx.components targets prices
          rebalance :=
            { active := 1
              proposedAt := w.clock
              startTs := startTs
              endTs := endTs
              startPremiumBps := p.startPremiumBps
              endPremiumBps := p.endPremiumBps
              maxNavLossBps := p.maxNavLossBps
              navFloorE6 := navFloor
              proposer := manager } }
  | ended {caller} (signed : SignedBy caller accounts) (done : Ended ch m idx w w' caller) :
      RecordChange ch m w w' accounts idx .endRebalance (idx.synced ch m w).closed
  | params {streaming issue redeem premium delay} (signed : SignedBy idx.governor accounts)
      (fees : FeesInBounds streaming issue redeem premium delay) :
      RecordChange ch m w w' accounts idx (.setParams streaming issue redeem premium delay)
        (idx.withParams streaming issue redeem premium delay w.clock)
  | authority {role key} (signed : SignedBy idx.governor accounts) :
      RecordChange ch m w w' accounts idx (.setAuthority role key) (idx.withAuthority role key)
  | paused {paused} (sealed : idx.state ≠ stateBootstrapping)
      (brake : paused = true → SignedBy idx.governor accounts ∨ SignedBy idx.manager accounts)
      (release : paused = false → SignedBy idx.governor accounts) :
      RecordChange ch m w w' accounts idx (.setPaused paused)
        { idx with state := if paused then statePaused else stateLive }

namespace Index.Refreshes

theorem of_synced {idx₀ : Index} (h : idx.Refreshes idx₀) (w : World) :
    idx.Refreshes (idx₀.synced ch m w) where
  record := by
    rw [Index.synced_eq]
    rw [h.record]
  shape := (Index.synced_map ch m w idx₀ Component.shape fun _ _ => rfl).trans h.shape

theorem refl (idx : Index) : idx.Refreshes idx := ⟨rfl, rfl⟩

theorem accrued (idx : Index) (now : Int64) : idx.Refreshes (idx.accrued now) := ⟨rfl, rfl⟩

end Index.Refreshes

/-- The step lemma: a call that succeeded on an index changed its record in one of
these ways. -/
theorem Effect.record_change {accounts : List AccountInfo} {ix : FlockInstruction}
    (h : Effect ch m w w' accounts ix) (hidx : w.index? (ch.indexKey m) = some idx) :
    ∃ idx', w'.index? (ch.indexKey m) = some idx' ∧ RecordChange ch m w w' accounts idx ix idx' := by
  cases h with
  | initIndex key done =>
    -- there is a record already
    have hfresh := done.fresh
    rw [World.accounts_of_index? hidx] at hfresh
    cases hfresh
  | addComponent key signed before mint done =>
    obtain rfl := Option.some.inj (hidx.symm.trans before)
    exact ⟨_, done.record, .added ⟨_, List.mem_cons_self, signed, done.manager_eq.symm⟩ done⟩
  | sealIndex key signed before done =>
    obtain rfl := Option.some.inj (hidx.symm.trans before)
    refine ⟨_, ?_, .sealed ⟨_, List.mem_cons_self, signed, done.manager_eq.symm⟩ done⟩
    rw [done.world, World.index?_setIndex_self]
  | issue key before done =>
    obtain rfl := Option.some.inj (hidx.symm.trans before)
    have hsealed : idx.state ≠ stateBootstrapping := by
      rw [done.live]
      decide
    exact ⟨_, done.record, .market rfl hsealed
      (((Index.Refreshes.accrued idx w.clock).of_synced _).of_synced _)⟩
  | redeem key signed before done =>
    obtain rfl := Option.some.inj (hidx.symm.trans before)
    exact ⟨_, done.record, .market rfl done.sealed
      (((Index.Refreshes.accrued idx w.clock).of_synced _).of_synced _)⟩
  | accrueFees key before done =>
    obtain rfl := Option.some.inj (hidx.symm.trans before)
    exact ⟨_, done.record, .market rfl done.sealed
      ((Index.Refreshes.accrued idx w.clock).of_synced _)⟩
  | proposeRebalance key signed before done =>
    obtain rfl := Option.some.inj (hidx.symm.trans before)
    refine ⟨_, ?_, .proposed ⟨_, List.mem_cons_self, signed, done.manager_eq.symm⟩ done⟩
    rw [done.world, World.index?_setIndex_self]
  | bid key before done =>
    obtain rfl := Option.some.inj (hidx.symm.trans before)
    have hsealed : idx.state ≠ stateBootstrapping := by
      rw [done.live]
      decide
    exact ⟨_, done.record, .market rfl hsealed ((Index.Refreshes.refl idx).of_synced _)⟩
  | endRebalance key signed before done =>
    obtain rfl := Option.some.inj (hidx.symm.trans before)
    refine ⟨_, ?_, .ended ⟨_, List.mem_cons_self, signed, rfl⟩ done⟩
    rw [done.world, World.index?_setIndex_self]
  | setParams key signed before fees governor_eq world =>
    obtain rfl := Option.some.inj (hidx.symm.trans before)
    refine ⟨_, ?_, .params ⟨_, List.mem_cons_self, signed, governor_eq.symm⟩ fees⟩
    rw [world, World.index?_setIndex_self]
  | setAuthority key signed before governor_eq world =>
    obtain rfl := Option.some.inj (hidx.symm.trans before)
    refine ⟨_, ?_, .authority ⟨_, List.mem_cons_self, signed, governor_eq.symm⟩⟩
    rw [world, World.index?_setIndex_self]
  | setPaused key signed before hsealed brake release world =>
    obtain rfl := Option.some.inj (hidx.symm.trans before)
    refine ⟨_, ?_, .paused hsealed (fun hp => ?_) fun hp => ?_⟩
    · rw [world, World.index?_setIndex_self]
    · rcases brake hp with hg | hm
      · exact .inl ⟨_, List.mem_cons_self, signed, hg.symm⟩
      · exact .inr ⟨_, List.mem_cons_self, signed, hm.symm⟩
    · exact ⟨_, List.mem_cons_self, signed, (release hp).symm⟩

/-- A step of the system leaves the record of an index alone or changes it in one
of these ways. -/
theorem AllWf.record_cases {accounts : List AccountInfo} {ix : FlockInstruction}
    (hW : AllWf ch w) (hm : ch.inUse m) (hidx : w.index? (ch.indexKey m) = some idx)
    (signable : Signable ch accounts) (done : process ch w accounts ix = .ok w') :
    (¬ Concerns m accounts ix ∧ w'.index? (ch.indexKey m) = some idx) ∨
    (Concerns m accounts ix ∧ ∃ idx', w'.index? (ch.indexKey m) = some idx' ∧
      RecordChange ch m w w' accounts idx ix idx') := by
  rcases hW.call_cases hm signable done with heff | ⟨hne, hun⟩
  · exact .inr ⟨heff.concerns, heff.record_change hidx⟩
  · exact .inl ⟨hne, by rw [hun.record, hidx]⟩

/-- Where a record comes from: it was there and the call left it or changed it, or
the call created it. -/
theorem AllWf.record_origin {accounts : List AccountInfo} {ix : FlockInstruction}
    (hW : AllWf ch w) (hm : ch.inUse m) (signable : Signable ch accounts)
    (done : process ch w accounts ix = .ok w') (hidx' : w'.index? (ch.indexKey m) = some idx') :
    (∃ idx, w.index? (ch.indexKey m) = some idx ∧
      (¬ Concerns m accounts ix ∧ idx' = idx ∨
        Concerns m accounts ix ∧ RecordChange ch m w w' accounts idx ix idx')) ∨
    ∃ governor manager feeRecipient p bump,
      idx' = .initial m governor manager feeRecipient p bump w.clock := by
  cases hidx : w.index? (ch.indexKey m) with
  | some idx =>
    refine .inl ⟨idx, rfl, ?_⟩
    rcases hW.record_cases hm hidx signable done with ⟨hne, hsame⟩ | ⟨hcon, idx'', hidx'', hchange⟩
    · exact .inl ⟨hne, Option.some.inj (hidx'.symm.trans hsame)⟩
    · obtain rfl := Option.some.inj (hidx'.symm.trans hidx'')
      exact .inr ⟨hcon, hchange⟩
  | none =>
    rcases hW.call_cases hm signable done with heff | ⟨-, hun⟩
    swap
    · rw [hun.record, hidx] at hidx'
      cases hidx'
    cases heff with
    | initIndex key created =>
      exact .inr ⟨_, _, _, _, _, Option.some.inj (hidx'.symm.trans created.record)⟩
    | addComponent key signed before | sealIndex key signed before | issue key before
    | redeem key signed before | accrueFees key before | proposeRebalance key signed before
    | bid key before | endRebalance key signed before | setParams key signed before
    | setAuthority key signed before | setPaused key signed before =>
      rw [hidx] at before
      cases before

end Flock
