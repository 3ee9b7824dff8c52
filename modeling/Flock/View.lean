import Flock.Convergence
import Flock.PlanRun
import Flock.Torn
import Mathlib.Algebra.BigOperators.Ring.Finset

/-!
# What the auction view shows

`auction` reads a snapshot as a table of legs: how much of each component the fund may still
sell, and how much it may still take in. The program decides a bid by numbers of its own, in
checked machine integers and in the middle of a handler.

A fill that goes through lies within the view, at the premium of the view, and takes from the
table just what it moved (`fills_stay_in_view`). And what the view shows is there to be had: a
bid within it is refused for the arithmetic, the ceiling or the NAV floor only
(`view_is_honoured`).
-/

namespace Flock

open Outcome MachineInt

namespace Sdk

structure AuctionLeg where
  mint : Pubkey
  balance : Int
  target : Int
  sellable : Int
  buyable : Int
  deriving DecidableEq, Repr

structure AuctionView where
  active : Bool
  opensAt : Int
  closesAt : Int
  /-- Null before the auction opens or after it closes. -/
  premiumBps : Option Int
  /-- Per component: how much the fund may still sell, and how much it may still take in. -/
  legs : List AuctionLeg
  deriving DecidableEq, Repr

/-- One round of the `map` in `auction`. -/
def auctionLeg (snapshot : IndexSnapshot) (component : ComponentAccount) (i : Nat) : AuctionLeg :=
  let balance := snapshot.balances.getD i 0
  let target := (component.targetUnits * snapshot.supply).tdiv unitScale
  let cap := target + (target * snapshot.account.maxPremiumBps).tdiv bps
  { mint := component.mint
    balance
    target
    sellable := if balance > target then balance - target else 0
    buyable := if cap > balance then cap - balance else 0 }

def auction (snapshot : IndexSnapshot) (now : Int) : Except SdkError AuctionView := do
  let rebalance := snapshot.account.rebalance
  let legs := snapshot.account.components.zipIdx.map fun (component, i) =>
    auctionLeg snapshot component i
  let premiumBps ← (if rebalance.active ∧ now ≥ rebalance.startTs ∧ now ≤ rebalance.endTs then do
      let premium ← premiumAt rebalance.startPremiumBps rebalance.endPremiumBps rebalance.startTs
        rebalance.endTs now
      pure (some premium)
    else pure none : Except SdkError (Option Int))
  pure
    { active := rebalance.active
      opensAt := rebalance.startTs
      closesAt := rebalance.endTs
      premiumBps, legs }

/-- Value of the fund at reference prices, in USD-e9. Used for NAV-floor headroom checks. -/
def navAtReferencePrices (snapshot : IndexSnapshot) : Except SdkError Int :=
  snapshot.account.components.zipIdx.foldlM (fun total (component, i) => do
    let value ← valueE9 (snapshot.balances.getD i 0) component.decimals component.refPriceE9
    pure (total + value)) 0

/-- Two views of one auction with a fill between them. -/
structure FilledView (s b : Nat) (taken paid : Int) (view view' : AuctionView) : Prop where
  same : view'.active = view.active ∧ view'.opensAt = view.opensAt ∧
    view'.closesAt = view.closesAt ∧ view'.premiumBps = view.premiumBps
  sold : ∀ leg, view.legs[s]? = some leg → ∃ leg', view'.legs[s]? = some leg' ∧
    leg'.mint = leg.mint ∧ leg'.target = leg.target ∧ leg'.balance = leg.balance - taken ∧
    leg'.sellable = leg.sellable - taken
  bought : ∀ leg, view.legs[b]? = some leg → ∃ leg', view'.legs[b]? = some leg' ∧
    leg'.mint = leg.mint ∧ leg'.target = leg.target ∧ leg'.balance = leg.balance + paid ∧
    leg'.buyable = leg.buyable - paid
  others : ∀ i, i ≠ s → i ≠ b → view'.legs[i]? = view.legs[i]?

end Sdk

variable {ch : Chain} {m : Pubkey} {w w' : World} {idx idx' : Index} {snap : Sdk.IndexSnapshot}
  {view : Sdk.AuctionView} {now asOf : Int}

/-! ## The flag of an auction -/

/-- The flag is what `bool` would be. -/
def Toggled (idx : Index) : Prop := idx.rebalance.active = 0 ∨ idx.rebalance.active = 1

/-- The step lemma. -/
theorem RecordChange.toggled {accounts : List AccountInfo} {ix : FlockInstruction}
    (h : RecordChange ch m w w' accounts idx ix idx') (ht : Toggled idx) : Toggled idx' := by
  cases h with
  | market market sealed refreshes =>
    rw [Toggled, refreshes.sameMandate.rebalance]
    exact ht
  | added | sealed | params | paused => exact ht
  | proposed => exact .inr rfl
  | ended => exact .inl rfl
  | authority signed =>
    rw [Toggled, (idx.withAuthority_state _ _).2]
    exact ht

/-- The run lemma. -/
theorem reachable_toggled (h : Reachable ch w) (hm : ch.inUse m)
    (hidx : w.index? (ch.indexKey m) = some idx) : Toggled idx := by
  obtain ⟨w₀, hg, hrun⟩ := h
  induction hrun generalizing idx with
  | refl =>
    rw [hg.fresh] at hidx
    cases hidx
  | @tail w₁ w₂ hrun hstep ih =>
    have hW : AllWf ch w₁ := (reachable_wf ⟨w₀, hg, hrun⟩).1
    cases hstep with
    | outside ho =>
      rw [ho.records] at hidx
      exact ih hidx
    | call signable done =>
      rcases hW.record_origin hm signable done hidx with
        ⟨idx₀, hidx₀, ⟨-, rfl⟩ | ⟨-, hchange⟩⟩ | ⟨_, _, _, _, _, rfl⟩
      · exact ih hidx₀
      · exact hchange.toggled (ih hidx₀)
      · -- a new record has no auction
        exact .inl rfl

/-! ## The view of a snapshot -/

/-- A component of the record, as the view shows it. -/
def World.leg (w : World) (ch : Chain) (m : Pubkey) (idx : Index) (c : Component) :
    Sdk.AuctionLeg where
  mint := c.mint
  balance := w.vault ch m c
  target := c.target (w.supply m)
  sellable := (w.vault ch m c - c.target (w.supply m) : Nat)
  buyable := (c.cap (w.supply m) idx.maxPremiumBps - w.vault ch m c : Nat)

theorem Seen.auctionLeg (hS : Seen ch m w idx snap) {i : Nat} {c : Component}
    (hc : idx.components[i]? = some c) :
    Sdk.auctionLeg snap (Sdk.decodeComponent c) i = w.leg ch m idx c := by
  have htarget := hS.legTarget c
  have hcap := hS.legCap c
  unfold Keeper.legCap at hcap
  rw [htarget] at hcap
  unfold Keeper.legTarget at htarget
  unfold Sdk.auctionLeg World.leg
  dsimp only
  rw [hS.balance hc, htarget, hcap]
  simp only [Sdk.AuctionLeg.mk.injEq, true_and]
  refine ⟨rfl, ?_, ?_⟩ <;> split <;> omega

/-- The view, field by field. -/
structure Displays (ch : Chain) (m : Pubkey) (w : World) (idx : Index) (now : Int)
    (view : Sdk.AuctionView) : Prop where
  active : view.active = decide (idx.rebalance.active = 1)
  window : view.opensAt = idx.rebalance.startTs.toInt ∧ view.closesAt = idx.rebalance.endTs.toInt
  premium : ∀ p, view.premiumBps = some p ↔ idx.rebalance.active = 1 ∧
    Sdk.premiumAt idx.rebalance.startPremiumBps.toInt idx.rebalance.endPremiumBps.toInt
      idx.rebalance.startTs.toInt idx.rebalance.endTs.toInt now = .ok p
  legs : view.legs = idx.components.map (w.leg ch m idx)

theorem Seen.displays (hS : Seen ch m w idx snap) (h : Sdk.auction snap now = .ok view) :
    Displays ch m w idx now view := by
  have hlegs : (snap.account.components.zipIdx.map fun p => Sdk.auctionLeg snap p.1 p.2)
      = idx.components.map (w.leg ch m idx) := by
    rw [hS.components, List.zipIdx_map, List.map_map]
    conv_rhs => rw [← List.zipIdx_map_fst 0 idx.components, List.map_map]
    refine List.map_congr_left fun p hp => ?_
    exact hS.auctionLeg (List.mk_mem_zipIdx_iff_getElem?.mp hp)
  unfold Sdk.auction at h
  obtain ⟨premium, hpremium, h⟩ := bind_ok_iff.mp h
  obtain rfl := Except.ok.inj h
  rw [hS.rebalance] at hpremium ⊢
  refine ⟨rfl, ⟨rfl, rfl⟩, fun p => ?_, hlegs⟩
  show premium = some p ↔ _
  by_cases hopen : (Sdk.decodeRebalance idx.rebalance).active ∧
      now ≥ (Sdk.decodeRebalance idx.rebalance).startTs ∧
      now ≤ (Sdk.decodeRebalance idx.rebalance).endTs
  · rw [if_pos hopen] at hpremium
    obtain ⟨p', hp', hsome⟩ := bind_ok_iff.mp hpremium
    obtain rfl := Except.ok.inj hsome
    have hactive : idx.rebalance.active = 1 := of_decide_eq_true hopen.1
    constructor
    · intro he
      obtain rfl := Option.some.inj he
      exact ⟨hactive, hp'⟩
    · intro he
      exact congrArg some (Except.ok.inj (hp'.symm.trans he.2))
  · rw [if_neg hopen] at hpremium
    obtain rfl := Except.ok.inj hpremium
    constructor
    · exact nofun
    · intro he
      obtain ⟨hfrom, hto⟩ := Sdk.premiumAt_window he.2
      exact absurd ⟨decide_eq_true he.1, hfrom, hto⟩ hopen

/-- Whether there is a view hangs on the window only. -/
theorem Sdk.auction_of_same {snap' : Sdk.IndexSnapshot} (h : Sdk.auction snap now = .ok view)
    (hsame : snap'.account.rebalance = snap.account.rebalance) :
    ∃ view', Sdk.auction snap' now = .ok view' := by
  unfold Sdk.auction at h ⊢
  obtain ⟨premium, hpremium, -⟩ := bind_ok_iff.mp h
  rw [hsame]
  exact ⟨_, bind_ok_iff.mpr ⟨premium, hpremium, rfl⟩⟩

theorem Displays.leg (h : Displays ch m w idx now view) {i : Nat} {c : Component}
    (hc : idx.components[i]? = some c) : view.legs[i]? = some (w.leg ch m idx c) := by
  rw [h.legs, List.getElem?_map, hc, Option.map_some]

/-! ## A fill, in the view -/

/-- What the view shows of a component does not hang on its units. -/
theorem Index.synced_legs (w₀ : World) :
    (idx.synced ch m w₀).components.map (w.leg ch m (idx.synced ch m w₀))
      = idx.components.map (w.leg ch m idx) := by
  have hmax : (idx.synced ch m w₀).maxPremiumBps = idx.maxPremiumBps := by
    rw [Index.synced_eq]
  have hleg : w.leg ch m (idx.synced ch m w₀) = w.leg ch m idx := by
    funext c
    unfold World.leg
    rw [hmax]
  rw [hleg]
  exact Index.synced_map ch m w₀ idx (w.leg ch m idx) fun _ _ => rfl

section Fill

variable {s b : UInt8} {x limit paid : UInt64} {recv pay : Pubkey} {sell buy : Component}
  {mi : Mint} {premium : Int32} {view' : Sdk.AuctionView}

theorem Filled.supply_eq
    (h : Filled ch m idx w w' s b x limit recv pay sell buy mi premium paid) :
    w'.supply m = w.supply m := by
  obtain ⟨dA, hleg⟩ := h.leg
  have := hleg.supply
  omega

/-- A leg that the fill does not move looks as before. -/
theorem Filled.leg_eq (h : Filled ch m idx w w' s b x limit recv pay sell buy mi premium paid)
    {c : Component} (hc : c ∈ idx.components) (hsell : c.mint ≠ sell.mint)
    (hbuy : c.mint ≠ buy.mint) : w'.leg ch m idx c = w.leg ch m idx c := by
  have hvault := h.vault c hc
  rw [if_neg hsell, if_neg hbuy] at hvault
  have hsame : w'.vault ch m c = w.vault ch m c := by omega
  unfold World.leg
  rw [hsame, h.supply_eq]

theorem Filled.filledView (h : Filled ch m idx w w' s b x limit recv pay sell buy mi premium paid)
    (hC : Custody ch m w idx) (hview : Displays ch m w idx now view)
    (hview' : Displays ch m w' (idx.synced ch m w') now view') :
    Sdk.FilledView s.toNat b.toNat (taken ch m sell recv x) paid.toNat view view' := by
  have hlegs' : view'.legs = idx.components.map (w'.leg ch m idx) :=
    hview'.legs.trans (Index.synced_legs w')
  have hrebalance : (idx.synced ch m w').rebalance = idx.rebalance := by rw [Index.synced_eq]
  have hsupply := h.supply_eq
  have hne := h.mint_ne hC
  obtain ⟨-, hsized⟩ := bidSizing_ok h.sizing
  rw [← World.supply_of_mint? h.mint, World.toNat_balance, World.toNat_balance] at hsized
  have htaken := taken_le ch m sell recv x
  constructor
  case same =>
    obtain ⟨hactive, ⟨hopens, hcloses⟩, hpremium, -⟩ := hview
    obtain ⟨hactive', ⟨hopens', hcloses'⟩, hpremium', -⟩ := hview'
    rw [hrebalance] at hactive' hopens' hcloses' hpremium'
    refine ⟨hactive'.trans hactive.symm, hopens'.trans hopens.symm, hcloses'.trans hcloses.symm, ?_⟩
    apply Option.ext
    intro p
    exact (hpremium' p).trans (hpremium p).symm
  case sold =>
    intro leg hleg
    obtain rfl := Option.some.inj ((hview.leg h.sell_at).symm.trans hleg)
    refine ⟨w'.leg ch m idx sell, ?_, rfl, ?_, ?_⟩
    · rw [hlegs', List.getElem?_map, h.sell_at, Option.map_some]
    · show (sell.target (w'.supply m) : Int) = sell.target (w.supply m)
      rw [hsupply]
    · have hsold := h.sold hC
      have hexcess : sell.target (w.supply m) + x.toNat ≤ w.vault ch m sell := hsized.excess
      unfold World.leg
      dsimp only
      rw [hsupply]
      omega
  case bought =>
    intro leg hleg
    obtain rfl := Option.some.inj ((hview.leg h.buy_at).symm.trans hleg)
    refine ⟨w'.leg ch m idx buy, ?_, rfl, ?_, ?_⟩
    · rw [hlegs', List.getElem?_map, h.buy_at, Option.map_some]
    · show (buy.target (w'.supply m) : Int) = buy.target (w.supply m)
      rw [hsupply]
    · have hbought := h.bought hC
      have hroom : w.vault ch m buy + paid.toNat ≤ buy.cap (w.supply m) idx.maxPremiumBps :=
        hsized.room
      unfold World.leg
      dsimp only
      rw [hsupply]
      omega
  case others =>
    intro i hs hb
    rw [hlegs', hview.legs, List.getElem?_map, List.getElem?_map]
    cases hc : idx.components[i]? with
    | none => rfl
    | some c =>
      rw [Option.map_some, Option.map_some, h.leg_eq (List.mem_of_getElem? hc)
        (hC.mint_ne_of_ne hc h.sell_at hs) (hC.mint_ne_of_ne hc h.buy_at hb)]

end Fill

/-! ## The value at reference prices -/

theorem foldlM_add_ok {ε α : Type} {f : α → Except ε Int} {g : α → Int} {l : List α} (t : Int)
    (hf : ∀ a ∈ l, f a = .ok (g a)) :
    l.foldlM (fun total a => do
      let value ← f a
      pure (total + value)) t = .ok (t + (l.map g).sum) := by
  induction l generalizing t with
  | nil =>
    rw [List.map_nil, List.sum_nil, add_zero]
    rfl
  | cons a l ih =>
    rw [List.foldlM_cons, hf a (List.mem_cons_self ..), ok_bind]
    show List.foldlM _ (t + g a) l = _
    rw [ih _ fun b hb => hf b (List.mem_cons_of_mem _ hb), List.map_cons, List.sum_cons, add_assoc]

/-- The value the SDK computes is the one the program checks against the floor. -/
theorem Seen.navAtReferencePrices (hS : Seen ch m w idx snap) :
    Sdk.navAtReferencePrices snap = .ok (w.valueE9 ch m idx : Int) := by
  have hvalue : ∀ p ∈ idx.components.zipIdx.map (fun p => (Sdk.decodeComponent p.1, p.2)),
      Sdk.valueE9 (snap.balances.getD p.2 0) p.1.decimals p.1.refPriceE9
        = .ok ((snap.balances.getD p.2 0 * p.1.refPriceE9).tdiv (10 ^ p.1.decimals)) := by
    intro p hp
    rw [Sdk.valueE9, Sdk.mulDivFloor, if_neg (pow_ne_zero _ (by decide))]
  unfold Sdk.navAtReferencePrices
  rw [hS.components, List.zipIdx_map]
  refine (foldlM_add_ok 0 hvalue).trans ?_
  rw [zero_add, List.map_map, World.valueE9]
  congr 1
  rw [Nat.cast_list_sum, List.map_map]
  conv_rhs => rw [← List.zipIdx_map_fst 0 idx.components, List.map_map]
  congr 1
  refine List.map_congr_left fun p hp => ?_
  have hc := List.mk_mem_zipIdx_iff_getElem?.mp hp
  show ((snap.balances.getD p.2 0) * (p.1.refPriceE9.toNat : Int)).tdiv
    (10 ^ p.1.decimals.toNat) = _
  rw [hS.balance hc]
  have hnum : (w.vault ch m p.1 : Int) * (p.1.refPriceE9.toNat : Int)
      = ((w.vault ch m p.1 * p.1.refPriceE9.toNat : Nat) : Int) := (Nat.cast_mul _ _).symm
  have hden : (10 : Int) ^ p.1.decimals.toNat = ((10 ^ p.1.decimals.toNat : Nat) : Int) :=
    (Nat.cast_pow 10 _).symm
  rw [hnum, hden, ← Int.ofNat_tdiv]
  rfl

/-! ## The results -/

section Results

variable {bidder indexInfo indexMintInfo bidderReceive bidderPay tokenProgram : AccountInfo}
  {vaults : List AccountInfo} {s b : UInt8} {x limit : UInt64}

/-- A bid that goes through, next to the views before and after it. -/
structure FillInView (ch : Chain) (m : Pubkey) (w w' : World) (idx : Index) (now asOf : Int)
    (s b : Nat) (x limit : Nat) (recv : Pubkey) (view : Sdk.AuctionView) : Prop where
  intro ::
  fill : ∃ (premium : Int) (sell buy : Sdk.ComponentAccount) (sellLeg buyLeg : Sdk.AuctionLeg)
      (quote : Sdk.BidQuote) (snap' : Sdk.IndexSnapshot) (view' : Sdk.AuctionView) (nav : Int),
    view.premiumBps = some premium ∧ view.legs[s]? = some sellLeg ∧ view.legs[b]? = some buyLeg ∧
    (idx.components.map Sdk.decodeComponent)[s]? = some sell ∧
    (idx.components.map Sdk.decodeComponent)[b]? = some buy ∧
    Keeper.quotePair sell buy premium x = .ok quote ∧
    0 < x ∧ x ≤ sellLeg.sellable ∧ quote.buyAmount ≤ buyLeg.buyable ∧ quote.buyAmount ≤ limit ∧
    Sdk.snapshot ch w' m asOf = .ok snap' ∧ Sdk.auction snap' now = .ok view' ∧
    Sdk.FilledView s b (if recv = ch.vaultKey m sell.mint then 0 else x) quote.buyAmount
      view view' ∧
    Sdk.navAtReferencePrices snap' = .ok nav ∧ idx.rebalance.navFloorE6.toNat ≤ nav / 1000

theorem Filled.snapshot {recv pay : Pubkey} {sell buy : Component} {mi : Mint} {premium : Int32}
    {paid : UInt64} (h : Filled ch m idx w w' s b x limit recv pay sell buy mi premium paid)
    (hwf : Wf ch m w idx) (hidx : w.index? (ch.indexKey m) = some idx)
    (hwf' : Wf ch m w' (idx.synced ch m w')) (hsealed : idx.state ≠ stateBootstrapping)
    (hsnap : Outcome.Succeeds (Sdk.snapshot ch w m asOf)) :
    ∃ snap', Sdk.snapshot ch w' m asOf = .ok snap' := by
  obtain ⟨mi', hmi', -⟩ := hwf'.custody.mint
  have hS : mi.supply.toNat ≠ 0 := by
    rw [← World.supply_of_mint? h.mint]
    exact h.supply
  have hS' : mi'.supply.toNat ≠ 0 := by
    rw [← World.supply_of_mint? hmi', h.supply_eq]
    exact h.supply
  have hsealed' : (idx.synced ch m w').state ≠ stateBootstrapping := by
    rw [Index.synced_eq]
    exact hsealed
  have hrate : (idx.synced ch m w').streamingFeeBps = idx.streamingFeeBps := by
    rw [Index.synced_eq]
  have hshort := (snapshotAcross_reads asOf hwf hidx hwf (.refl hsealed) h.mint hS).1.mp hsnap
  refine (snapshotAcross_reads asOf hwf' h.record hwf' (.refl hsealed') hmi' hS').1.mpr ?_
  rw [hrate, Index.synced_lastFeeAccrual]
  exact hshort

/-- From every reachable world: a bid that goes through was within the view, at its premium and
at the price the SDK quotes. The next view shows what is left, and the value at reference prices
is not below the floor. -/
theorem fills_stay_in_view (h : Reachable ch w) {k : Pubkey} (hidx : w.index? k = some idx)
    (hsnap : Sdk.snapshot ch w idx.indexMint asOf = .ok snap)
    (hview : Sdk.auction snap w.clock.toInt = .ok view)
    (signable : Signable ch (bidder :: indexInfo :: indexMintInfo :: bidderReceive :: bidderPay ::
      tokenProgram :: vaults))
    (hm : indexMintInfo.key = idx.indexMint)
    (done : process ch w (bidder :: indexInfo :: indexMintInfo :: bidderReceive :: bidderPay ::
      tokenProgram :: vaults) (.bid s b x limit) = .ok w') :
    FillInView ch idx.indexMint w w' idx w.clock.toInt asOf s.toNat b.toNat x.toNat limit.toNat
      bidderReceive.key view := by
  have hW : AllWf ch w := (reachable_wf h).1
  obtain ⟨rfl, hwf⟩ := hW hidx
  have huse := hwf.custody.inUse
  have hW' : AllWf ch w' := (Step.call signable done).allWf hW
  rcases hW.call_cases huse signable done with heff | ⟨hne, -⟩
  swap
  · exact absurd (congrArg some hm) hne
  cases heff with
  | @bid _ _ _ _ _ _ _ _ _ _ _ idx₀ sell buy mi premium paid key before filled =>
    obtain rfl := Option.some.inj (hidx.symm.trans before)
    have hC := hwf.custody
    have horder := reachable_orderly h huse hidx filled.active
    have hsupply := filled.supply_eq
    have hagrees := horder.premiumAt_agrees filled.premium_eq
    have hS := hwf.seen hidx hsnap
    have hshown := hS.displays hview
    obtain ⟨hlimit, hsized⟩ := bidSizing_ok filled.sizing
    rw [← World.supply_of_mint? filled.mint, World.toNat_balance, World.toNat_balance] at hsized
    have hexcess : sell.target (w.supply idx.indexMint) + x.toNat
        ≤ w.vault ch idx.indexMint sell := hsized.excess
    have hroom : w.vault ch idx.indexMint buy + paid.toNat
        ≤ buy.cap (w.supply idx.indexMint) idx.maxPremiumBps := hsized.room
    -- the snapshot after the fill: the fee clock and the supply stand where they stood
    have hidx' := filled.record
    have hwf' := hW'.wf huse hidx'
    obtain ⟨snap', hsnap'⟩ := filled.snapshot hwf hidx hwf' horder.sealed ⟨snap, hsnap⟩
    have hS' := hwf'.seen hidx' hsnap'
    have hwindow : snap'.account.rebalance = snap.account.rebalance := by
      rw [hS.rebalance, hS'.rebalance, Index.synced_eq]
    obtain ⟨view', hview'⟩ := Sdk.auction_of_same hview hwindow
    have hshown' := hS'.displays hview'
    have hactive : idx.rebalance.active = 1 :=
      (reachable_toggled h huse hidx).resolve_left filled.active
    have hpaid : paid.toNat = sell.price buy (10000 - premium.toInt).toNat x.toNat :=
      bidPrice_eq hsized.price
    have hquote := @Sdk.quotePair_nat sell buy _ x.toNat (horder.premium_le hagrees)
      (horder.prices buy (List.mem_of_getElem? filled.buy_at))
    rw [← hpaid] at hquote
    refine ⟨premium.toInt, Sdk.decodeComponent sell, Sdk.decodeComponent buy,
      w.leg ch idx.indexMint idx sell, w.leg ch idx.indexMint idx buy, _, snap', view', _,
      (hshown.premium _).mpr ⟨hactive, hagrees⟩, hshown.leg filled.sell_at,
      hshown.leg filled.buy_at, ?_, ?_, hquote, Nat.pos_of_ne_zero filled.positive, ?_, ?_, ?_,
      hsnap', hview', ?_, hS'.navAtReferencePrices, ?_⟩
    · rw [List.getElem?_map, filled.sell_at, Option.map_some]
    · rw [List.getElem?_map, filled.buy_at, Option.map_some]
    · show (x.toNat : Int) ≤ (w.vault ch idx.indexMint sell - _ : Nat)
      omega
    · show (paid.toNat : Int) ≤ (_ - w.vault ch idx.indexMint buy : Nat)
      omega
    · show (paid.toNat : Int) ≤ limit.toNat
      exact_mod_cast hlimit
    · have hfilled := filled.filledView hC hshown hshown'
      unfold taken at hfilled
      exact_mod_cast hfilled
    · rw [World.valueE9_synced]
      exact_mod_cast filled.navFloor

/-- The accounts of a bid are the ones it needs, and the price is there. -/
structure BidReady (ch : Chain) (m : Pubkey) (w : World) (idx : Index) (sellMint buyMint : Pubkey)
    (price : Int) (bidder indexInfo indexMintInfo bidderReceive bidderPay tokenProgram : AccountInfo)
    (vaults : List AccountInfo) : Prop where
  signed : bidder.isSigner = true
  outsider : ch.Outsider bidder.key
  index : indexInfo.key = ch.indexKey m
  mint : indexMintInfo.key = m
  token : tokenProgram.key = ch.token.id
  vaults_eq : vaults.map AccountInfo.key = idx.vaultKeys ch m
  thawed : ∀ c ∈ idx.components, Thawed w (ch.vaultKey m c.mint)
  receives : ∃ t, w.token? bidderReceive.key = some t ∧ t.mint = sellMint ∧ t.frozen = false
  pays : Purse w bidderPay.key buyMint bidder.key
  holds : price ≤ w.amount bidderPay.key

/-- From every reachable world with a live fund: a bid within the view, of somebody who has the
price, is refused for the arithmetic, the ceiling or the NAV floor only. -/
theorem view_is_honoured (h : Reachable ch w) {k : Pubkey} (hidx : w.index? k = some idx)
    (hlive : idx.state = stateLive)
    (hsnap : Sdk.snapshot ch w idx.indexMint asOf = .ok snap)
    (hview : Sdk.auction snap w.clock.toInt = .ok view) {premium : Int}
    {sell buy : Sdk.ComponentAccount} {sellLeg buyLeg : Sdk.AuctionLeg} {quote : Sdk.BidQuote}
    (hpremium : view.premiumBps = some premium)
    (hsell : snap.account.components[s.toNat]? = some sell)
    (hbuy : snap.account.components[b.toNat]? = some buy) (hsb : s ≠ b)
    (hsellLeg : view.legs[s.toNat]? = some sellLeg) (hbuyLeg : view.legs[b.toNat]? = some buyLeg)
    (hquote : Keeper.quotePair sell buy premium x.toNat = .ok quote)
    (hpos : 0 < x.toNat) (hsellable : x.toNat ≤ sellLeg.sellable) (hopen : 0 < buyLeg.buyable)
    (hbuyable : quote.buyAmount ≤ buyLeg.buyable) (hlimit : quote.buyAmount ≤ limit.toNat)
    (hready : BidReady ch idx.indexMint w idx sell.mint buy.mint quote.buyAmount bidder indexInfo
      indexMintInfo bidderReceive bidderPay tokenProgram vaults) :
    Only (Custom fun e => e = .mathOverflow ∨ e = .invalidPremium ∨ e = .navFloorBreached)
      (process ch w (bidder :: indexInfo :: indexMintInfo :: bidderReceive :: bidderPay ::
        tokenProgram :: vaults) (.bid s b x limit)) := by
  obtain ⟨hW, hsound⟩ := reachable_wf h
  obtain ⟨rfl, hwf⟩ := hW hidx
  have hC := hwf.custody
  have hS := hwf.seen hidx hsnap
  have hshown := hS.displays hview
  rw [hS.components] at hsell hbuy
  obtain ⟨c, hc, rfl⟩ := Option.map_eq_some_iff.mp (List.getElem?_map ▸ hsell)
  obtain ⟨d, hd, rfl⟩ := Option.map_eq_some_iff.mp (List.getElem?_map ▸ hbuy)
  obtain rfl := Option.some.inj ((hshown.leg hc).symm.trans hsellLeg)
  obtain rfl := Option.some.inj ((hshown.leg hd).symm.trans hbuyLeg)
  obtain ⟨hactive, hprem⟩ := (hshown.premium premium).mp hpremium
  have hactive' : idx.rebalance.active ≠ 0 := by
    rw [hactive]
    decide
  have horder := reachable_orderly h hC.inUse hidx hactive'
  have hnonzero := horder.prices d (List.mem_of_getElem? hd)
  obtain ⟨hfrom, hto⟩ := Sdk.premiumAt_window hprem
  rw [Sdk.quotePair_nat (horder.premium_le hprem) hnonzero] at hquote
  obtain rfl := Except.ok.inj hquote
  -- the legs, in natural numbers
  have hexcess : (x.toNat : Int) ≤ (w.vault ch idx.indexMint c
      - c.target (w.supply idx.indexMint) : Nat) := hsellable
  have hroom : (0 : Int) < (d.cap (w.supply idx.indexMint) idx.maxPremiumBps
      - w.vault ch idx.indexMint d : Nat) := hopen
  have hfits : (c.price d (10000 - premium).toNat x.toNat : Int)
      ≤ (d.cap (w.supply idx.indexMint) idx.maxPremiumBps
        - w.vault ch idx.indexMint d : Nat) := hbuyable
  have hcosts : (c.price d (10000 - premium).toNat x.toNat : Int) ≤ limit.toNat := hlimit
  obtain ⟨tr, htr, htrm, htrf⟩ := hready.receives
  obtain ⟨tp, htp, htpm, htpo, htpd, htpf⟩ := hready.pays
  have hheld : (c.price d (10000 - premium).toNat x.toNat : Int) ≤ tp.amount.toNat := by
    have hholds := hready.holds
    rw [World.amount_of_token? htp] at hholds
    exact hholds
  have hsupply : w.supply idx.indexMint ≠ 0 := by
    intro hzero
    rw [hzero, Component.cap_zero, Nat.zero_sub] at hroom
    exact absurd hroom (lt_irrefl _)
  have hthawed : ∀ c ∈ idx.components, ∀ t, w.token? (ch.vaultKey idx.indexMint c.mint) = some t →
      t.frozen = false := by
    intro c hc t ht
    obtain ⟨t', ht', hfrozen⟩ := hready.thawed c hc
    obtain rfl := Option.some.inj (ht.symm.trans ht')
    exact hfrozen
  refine bid_only (.inl rfl) hready.index hready.mint hidx hC hready.vaults_eq (.inr (.inr rfl))
    (.inr (.inl rfl)) hsound hready.outsider hready.signed hready.token hsb (by omega) hlive
    hactive' (Int64.le_iff_toInt_le.mpr hfrom) (Int64.le_iff_toInt_le.mpr hto) horder.opens hc hd
    hnonzero hsupply hthawed htr htrm htrf htp htpm htpo htpd htpf (by omega) (by omega) ?_
  intro premium' y hpremium' hy
  have hagrees := horder.premiumAt_agrees hpremium'
  have hsame : premium = premium'.toInt := Except.ok.inj (hprem.symm.trans hagrees)
  have hprice := bidPrice_eq hy
  rw [← hsame] at hprice
  refine ⟨?_, ?_, ?_⟩ <;> omega

end Results

/-! ### On the local chain -/

/-- The view of the local auction, and a test of it. -/
def localView (p : Sdk.IndexSnapshot → Sdk.AuctionView → Bool) (w : World) : Bool :=
  okAnd (Sdk.snapshot localnet w (addr 1) w.clock.toInt) fun snap =>
    okAnd (Sdk.auction snap w.clock.toInt) (p snap)

/-- Holder 40 bids for part of what the view shows. -/
theorem fills_stay_in_view_local : ∃ (w w' : World) (idx : Index) (view : Sdk.AuctionView),
    Reachable localnet w ∧ w.index? localIndex = some idx ∧ view.legs.length = 2 ∧
    FillInView localnet idx.indexMint w w' idx w.clock.toInt w.clock.toInt 1 0 5000000 10000000000
      (addr 22) view := by
  obtain ⟨w, idx, hreach, hidx, hp⟩ := exists_of_run localAuction
    (fun w idx => decide (idx.indexMint = addr 1) &&
      localView (fun _ view => decide (view.legs.length = 2)) w &&
      endsIn (process localnet w bidAccounts (.bid 1 0 5000000 10000000000)) fun _ => true)
    (by decide +kernel)
  simp only [localView, Bool.and_eq_true, decide_eq_true_eq, endsIn_iff, okAnd_iff] at hp
  obtain ⟨⟨hmint, snap, hsnap, view, hview, hlen⟩, w', hdone, -⟩ := hp
  rw [← hmint] at hsnap
  exact ⟨w, w', idx, view, hreach, hidx, hlen,
    fills_stay_in_view hreach hidx hsnap hview bid_signable hmint.symm hdone⟩

/-- And for all of it, at the price that is quoted. -/
theorem view_is_honoured_local : ∃ (w : World) (idx : Index) (view : Sdk.AuctionView)
    (sellLeg : Sdk.AuctionLeg), Reachable localnet w ∧ w.index? localIndex = some idx ∧
    view.legs[1]? = some sellLeg ∧ sellLeg.sellable = 41666662500 ∧
    Only (Custom fun e => e = .mathOverflow ∨ e = .invalidPremium ∨ e = .navFloorBreached)
      (process localnet w bidAccounts (.bid 1 0 41666662500 1237499877)) := by
  obtain ⟨w, idx, hreach, hidx, hp⟩ := exists_of_run localAuction
    (fun w idx => decide (idx.indexMint = addr 1 ∧ idx.state = stateLive ∧
        [1002, 1003].map addr = idx.vaultKeys localnet (addr 1) ∧
        (∀ c ∈ idx.components, Thawed w (localnet.vaultKey (addr 1) c.mint)) ∧
        Purse w (addr 21) (addr 2) (addr 40) ∧ Purse w (addr 22) (addr 3) (addr 40) ∧
        1237499877 ≤ w.amount (addr 21)) &&
      localView (fun snap view => decide (view.premiumBps = some 100) &&
        (snap.account.components[0]?).any fun (buy : Sdk.ComponentAccount) =>
        (snap.account.components[1]?).any fun (sell : Sdk.ComponentAccount) =>
        (view.legs[0]?).any fun (buyLeg : Sdk.AuctionLeg) =>
        (view.legs[1]?).any fun (sellLeg : Sdk.AuctionLeg) =>
          decide (buy.mint = addr 2 ∧ sell.mint = addr 3 ∧ sellLeg.sellable = 41666662500 ∧
            1237499877 ≤ buyLeg.buyable) &&
          okAnd (Keeper.quotePair sell buy 100 41666662500) fun quote =>
            decide (quote.buyAmount = 1237499877)) w)
    (by decide +kernel)
  simp only [localView, Bool.and_eq_true, decide_eq_true_eq, okAnd_iff, Option.any_eq_true] at hp
  obtain ⟨⟨hmint, hlive, hvaults, hthawed, hpays, hreceives, hholds⟩, snap, hsnap, view, hview,
    hpremium, buy, hbuy, sell, hsell, buyLeg, hbuyLeg, sellLeg, hsellLeg,
    ⟨hbuyMint, hsellMint, hsellable, hbuyable⟩, quote, hquote, hprice⟩ := hp
  rw [← hmint] at hsnap hvaults hthawed
  obtain ⟨t, ht, htm, -, -, htf⟩ := hreceives
  have hready : BidReady localnet idx.indexMint w idx sell.mint buy.mint quote.buyAmount
      (signer 40) indexAccount (account 1) (account 22) (account 21) (account 7)
      [account 1002, account 1003] :=
    { signed := rfl
      outsider := localnet_outsider (by decide)
      index := by
        rw [hmint]
        decide
      mint := hmint.symm
      token := rfl
      vaults_eq := hvaults
      thawed := hthawed
      receives := ⟨t, ht, htm.trans hsellMint.symm, htf⟩
      pays := by
        rw [hbuyMint]
        exact hpays
      holds := by
        rw [hprice]
        exact_mod_cast hholds }
  refine ⟨w, idx, view, sellLeg, hreach, hidx, hsellLeg, hsellable, ?_⟩
  exact view_is_honoured hreach hidx hlive hsnap hview hpremium hsell
    hbuy (by decide) hsellLeg hbuyLeg hquote (by decide) (by rw [hsellable]; decide) (by omega)
    (by omega) (by rw [hprice]; decide) hready

end Flock
