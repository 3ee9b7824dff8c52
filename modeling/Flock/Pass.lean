import Flock.Consent
import Flock.PlanRun

/-!
# A pass of the keeper, with everybody else around

`runOnce` reads the index, the market and its own accounts, plans, and sends the actions of
the plan one after another; whatever goes wrong with one it logs and goes on to the next.
Between any two of its steps the rest of the world goes on: `Meanwhile` is any number of
calls by anybody else and of steps outside the program that leave the keeper's accounts
alone. So what a transaction meets need not be what the plan saw, and which ones land is
not up to the keeper.

What it is left with is up to the keeper all the same. A bid that lands brings what it asked
for and costs no more than it offered, and the plan offers only what is worth less on the
market than what it asks for. `pass_profits` puts the two together. It supposes a policy
that asks for an edge of a basis point at least and sells no more than a whole leg, and
accounts of the keeper without delegates.
-/

namespace Flock

open Outcome MachineInt Graded

variable {ch : Chain} {ata : Keeper.AssociatedTokens} {keeper m : Pubkey} {w w' w₀ : World}
  {idx : Index} {snap : Sdk.IndexSnapshot}

namespace Keeper

/-- `inventoryOf`: a missing account holds nothing. -/
def inventoryOf (ata : AssociatedTokens) (w : World) (owner : Pubkey) (mints : List Pubkey) :
    List Int :=
  mints.map fun mint => (w.amount (ata.address mint owner) : Int)

/-- `quotes.get(mint)?.priceE9 ?? 0n` for each mint. -/
def marketPrices (quotes : Pubkey → Option Int) (mints : List Pubkey) : List Int :=
  mints.map fun mint => (quotes mint).getD 0

/-- What the rest of the world does while the keeper is busy. -/
inductive Abroad (ch : Chain) (keeper : Pubkey) (w w' : World) : Prop where
  | call {accounts : List AccountInfo} {ix : FlockInstruction} (signable : Signable ch accounts)
      (stranger : calls keeper accounts = false) (done : process ch w accounts ix = .ok w') :
      Abroad ch keeper w w'
  | outside (h : Outside ch w w') (spared : Spared keeper w w') : Abroad ch keeper w w'

def Meanwhile (ch : Chain) (keeper : Pubkey) : World → World → Prop :=
  Relation.ReflTransGen (Abroad ch keeper)

/-- The loop of `runOnce` over the actions, and those that landed. An action that does not
land, for whatever reason, is caught and left behind. -/
inductive Sends (ch : Chain) (ata : AssociatedTokens) (keeper : Pubkey)
    (snap : Sdk.IndexSnapshot) : World → List Action → List Action → World → Prop where
  | finished {w : World} : Sends ch ata keeper snap w [] [] w
  | meanwhile {w w₁ w' : World} {actions landed : List Action} (h : Meanwhile ch keeper w w₁)
      (rest : Sends ch ata keeper snap w₁ actions landed w') :
      Sends ch ata keeper snap w actions landed w'
  | done {w w₁ w' : World} {a : Action} {actions landed : List Action}
      (h : send ch ata keeper snap w a = .ok w₁) (rest : Sends ch ata keeper snap w₁ actions landed w') :
      Sends ch ata keeper snap w (a :: actions) (a :: landed) w'
  | failed {w w' : World} {a : Action} {actions landed : List Action}
      (rest : Sends ch ata keeper snap w actions landed w') :
      Sends ch ata keeper snap w (a :: actions) landed w'

/-- One `runOnce` that reads the index in `w` and ends in `w'`. -/
structure Pass (ch : Chain) (ata : AssociatedTokens) (keeper m : Pubkey) (w : World)
    (input : PlanInput) (landed : List Action) (w' : World) : Prop where
  snapshot : ∃ asOf, Sdk.snapshot ch w m asOf = .ok input.snapshot
  prices : ∃ quotes : Pubkey → Option Int, (∀ mint price, quotes mint = some price → 0 < price) ∧
    input.marketPricesE9
      = marketPrices quotes (input.snapshot.account.components.map Sdk.ComponentAccount.mint)
  sends : ∃ w₁ p, Meanwhile ch keeper w w₁ ∧
    input.inventory
      = inventoryOf ata w₁ keeper (input.snapshot.account.components.map Sdk.ComponentAccount.mint) ∧
    plan input = .ok p ∧ Sends ch ata keeper input.snapshot w₁ p.actions landed w'

/-- What an action moves between the keeper and the fund, at the worst for the keeper. -/
def tradeOf (snap : Sdk.IndexSnapshot) : Action → Pubkey → ℤ
  | .bid s b x y _ _ => Pi.single (mintAt snap s) x - Pi.single (mintAt snap b) y
  | _ => 0

end Keeper

/-! ## Meanwhile -/

theorem perOwned_nonneg (w : World) (u : Pubkey) (ms : List Pubkey) (xs : List UInt64)
    (accounts : List AccountInfo) (M : Pubkey) : 0 ≤ perOwned w u ms xs accounts M := by
  fun_induction perOwned w u ms xs accounts with
  | case1 M' ms x xs a rest ih =>
    have hx := coins_nonneg (w.owns u M' a.key = true) M' M x.toNat
    rw [Pi.add_apply]
    omega
  | case2 => rw [Pi.zero_apply]

/-- Nobody is promised less than nothing. -/
theorem receipts_nonneg (w : World) (u : Pubkey) (accounts : List AccountInfo)
    (ix : FlockInstruction) (M : Pubkey) : 0 ≤ receipts w u accounts ix M := by
  cases ix with
  | issue amount maxIn =>
    unfold receipts
    dsimp only
    split
    · exact coins_nonneg _ _ _ _
    · exact le_refl _
  | redeem amount minOut =>
    unfold receipts
    dsimp only
    split
    · exact perOwned_nonneg _ _ _ _ _ _
    · exact le_refl _
  | bid s b sellAmount maxBuyAmount =>
    match accounts with
    | _ :: indexInfo :: _ :: _ :: _ =>
      unfold receipts
      dsimp only
      cases (w.mints indexInfo.key)[s.toNat]? with
      | some _ => exact coins_nonneg _ _ _ _
      | none => exact le_refl _
    | [] | [_] | [_, _] | [_, _, _] => exact le_refl _
  | initIndex | addComponent | sealIndex | accrueFees | proposeRebalance | endRebalance | setParams
  | setAuthority | setPaused => exact le_refl _

theorem Keeper.Abroad.gains (h : Abroad ch keeper w w') (hu : ch.Personal keeper) :
    Gains keeper 0 w w' := by
  cases h with
  | call signable stranger done =>
    refine (process_earns hu (fun _ => signable.concerned) w' done).weaken fun M => ?_
    rw [settlement, stranger, if_neg Bool.false_ne_true, sub_zero]
    exact receipts_nonneg _ _ _ _ M
  | outside h spared => exact spared.gains h.records

theorem Keeper.Meanwhile.gains (h : Meanwhile ch keeper w w') (hu : ch.Personal keeper) :
    Gains keeper 0 w w' := by
  induction h with
  | refl => exact (purses keeper).refl w
  | tail _ hstep ih => exact (add_zero (0 : Pubkey → ℤ)) ▸ (purses keeper).trans ih (hstep.gains hu)

/-! ## A transaction that lands -/

/-- The account a bid is paid into is the keeper's own when the bid arrives. -/
theorem createIdempotent_gains {mint : Pubkey} (h : ata.createIdempotent w mint keeper = .ok w')
    (hdel : w.Undelegated keeper) :
    Gains keeper 0 w w' ∧ w'.owns keeper mint (ata.address mint keeper) = true := by
  rcases ata.create_ok h with ⟨⟨t, ht, hm, ho⟩, rfl⟩ | ⟨hempty, hw⟩
  · exact ⟨(purses keeper).refl w', World.owns_iff.mpr ⟨t, ht, hm, ho, hdel _ t ht ho⟩⟩
  · obtain ⟨hflow, hidx, -, htok⟩ :=
      openAccount_flow (by simp [hempty]) (by simp [hempty]) (by simp [hempty]) hw
    exact ⟨openAccount_gains hflow rfl hidx htok,
      World.owns_iff.mpr ⟨_, (htok _).trans (if_pos rfl), rfl, rfl, rfl⟩⟩

/-- The positions and the amounts of a bid fit the widths of the instruction. -/
def Fitting (idx : Index) : Keeper.Action → Prop
  | .bid s b x y _ _ => ∃ (sell buy : Component) (i j : Nat), idx.components[s]? = some sell ∧
      idx.components[b]? = some buy ∧ x = i ∧ y = j ∧ i < 2 ^ 64 ∧ j < 2 ^ 64
  | _ => True

theorem mints_of_prefix {ms l : List Pubkey} {i : Nat} {M : Pubkey} (h : ms <+: l)
    (hM : ms[i]? = some M) : l[i]? = some M := by
  obtain ⟨l', rfl⟩ := h
  rw [List.getElem?_append_left (List.getElem?_eq_some_iff.mp hM).1, hM]

section Send

variable (hu : ch.Personal keeper) (hS : Seen ch m w₀ idx snap) (hm : ch.inUse m)
  (hlen : idx.components.length ≤ maxComponents)
include hu hS hm hlen

/-- An action that lands brings what it asked for, and costs what it offered at most. -/
theorem send_earns {a : Keeper.Action} (ha : Fitting idx a) (hdel : w.Undelegated keeper)
    (hms : idx.components.map Component.mint <+: w.mints (ch.indexKey m)) :
    (purses keeper).Earns w (Keeper.tradeOf snap a) (Keeper.send ch ata keeper snap w a) := by
  cases a with
  | accrue pendingFee =>
    unfold Keeper.send
    simp only [Keeper.submit, Keeper.tradeOf, process]
    exact accrueFees_earns
  | endExpired =>
    unfold Keeper.send
    simp only [Keeper.submit, Keeper.tradeOf, process]
    exact endRebalance_earns
  | bid s b x y premium edge =>
    obtain ⟨sell, buy, i, j, hsell, hbuy, rfl, rfl, hi, hj⟩ := ha
    rw [send_bid hS hsell hbuy]
    refine earns_through fun w₁ hw₁ => ?_
    obtain ⟨hopen, hown⟩ := createIdempotent_gains hw₁ hdel
    refine ⟨w₁, hopen, ?_⟩
    have hprefix := hms.trans (hopen.mints (ch.indexKey m))
    have hsold : (w₁.mints (ch.indexKey m))[(UInt8.ofNat s).toNat]? = some sell.mint := by
      rw [tablePosition hlen hsell]
      exact mints_of_prefix hprefix (by rw [List.getElem?_map, hsell, Option.map_some])
    have hpaid : (w₁.mints (ch.indexKey m))[(UInt8.ofNat b).toNat]? = some buy.mint := by
      rw [tablePosition hlen hbuy]
      exact mints_of_prefix hprefix (by rw [List.getElem?_map, hbuy, Option.map_some])
    refine (bid_earns hu ?_).imp fun t _ hg => hg.weaken fun M => ?_
    · intro m' hc
      rw [← Option.some.inj (show some m = some m' from hc)]
      exact hm
    · simp only [settlement, receipts, stakes, calls, hsold, hpaid, hown, coins, decide_true,
        if_true, UInt64.toNat_ofNat_of_lt' hi, UInt64.toNat_ofNat_of_lt' hj, Keeper.tradeOf,
        hS.mintAt hsell, hS.mintAt hbuy, le_refl]

/-- The run lemma: what landed adds up, whatever happened in between. -/
theorem sends_gains {actions landed : List Keeper.Action}
    (h : Keeper.Sends ch ata keeper snap w actions landed w') (hall : ∀ a ∈ actions, Fitting idx a)
    (hdel : w.Undelegated keeper)
    (hms : idx.components.map Component.mint <+: w.mints (ch.indexKey m)) :
    Gains keeper (landed.map (Keeper.tradeOf snap)).sum w w' ∧ landed.Sublist actions := by
  induction h with
  | finished => exact ⟨(purses keeper).refl _, .slnil⟩
  | meanwhile hw rest ih =>
    have hg := hw.gains hu
    obtain ⟨hrest, hsub⟩ := ih hall (hg.undelegated hdel) (hms.trans (hg.mints _))
    have hboth := (purses keeper).trans hg hrest
    rw [zero_add] at hboth
    exact ⟨hboth, hsub⟩
  | done hsent rest ih =>
    have hg := send_earns hu hS hm hlen (hall _ (List.mem_cons_self ..)) hdel hms _ hsent
    obtain ⟨hrest, hsub⟩ := ih (fun a ha => hall a (List.mem_cons_of_mem _ ha))
      (hg.undelegated hdel) (hms.trans (hg.mints _))
    rw [List.map_cons, List.sum_cons]
    exact ⟨(purses keeper).trans hg hrest, hsub.cons_cons _⟩
  | failed rest ih =>
    obtain ⟨hrest, hsub⟩ := ih (fun a ha => hall a (List.mem_cons_of_mem _ ha)) hdel hms
    exact ⟨hrest, hsub.cons _⟩

end Send

/-! ## What it is worth -/

namespace Keeper

/-- Holdings at the market prices the pass read, in USD-e9 and exactly. -/
def worth (input : PlanInput) (holdings : Pubkey → ℤ) : ℚ :=
  (input.snapshot.account.components.zipIdx.map fun x =>
    (holdings x.1.mint : ℚ) * input.marketPricesE9.getD x.2 0 / 10 ^ x.1.decimals).sum

variable {input : PlanInput}

theorem worth_add (g h : Pubkey → ℤ) : worth input (g + h) = worth input g + worth input h := by
  unfold worth
  rw [← List.sum_map_add]
  congr 1
  refine List.map_congr_left fun x _ => ?_
  rw [Pi.add_apply]
  push_cast
  ring

theorem worth_sub (g h : Pubkey → ℤ) : worth input (g - h) = worth input g - worth input h := by
  rw [eq_sub_iff_add_eq, ← worth_add, sub_add_cancel]

theorem worth_zero : worth input 0 = 0 := by
  rw [← sub_self (0 : Pubkey → ℤ), worth_sub, sub_self]

theorem worth_sum (gs : List (Pubkey → ℤ)) : worth input gs.sum = (gs.map (worth input)).sum := by
  induction gs with
  | nil => exact worth_zero
  | cons g gs ih => rw [List.sum_cons, worth_add, ih, List.map_cons, List.sum_cons]

/-- More is worth more, as no price is negative. -/
theorem worth_mono (hprices : ∀ i, 0 ≤ input.marketPricesE9.getD i 0) {g h : Pubkey → ℤ}
    (hle : ∀ M, g M ≤ h M) : worth input g ≤ worth input h := by
  unfold worth
  refine List.sum_le_sum fun x _ => ?_
  have hg : (g x.1.mint : ℚ) ≤ h x.1.mint := by exact_mod_cast hle x.1.mint
  have hp : (0 : ℚ) ≤ input.marketPricesE9.getD x.2 0 := by exact_mod_cast hprices x.2
  exact div_le_div_of_nonneg_right (mul_le_mul_of_nonneg_right hg hp) (by positivity)

/-- In a table with no mint twice, tokens of a component are worth what that component is. -/
theorem worth_single (hnodup : (input.snapshot.account.components.map
      Sdk.ComponentAccount.mint).Nodup) {i : Nat} {c : Sdk.ComponentAccount}
    (hc : input.snapshot.account.components[i]? = some c) (x : ℤ) :
    worth input (Pi.single c.mint x) = x * input.marketPricesE9.getD i 0 / 10 ^ c.decimals := by
  have hkeys : (input.snapshot.account.components.zipIdx.map fun p => p.1.mint).Nodup := by
    rw [← List.zipIdx_map_fst 0 input.snapshot.account.components, List.map_map] at hnodup
    exact hnodup
  have hmem : (c, i) ∈ input.snapshot.account.components.zipIdx :=
    List.mk_mem_zipIdx_iff_getElem?.mpr hc
  have hsum := FiniteSum.sum_map_ite_key hkeys hmem
    ((x : ℚ) * input.marketPricesE9.getD i 0 / 10 ^ c.decimals)
  rw [← hsum]
  unfold worth
  congr 1
  refine List.map_congr_left fun p hp => ?_
  by_cases he : p.1.mint = c.mint
  · obtain rfl := List.inj_on_of_nodup_map hkeys hp hmem he
    rw [Pi.single_eq_same, if_pos rfl]
  · rw [Pi.single_eq_of_ne he, if_neg he, Int.cast_zero, zero_mul, zero_div]

theorem marketValue_le {i : Nat} {c : Sdk.ComponentAccount} {x : ℤ} (hx : 0 ≤ x)
    (hprice : 0 ≤ input.marketPricesE9.getD i 0) :
    (marketValue input i c x : ℚ) ≤ x * input.marketPricesE9.getD i 0 / 10 ^ c.decimals ∧
      x * input.marketPricesE9.getD i 0 / 10 ^ c.decimals < (marketValue input i c x : ℚ) + 1 := by
  have hpow : (0 : ℤ) < 10 ^ c.decimals := by positivity
  have hpow' : (0 : ℚ) < 10 ^ c.decimals := by positivity
  unfold marketValue
  rw [Int.tdiv_eq_ediv_of_nonneg (mul_nonneg hx hprice)]
  have hlow := Int.ediv_mul_le (x * input.marketPricesE9.getD i 0) hpow.ne'
  have hhigh := Int.lt_ediv_add_one_mul_self (x * input.marketPricesE9.getD i 0) hpow
  rw [le_div_iff₀ hpow', div_lt_iff₀ hpow']
  exact ⟨by exact_mod_cast hlow, by exact_mod_cast hhigh⟩

/-- What clears the market is worth more than what is paid for it, exactly. -/
theorem Cleared.worth_pos {s b : Nat} {sell buy : Sdk.ComponentAccount} {x y : ℤ}
    (h : Cleared input s b sell buy x y) (hedge : 1 ≤ input.policy.minEdgeBps)
    (hprices : ∀ i, 0 ≤ input.marketPricesE9.getD i 0) (hx : 0 ≤ x) (hy : 0 ≤ y) :
    (y : ℚ) * input.marketPricesE9.getD b 0 / 10 ^ buy.decimals
      < x * input.marketPricesE9.getD s 0 / 10 ^ sell.decimals := by
  have hout := (marketValue_le (c := sell) hx (hprices s)).1
  have hin := (marketValue_le (c := buy) hy (hprices b)).2
  have hless : (marketValue input b buy y : ℚ) + 1 ≤ marketValue input s sell x := by
    exact_mod_cast h.gain_pos hedge (hprices b) hy
  linarith

end Keeper

/-! ## The pass -/

theorem Sdk.snapshot_index {asOf : Int} (h : Sdk.snapshot ch w m asOf = .ok snap) :
    ∃ idx, w.index? (ch.indexKey m) = some idx := by
  cases hidx : w.index? (ch.indexKey m) with
  | some idx => exact ⟨idx, rfl⟩
  | none =>
    rw [Sdk.snapshot, hidx] at h
    cases h

/-- The market has a price of something or none, which counts as zero. -/
theorem Keeper.marketPrices_nonneg {quotes : Pubkey → Option Int}
    (h : ∀ mint price, quotes mint = some price → 0 < price) (mints : List Pubkey) (i : Nat) :
    0 ≤ (Keeper.marketPrices quotes mints).getD i 0 := by
  rw [Keeper.marketPrices, List.getD_eq_getElem?_getD, List.getElem?_map]
  cases mints[i]? with
  | none => exact le_refl _
  | some mint =>
    show 0 ≤ (quotes mint).getD 0
    cases hq : quotes mint with
    | none => exact le_refl _
    | some price => exact (h mint price hq).le

/-- Everything an account holds fits a `u64`. -/
theorem Keeper.inventoryOf_range (w : World) (mints : List Pubkey) (i : Nat) :
    0 ≤ (Keeper.inventoryOf ata w keeper mints).getD i 0 ∧
      (Keeper.inventoryOf ata w keeper mints).getD i 0 < 2 ^ 64 := by
  rw [Keeper.inventoryOf, List.getD_eq_getElem?_getD, List.getElem?_map]
  cases mints[i]? with
  | none =>
    show (0 : Int) ≤ 0 ∧ (0 : Int) < 2 ^ 64
    decide
  | some mint =>
    have hlt := w.amount_lt (ata.address mint keeper)
    show 0 ≤ (w.amount _ : Int) ∧ (w.amount _ : Int) < 2 ^ 64
    omega

/-- A bid of the plan that clears the market. -/
def Worthwhile (input : Keeper.PlanInput) (idx : Index) : Keeper.Action → Prop
  | .bid s b x y _ _ => 0 ≤ x ∧ 0 ≤ y ∧ ∃ sell buy, idx.components[s]? = some sell ∧
      idx.components[b]? = some buy ∧
      Keeper.Cleared input s b (Sdk.decodeComponent sell) (Sdk.decodeComponent buy) x y
  | _ => True

section Plan

variable {input : Keeper.PlanInput}

/-- What a plan is made of, whatever was read. -/
theorem plan_fitting {p : Keeper.Plan} (hS : Seen ch m w idx input.snapshot)
    (hshare : 0 ≤ input.policy.maxLegShareBps ∧ input.policy.maxLegShareBps ≤ 10000)
    (hheld : ∀ i, 0 ≤ input.inventory.getD i 0 ∧ input.inventory.getD i 0 < 2 ^ 64)
    (horder : idx.rebalance.active ≠ 0 → AuctionInOrder idx) (h : Keeper.plan input = .ok p)
    {a : Keeper.Action} (ha : a ∈ p.actions) : Fitting idx a ∧ Worthwhile input idx a := by
  rw [Keeper.plan_actions h, planAccrual_actions, List.mem_append] at ha
  rcases ha with ha | ha
  · split at ha
    · rw [List.mem_singleton.mp ha]
      exact ⟨trivial, trivial⟩
    · cases ha
  · unfold Keeper.auctionActions at ha
    split at ha
    · rw [List.mem_singleton.mp ha]
      exact ⟨trivial, trivial⟩
    · obtain ⟨s, b, x, y, premium, edge, sell, buy, -, -, rfl, hoffer, hsell, hbuy, hclear⟩ :=
        soleBids_cleared hS hshare (fun i => (hheld i).1) horder ha
      obtain ⟨sell', buy', hsell', -, -, hexcess, -⟩ := hoffer.legs
      have hx : x < 2 ^ 64 := by
        have := w.vault_lt ch m sell'
        omega
      have hy : y < 2 ^ 64 := by exact_mod_cast hoffer.held.trans_lt (hheld b).2
      exact ⟨⟨sell, buy, x, y, hsell, hbuy, rfl, rfl, hx, hy⟩,
        Int.natCast_nonneg x, Int.natCast_nonneg y, sell, buy, hsell, hbuy, hclear⟩

/-- A bid, and not the housekeeping. -/
def Keeper.Action.isBid : Keeper.Action → Bool
  | .bid .. => true
  | _ => false

/-- What a bid of the plan moves is worth more than nothing. -/
theorem Worthwhile.worth {a : Keeper.Action} (h : Worthwhile input idx a)
    (hS : Seen ch m w idx input.snapshot) (hC : Custody ch m w idx)
    (hedge : 1 ≤ input.policy.minEdgeBps) (hprices : ∀ i, 0 ≤ input.marketPricesE9.getD i 0) :
    0 ≤ Keeper.worth input (Keeper.tradeOf input.snapshot a) ∧
      (a.isBid = true → 0 < Keeper.worth input (Keeper.tradeOf input.snapshot a)) := by
  cases a with
  | accrue | endExpired => exact ⟨Keeper.worth_zero.ge, fun hb => absurd hb Bool.false_ne_true⟩
  | bid s b x y premium edge =>
    obtain ⟨hx, hy, sell, buy, hsell, hbuy, hclear⟩ := h
    have hat : ∀ {i : Nat} {c : Component}, idx.components[i]? = some c →
        input.snapshot.account.components[i]? = some (Sdk.decodeComponent c) := by
      intro i c hc
      rw [hS.components, List.getElem?_map, hc, Option.map_some]
    have hnodup : (input.snapshot.account.components.map Sdk.ComponentAccount.mint).Nodup := by
      rw [hS.components, List.map_map]
      exact hC.nodup
    have hpos : 0 < Keeper.worth input
        (Keeper.tradeOf input.snapshot (.bid s b x y premium edge)) := by
      rw [Keeper.tradeOf, hS.mintAt hsell, hS.mintAt hbuy, Keeper.worth_sub, sub_pos]
      have hout := Keeper.worth_single hnodup (hat hsell) x
      have hin := Keeper.worth_single hnodup (hat hbuy) y
      rw [show sell.mint = (Sdk.decodeComponent sell).mint from rfl, hout,
        show buy.mint = (Sdk.decodeComponent buy).mint from rfl, hin]
      exact hclear.worth_pos hedge hprices hx hy
    exact ⟨hpos.le, fun _ => hpos⟩

end Plan

/-- What the keeper holds, mint by mint. -/
noncomputable def World.holdings (w : World) (u : Pubkey) : Pubkey → ℤ := fun M => w.purse u M

/-- However a pass is interleaved with what everybody else does, and whichever of its
transactions land: the keeper is left with what it had, plus what the bids that landed asked
for, less what they offered at most; each of these bids is worth more than nothing at the
market prices the pass read, and so what the keeper has is worth no less than before. -/
theorem pass_profits (h : Reachable ch w) (hm : ch.inUse m) (hu : ch.Personal keeper)
    (hdel : w.Undelegated keeper) {input : Keeper.PlanInput} {landed : List Keeper.Action}
    (hpolicy : 1 ≤ input.policy.minEdgeBps ∧ 0 ≤ input.policy.maxLegShareBps ∧
      input.policy.maxLegShareBps ≤ 10000)
    (hpass : Keeper.Pass ch ata keeper m w input landed w') :
    (∀ M, w.holdings keeper M + (landed.map (Keeper.tradeOf input.snapshot)).sum M
      ≤ w'.holdings keeper M) ∧
    (∀ a ∈ landed, a.isBid = true →
      0 < Keeper.worth input (Keeper.tradeOf input.snapshot a)) ∧
    Keeper.worth input (w.holdings keeper) ≤ Keeper.worth input (w'.holdings keeper) := by
  obtain ⟨⟨asOf, hsnap⟩, ⟨quotes, hquotes, hmarket⟩, w₁, p, hwait, hinventory, hplan, hsends⟩ := hpass
  obtain ⟨idx, hidx⟩ := Sdk.snapshot_index hsnap
  have hW : AllWf ch w := (reachable_wf h).1
  have hwf := hW.wf hm hidx
  have hS := hwf.seen hidx hsnap
  have hprices : ∀ i, 0 ≤ input.marketPricesE9.getD i 0 := by
    intro i
    rw [hmarket]
    exact Keeper.marketPrices_nonneg hquotes _ i
  have hheld : ∀ i, 0 ≤ input.inventory.getD i 0 ∧ input.inventory.getD i 0 < 2 ^ 64 := by
    intro i
    rw [hinventory]
    exact Keeper.inventoryOf_range w₁ _ i
  have hall := fun a (ha : a ∈ p.actions) =>
    plan_fitting hS hpolicy.2 hheld (reachable_orderly h hm hidx) hplan ha
  -- the wait and the sending
  have hwaited := hwait.gains hu
  have hms : idx.components.map Component.mint <+: w₁.mints (ch.indexKey m) := by
    rw [← World.mints_of_index? hidx]
    exact hwaited.mints _
  obtain ⟨hsent, hsub⟩ := sends_gains hu hS hm hwf.room hsends (fun a ha => (hall a ha).1)
    (hwaited.undelegated hdel) hms
  have hgains := (purses keeper).trans hwaited hsent
  rw [zero_add] at hgains
  have hworthwhile : ∀ a ∈ landed, 0 ≤ Keeper.worth input (Keeper.tradeOf input.snapshot a) ∧
      (a.isBid = true → 0 < Keeper.worth input (Keeper.tradeOf input.snapshot a)) :=
    fun a ha => (hall a (hsub.subset ha)).2.worth hS hwf.custody hpolicy.1 hprices
  refine ⟨hgains.purse, fun a ha => (hworthwhile a ha).2, ?_⟩
  have hmono := Keeper.worth_mono hprices (g := w.holdings keeper +
    (landed.map (Keeper.tradeOf input.snapshot)).sum) (h := w'.holdings keeper) hgains.purse
  rw [Keeper.worth_add, Keeper.worth_sum, List.map_map] at hmono
  have hnonneg : 0 ≤ (landed.map (Keeper.worth input ∘ Keeper.tradeOf input.snapshot)).sum := by
    refine List.sum_nonneg fun v hv => ?_
    obtain ⟨a, ha, rfl⟩ := List.mem_map.mp hv
    exact (hworthwhile a ha).1
  linarith

/-- Sending without interruption is one way it can go. -/
theorem sends_of_run {actions : List Keeper.Action}
    (h : Replay.run (Keeper.send ch ata keeper snap) w actions = .ok w') :
    Keeper.Sends ch ata keeper snap w actions actions w' := by
  induction actions generalizing w with
  | nil =>
    obtain rfl := Except.ok.inj h
    exact .finished
  | cons a actions ih =>
    obtain ⟨w₁, ha, hrest⟩ := bind_ok_iff.mp h
    exact .done ha (ih hrest)

/-- On the local chain nobody becomes a delegate. -/
theorem Act.undelegated {act : Act} {k : Pubkey} (hk : k.val.toNat < localBase)
    (hp : act.permitted = true) (h : act.run localnet w = .ok w') (hdel : w.Undelegated k) :
    w'.Undelegated k := by
  cases act with
  | call accounts ix =>
    have hg := process_earns (localnet_personal hk) (fun _ => (Act.signable hp).concerned) w' h
    exact hg.undelegated hdel
  | tick t =>
    obtain ⟨-, rfl⟩ := Act.tick_ok h
    exact hdel
  | transfer s d a x => exact (transfer_handsNone h).undelegated hdel
  | burn s m a x => exact (burn_handsNone h).undelegated hdel

theorem localWorld_undelegated (k : Pubkey) : localWorld.Undelegated k := by
  intro j t ht _
  rcases World.accounts_ofAccounts 0 localAccounts j with hj | hj
  · have ha := World.accounts_of_token? ht
    rw [localWorld, hj] at ha
    cases ha
  · have hall : ∀ e ∈ localAccounts, ∀ t', e.2 = .token t' → t'.delegate = none := by
      intro e he t' het
      simp only [localAccounts, tokenAccount, List.mem_cons, List.not_mem_nil, or_false] at he
      rcases he with rfl | rfl | rfl | rfl | rfl | rfl | rfl <;> cases het <;> rfl
    exact hall _ hj t (World.accounts_of_token? ht)

theorem localRun_undelegated {k : Pubkey} (hk : k.val.toNat < localBase) {acts : List Act}
    (h : perform (fun _ act => act.permitted) localWorld acts = .ok w) : w.Undelegated k := by
  have hsteps := perform_run (R := fun w w' => w.Undelegated k → w'.Undelegated k)
    (fun hp hact => Act.undelegated hk hp hact) h
  clear h
  induction hsteps with
  | refl => exact localWorld_undelegated k
  | tail _ hstep ih => exact hstep ih

/-- Component 2 is quoted at one dollar, component 3 at thirty. -/
def localQuotes (mint : Pubkey) : Option Int :=
  if mint = addr 2 then some 1000000000 else if mint = addr 3 then some 30000000000 else none

/-- Holder 40 sends an accrual and a bid, and both land. -/
theorem pass_profits_local : ∃ (w w' : World) (input : Keeper.PlanInput)
    (landed : List Keeper.Action), landed.length = 2 ∧ landed.any Keeper.Action.isBid = true ∧
    (∀ M, w.holdings (addr 40) M + (landed.map (Keeper.tradeOf input.snapshot)).sum M
      ≤ w'.holdings (addr 40) M) ∧
    (∀ a ∈ landed, a.isBid = true →
      0 < Keeper.worth input (Keeper.tradeOf input.snapshot a)) ∧
    Keeper.worth input (w.holdings (addr 40)) ≤ Keeper.worth input (w'.holdings (addr 40)) := by
  have hrun : endsIn (perform (fun _ act => act.permitted) localWorld localAuction) (fun w =>
      localPlan (sharePolicy 5000) localPrices (fun input p =>
        decide (p.actions.length = 2 ∧ p.actions.any Keeper.Action.isBid = true) &&
        decide (input.marketPricesE9 = Keeper.marketPrices localQuotes
          (input.snapshot.account.components.map Sdk.ComponentAccount.mint)) &&
        decide (input.inventory = Keeper.inventoryOf localAssociated w (addr 40)
          (input.snapshot.account.components.map Sdk.ComponentAccount.mint)) &&
        endsIn (Replay.run (Keeper.send localnet localAssociated (addr 40) input.snapshot) w
          p.actions) fun _ => true) w) = true := by
    decide +kernel
  obtain ⟨w, hw, hp⟩ := endsIn_iff.mp hrun
  obtain ⟨input, p, hsnap, -, hpolicy, -, hplan, hp⟩ := localPlan_iff hp
  simp only [Bool.and_eq_true, decide_eq_true_eq] at hp
  obtain ⟨⟨⟨⟨hlen, hbid⟩, hmarket⟩, hinventory⟩, hdone⟩ := hp
  obtain ⟨w', hw', -⟩ := endsIn_iff.mp hdone
  have hquotes : ∀ mint price, localQuotes mint = some price → 0 < price := by
    intro mint price hq
    unfold localQuotes at hq
    split at hq
    · rw [← Option.some.inj hq]
      decide
    · split at hq
      · rw [← Option.some.inj hq]
        decide
      · cases hq
  have hdel := localRun_undelegated (k := addr 40) (by decide) hw
  have hpolicy' : 1 ≤ input.policy.minEdgeBps ∧ 0 ≤ input.policy.maxLegShareBps ∧
      input.policy.maxLegShareBps ≤ 10000 := by
    rw [hpolicy]
    decide
  refine ⟨w, w', input, p.actions, hlen, hbid, pass_profits
    ⟨localWorld, localWorld_genesis, perform_run Act.step hw⟩
    (show (addr 1).val.toNat < 2 * localBase by decide) (localnet_personal (by decide)) hdel hpolicy'
    ⟨⟨_, hsnap⟩, ⟨localQuotes, hquotes, hmarket⟩, w, p, .refl, hinventory, hplan, sends_of_run hw'⟩⟩

end Flock
