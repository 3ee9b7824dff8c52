import Flock.Lib.Swaps
import Flock.Planned
import Flock.Refusals
import Flock.SelfListing

/-!
# Sending a plan

The keeper sends the actions of a plan one after another. What the bids among
them find is a `Book`: by table position, what the vault holds and what the
keeper holds. A bid fits if the sold vault is above its target by what it takes,
the bought one below its cap by what it pays, and the keeper has that. `Midway`
keeps the book and the chain in agreement, and the run lemma of `Replay` does the
rest.
-/

namespace Flock

open Outcome MachineInt

variable {ch : Chain} {m : Pubkey} {w w' : World} {idx idx' : Index}
  {ata : Keeper.AssociatedTokens} {keeper : Pubkey}

/-! ## The book -/

/-- By table position, what the vault holds and what the keeper holds. -/
abbrev Book := Swaps.Stock Nat

/-- The bid fits into the book at supply `S`. -/
def Book.Admits (idx : Index) (S : Nat) (book : Book) : Keeper.Action → Prop
  | .bid s b x y _ _ => ∃ sell buy, idx.components[s]? = some sell ∧
      idx.components[b]? = some buy ∧ sell.target S + x.toNat ≤ book.vault s ∧
      book.vault b + y.toNat ≤ buy.cap S idx.maxPremiumBps ∧ y.toNat ≤ book.held b
  | _ => True

/-- A bid swaps. -/
def Book.after (book : Book) : Keeper.Action → Book
  | .bid s b x y _ _ => Swaps.Stock.after book ⟨s, b, x.toNat, y.toNat⟩
  | _ => book

/-- The book before the first bid. -/
def World.book (w : World) (ch : Chain) (m : Pubkey) (idx : Index)
    (ata : Keeper.AssociatedTokens) (keeper : Pubkey) : Book where
  vault := fun i => match idx.components[i]? with
    | some c => w.vault ch m c
    | none => 0
  held := fun i => match idx.components[i]? with
    | some c => w.amount (ata.address c.mint keeper)
    | none => 0

/-! ## The keeper's accounts -/

/-- An account of `mint` that is the keeper's to spend from. -/
def Purse (w : World) (k mint keeper : Pubkey) : Prop :=
  ∃ t, w.token? k = some t ∧ t.mint = mint ∧ t.owner = keeper ∧ t.delegate = none ∧
    t.frozen = false

/-- Moving tokens leaves an account with its mint and owner. -/
theorem Purse.of_flow {k mint : Pubkey} {dS dA : Pubkey → ℤ} (h : Purse w k mint keeper)
    (hf : Flow w w' dS dA) : Purse w' k mint keeper := by
  obtain ⟨t, ht, hm, ho, hd, hfr⟩ := h
  obtain ⟨t', ht', hm', ho', hfr', hd'⟩ := hf.account ht
  exact ⟨t', ht', hm'.trans hm, ho'.trans ho, hd' hd, hfr'.trans hfr⟩

instance (w : World) (k mint keeper : Pubkey) : Decidable (Purse w k mint keeper) :=
  decidable_of_iff ((w.token? k).any (fun t => decide (t.mint = mint ∧ t.owner = keeper ∧
      t.delegate = none ∧ t.frozen = false)) = true)
    (by simp only [Purse, Option.any_eq_true, decide_eq_true_eq])

/-- The keeper's account of `mint`: its own, or not opened yet. -/
def Till (ata : Keeper.AssociatedTokens) (w : World) (mint keeper : Pubkey) : Prop :=
  Purse w (ata.address mint keeper) mint keeper ∨
    (w.accounts (ata.address mint keeper) = .empty ∧ ∃ mi, w.mint? mint = some mi)

/-- Where no address is opened, the accounts of the keeper are the ones they were. -/
theorem Till.of_flow {mint : Pubkey} {dS dA : Pubkey → ℤ} (h : Till ata w mint keeper)
    (hf : Flow w w' dS dA) (ho : w.OpensNone w') : Till ata w' mint keeper := by
  rcases h with h | ⟨hempty, mi, hmi⟩
  · exact .inl (h.of_flow hf)
  · obtain ⟨mi', hmi', -⟩ := hf.mint?_of hmi
    exact .inr ⟨ho _ hempty, mi', hmi'⟩

/-- An account that holds something is open. -/
theorem Till.purse {mint : Pubkey} (h : Till ata w mint keeper)
    (h0 : w.amount (ata.address mint keeper) ≠ 0) : Purse w (ata.address mint keeper) mint keeper := by
  rcases h with h | ⟨hempty, -⟩
  · exact h
  · exact absurd (World.amount_of_empty hempty) h0

/-- A token account that its issuer did not freeze. -/
def Thawed (w : World) (k : Pubkey) : Prop := ∃ t, w.token? k = some t ∧ t.frozen = false

instance (w : World) (k : Pubkey) : Decidable (Thawed w k) :=
  decidable_of_iff ((w.token? k).any (fun t => decide (t.frozen = false)) = true)
    (by simp only [Thawed, Option.any_eq_true, decide_eq_true_eq])

/-- Moving tokens freezes nothing. -/
theorem Thawed.of_flow {k : Pubkey} {dS dA : Pubkey → ℤ} (h : Thawed w k)
    (hf : Flow w w' dS dA) : Thawed w' k := by
  obtain ⟨t, ht, hfr⟩ := h
  obtain ⟨t', ht', -, -, hfr', -⟩ := hf.account ht
  exact ⟨t', ht', hfr'.trans hfr⟩

/-- The chain between two bids of a plan: the record but for its units, the books
in order, and every leg as the book has it. -/
structure Midway (ch : Chain) (ata : Keeper.AssociatedTokens) (keeper m : Pubkey)
    (idx : Index) (now : Int64) (S : Nat) (w : World) (book : Book) : Prop where
  record : ∃ idx', w.index? (ch.indexKey m) = some idx' ∧ idx.Refreshes idx' ∧ Custody ch m w idx'
  clock : w.clock = now
  sound : w.Sound
  supply : w.supply m = S
  thawed : ∀ c ∈ idx.components, Thawed w (ch.vaultKey m c.mint)
  till : ∀ c ∈ idx.components, Till ata w c.mint keeper
  apart : ∀ c ∈ idx.components, ∀ d ∈ idx.components,
    ata.address c.mint keeper = ata.address d.mint keeper → c.mint = d.mint
  vault : ∀ {i c}, idx.components[i]? = some c → w.vault ch m c = book.vault i
  held : ∀ {i c}, idx.components[i]? = some c →
    w.amount (ata.address c.mint keeper) = book.held i

/-- A component of the record midway, and the component it was in the plan. -/
theorem Index.Refreshes.getElem? (h : idx.Refreshes idx') {i : Nat} {c : Component}
    (hc : idx.components[i]? = some c) :
    ∃ c', idx'.components[i]? = some c' ∧ c'.shape = c.shape := by
  have hmap : (idx'.components.map Component.shape)[i]? = some c.shape := by
    rw [h.shape, List.getElem?_map, hc, Option.map_some]
  rw [List.getElem?_map] at hmap
  exact Option.map_eq_some_iff.mp hmap

/-- The keeper's accounts are no vaults. -/
theorem Custody.vault_ne_till {c : Component} {mint : Pubkey} (hC : Custody ch m w idx)
    (hc : c ∈ idx.components) (hu : ch.Outsider keeper) (hp : Till ata w mint keeper) :
    ch.vaultKey m c.mint ≠ ata.address mint keeper := by
  intro he
  obtain ⟨t, ht, -, ho, -⟩ := hC.vaults c hc
  rw [he] at ht
  rcases hp with ⟨t', ht', -, ho', -⟩ | ⟨hempty, -⟩
  · rw [ht', Option.some.injEq] at ht
    exact hu m hC.inUse (by rw [← ho', ht, ho])
  · rw [World.accounts_of_token? ht] at hempty
    cases hempty

namespace Index.Refreshes

variable (h : idx.Refreshes idx')
include h

/-- A refresh keeps the rebalance. -/
theorem rebalance : idx'.rebalance = idx.rebalance := by rw [h.record]

/-- A refresh keeps the state. -/
theorem state : idx'.state = idx.state := by rw [h.record]

/-- A refresh keeps the premium ceiling. -/
theorem maxPremiumBps : idx'.maxPremiumBps = idx.maxPremiumBps := by rw [h.record]

/-- A refresh keeps the mints. -/
theorem mints : idx'.components.map Component.mint = idx.components.map Component.mint :=
  map_eq_of_shape Component.mint (fun _ => rfl) h.shape

/-- A refresh keeps the vaults. -/
theorem vaultKeys : idx'.vaultKeys ch m = idx.vaultKeys ch m :=
  map_eq_of_shape (fun c => ch.vaultKey m c.mint) (fun _ => rfl) h.shape

/-- The custody of a record is that of the record it refreshes. -/
theorem custody (hC : Custody ch m w idx') : Custody ch m w idx :=
  hC.of_record (by rw [h.record]) (by rw [h.record]) (by rw [h.record]) h.mints.symm

end Index.Refreshes

/-! ## A bid, sent -/

/-- Two components of one shape agree on whatever does not read the units. -/
theorem eq_of_shape {α : Type} {c c' : Component} (f : Component → α)
    (hf : ∀ c, f c.shape = f c) (h : c'.shape = c.shape) : f c' = f c := by
  rw [← hf c', h, hf c]

/-- The price goes by decimals and reference prices. -/
theorem Component.price_of_shape {c c' d d' : Component} (hc : c'.shape = c.shape)
    (hd : d'.shape = d.shape) : c'.price d' = c.price d := by
  rw [eq_of_shape Component.price (fun _ => rfl) hc]
  exact eq_of_shape c.price (fun _ => rfl) hd

/-- Of no supply nothing may be bought. -/
theorem Component.cap_zero (c : Component) (maxPremiumBps : UInt16) : c.cap 0 maxPremiumBps = 0 := by
  rw [Component.cap, Component.target, Nat.mul_zero, Nat.zero_div, Nat.zero_mul, Nat.zero_div]

section Bid

variable {snap : Sdk.IndexSnapshot} {inventory : List Int} {premium : Int} {edge : Double}
  {s b x y : Nat}
  {sell buy : Component} {w₀ : World} {S : Nat} {now : Int64} {book : Book}

/-- A table position fits a byte. -/
theorem tablePosition {i : Nat} {c : Component} (hlen : idx.components.length ≤ maxComponents)
    (hc : idx.components[i]? = some c) : (UInt8.ofNat i).toNat = i := by
  have hlt := (List.getElem?_eq_some_iff.mp hc).1
  exact UInt8.toNat_ofNat_of_lt' (lt_trans (hlt.trans_le hlen) (by decide))

/-- The vaults the keeper lists are those of the table. -/
theorem Seen.vaultAccounts (hS : Seen ch m w₀ idx snap) :
    Keeper.vaultAccounts ch snap = idx.components.map fun c => ⟨ch.vaultKey m c.mint, false⟩ := by
  rw [Keeper.vaultAccounts, hS.components, hS.mint, List.map_map]
  rfl

/-- The mint the keeper looks up is that of the entry. -/
theorem Seen.mintAt {i : Nat} {c : Component} (hS : Seen ch m w₀ idx snap)
    (hc : idx.components[i]? = some c) : Keeper.mintAt snap i = c.mint := by
  rw [Keeper.mintAt, hS.components, List.getElem?_map, hc, Option.map_some]
  rfl

/-- The transaction of a bid for two components of the table. -/
theorem send_bid (hS : Seen ch m w₀ idx snap) (hsell : idx.components[s]? = some sell)
    (hbuy : idx.components[b]? = some buy) :
    Keeper.send ch ata keeper snap w (.bid s b x y premium edge) =
      (ata.createIdempotent w sell.mint keeper >>= fun w₁ =>
        bid ch w₁ (⟨keeper, true⟩ :: ⟨ch.indexKey m, false⟩ :: ⟨m, false⟩ ::
          ⟨ata.address sell.mint keeper, false⟩ :: ⟨ata.address buy.mint keeper, false⟩ ::
          ⟨ch.token.id, false⟩ :: idx.components.map (fun c => ⟨ch.vaultKey m c.mint, false⟩))
          (UInt8.ofNat s) (UInt8.ofNat b) (UInt64.ofNat x) (UInt64.ofNat y)) := by
  unfold Keeper.send
  simp only [Keeper.submit, hS.mintAt hsell, hS.mintAt hbuy, hS.mint, hS.vaultAccounts,
    Int.toNat_natCast]
  rfl

/-- Two table positions are two vaults, and two accounts of the keeper. -/
theorem Midway.position {i j : Nat} {c d : Component}
    (hM : Midway ch ata keeper m idx now S w book) (hc : idx.components[i]? = some c)
    (hd : idx.components[j]? = some d) :
    (ch.vaultKey m c.mint = ch.vaultKey m d.mint ↔ i = j) ∧
      (ata.address c.mint keeper = ata.address d.mint keeper ↔ i = j) := by
  obtain ⟨idx', -, href, hC'⟩ := hM.record
  have hC := href.custody hC'
  have hcm := List.mem_of_getElem? hc
  have hdm := List.mem_of_getElem? hd
  have hsame : c.mint = d.mint → i = j := fun he =>
    by_contra fun hij => hC.mint_ne_of_ne hc hd hij he
  have hmint : i = j → c.mint = d.mint := by
    intro he
    rw [he, hd, Option.some.injEq] at hc
    rw [hc]
  constructor
  · exact ⟨fun he => hsame (hC.vaultKey_inj hcm hdm he), fun he => by rw [hmint he]⟩
  · exact ⟨fun he => hsame (hM.apart c hcm d hdm he), fun he => by rw [hmint he]⟩

/-- The account for the sold token is open when the bid arrives, and nothing else
has changed. -/
theorem Midway.opened (hM : Midway ch ata keeper m idx now S w book) (hsell : sell ∈ idx.components)
    (h : ata.createIdempotent w sell.mint keeper = .ok w') :
    Midway ch ata keeper m idx now S w' book ∧
      Purse w' (ata.address sell.mint keeper) sell.mint keeper := by
  rcases ata.create_ok h with ⟨⟨t, ht, -⟩, rfl⟩ | ⟨hempty, hw⟩
  · refine ⟨hM, (hM.till sell hsell).resolve_right ?_⟩
    intro hnone
    rw [World.accounts_of_token? ht] at hnone
    cases hnone.1
  · obtain ⟨hflow, hrec, -, htok⟩ :=
      openAccount_flow (by simp [hempty]) (by simp [hempty]) (by simp [hempty]) hw
    have hopen : Purse w' (ata.address sell.mint keeper) sell.mint keeper :=
      ⟨_, (htok _).trans (if_pos rfl), rfl, rfl, rfl, rfl⟩
    have hsame : ∀ k, w'.amount k = w.amount k := by
      intro k
      have hk := hflow.amount k
      rw [Pi.zero_apply] at hk
      omega
    refine ⟨?_, hopen⟩
    exact {
      record := by
        obtain ⟨idx', hidx', href, hC⟩ := hM.record
        exact ⟨idx', (congrFun hrec _).trans hidx', href, hC.of_flow hflow⟩
      clock := hflow.clock.trans hM.clock
      sound := hflow.sound hM.sound
      supply := by
        have hsupply := hflow.supply m
        rw [Pi.zero_apply] at hsupply
        rw [← hM.supply]
        omega
      thawed := fun c hc => (hM.thawed c hc).of_flow hflow
      till := by
        intro c hc
        by_cases he : ata.address c.mint keeper = ata.address sell.mint keeper
        · left
          rw [hM.apart c hc sell hsell he]
          exact hopen
        · rcases hM.till c hc with hpurse | ⟨hclosed, mi, hmi⟩
          · exact .inl (hpurse.of_flow hflow)
          · obtain ⟨mi', hmi', -⟩ := hflow.mint?_of hmi
            refine .inr ⟨?_, mi', hmi'⟩
            rw [hw, World.set_accounts, if_neg he, hclosed]
      apart := hM.apart
      vault := fun hc => (hsame _).trans (hM.vault hc)
      held := fun hc => (hsame _).trans (hM.held hc) }

/-- Where the tokens of a bid are afterwards, the book says. -/
theorem Midway.tokens (premium : Int) (edge : Double) {w₂ : World}
    (hM : Midway ch ata keeper m idx now S w book)
    (hu : ch.Outsider keeper) (hsell : idx.components[s]? = some sell)
    (hbuy : idx.components[b]? = some buy) (hx : x ≤ book.vault s) (hy : y ≤ book.held b)
    (hmoved : ∀ k, (w₂.amount k : ℤ) = w.amount k +
      ((Pi.single (ch.vaultKey m buy.mint) (y : ℤ) - Pi.single (ata.address buy.mint keeper) (y : ℤ))
        + (Pi.single (ata.address sell.mint keeper) (x : ℤ) -
          Pi.single (ch.vaultKey m sell.mint) (x : ℤ)) : Pubkey → ℤ) k)
    (hsb : s ≠ b) {i : Nat} {c : Component} (hc : idx.components[i]? = some c) :
    w₂.vault ch m c = (book.after (.bid s b x y premium edge)).vault i ∧
      w₂.amount (ata.address c.mint keeper) = (book.after (.bid s b x y premium edge)).held i := by
  obtain ⟨idx', -, href, hC'⟩ := hM.record
  have hC := href.custody hC'
  have hapart : ∀ {c d : Component}, c ∈ idx.components → d ∈ idx.components →
      ch.vaultKey m c.mint ≠ ata.address d.mint keeper :=
    fun hc hd => hC.vault_ne_till hc hu (hM.till _ hd)
  have hcm := List.mem_of_getElem? hc
  have hsm := List.mem_of_getElem? hsell
  have hbm := List.mem_of_getElem? hbuy
  have hv : (w.amount (ch.vaultKey m c.mint)) = book.vault i := hM.vault hc
  have hp := hM.held hc
  have hsold := hM.position hc hsell
  have hpaid := hM.position hc hbuy
  have hxi : i = s → x ≤ book.vault i := fun he => he ▸ hx
  have hyi : i = b → y ≤ book.held i := fun he => he ▸ hy
  constructor
  · have hk := hmoved (ch.vaultKey m c.mint)
    simp only [Pi.add_apply, Pi.sub_apply, Pi.single_apply, hsold.1, hpaid.1,
      if_neg (hapart hcm hsm), if_neg (hapart hcm hbm), hv] at hk
    show w₂.amount _ = if i = s then book.vault i - x else
      if i = b then book.vault i + y else book.vault i
    split_ifs at hk ⊢ <;> omega
  · have hk := hmoved (ata.address c.mint keeper)
    simp only [Pi.add_apply, Pi.sub_apply, Pi.single_apply, hsold.2, hpaid.2,
      if_neg (hapart hsm hcm).symm, if_neg (hapart hbm hcm).symm, hp] at hk
    show w₂.amount _ = if i = s then book.held i + x else
      if i = b then book.held i - y else book.held i
    split_ifs at hk ⊢ <;> omega

/-- What a bid that the program took says about the book. -/
theorem Midway.bid_taken (hM : Midway ch ata keeper m idx now S w book)
    (hS : Seen ch m w₀ idx snap) (hu : ch.Outsider keeper) (horder : AuctionInOrder idx)
    (hlen : idx.components.length ≤ maxComponents)
    (hprem : Sdk.premiumAt idx.rebalance.startPremiumBps.toInt idx.rebalance.endPremiumBps.toInt
      idx.rebalance.startTs.toInt idx.rebalance.endTs.toInt now.toInt = .ok premium)
    (hsell : idx.components[s]? = some sell) (hbuy : idx.components[b]? = some buy)
    (hprice : y = sell.price buy (10000 - premium).toNat x) (hx : x < 2 ^ 64)
    (h : Keeper.send ch ata keeper snap w (.bid s b x y premium edge) = .ok w') :
    book.Admits idx S (.bid s b x y premium edge) ∧
      Midway ch ata keeper m idx now S w' (book.after (.bid s b x y premium edge)) := by
  rw [send_bid hS hsell hbuy] at h
  obtain ⟨wo, hcreate, h⟩ := bind_ok_iff.mp h
  -- from here on the receiving account is open
  obtain ⟨hM, -⟩ := hM.opened (List.mem_of_getElem? hsell) hcreate
  obtain ⟨idx', hidx', href, hC'⟩ := hM.record
  obtain ⟨idx₁, sell', buy', mi, prem, pay, hidx₁, -, -, hprem', -, hsell', hbuy', hsb, -, hmi, hsup,
    -, hsize, w₁, w₂, hL₁, hle, -, hL₂, hR₂, -, hfit, rfl, hnone⟩ :=
    bid_steps (m := m) rfl h (fun _ => hu) fun h₁ => Option.some.inj (hidx'.symm.trans h₁) ▸ hC'
  obtain rfl := Option.some.inj (hidx'.symm.trans hidx₁)
  rw [tablePosition hlen hsell] at hsell'
  rw [tablePosition hlen hbuy] at hbuy'
  -- the components have kept their shape
  obtain ⟨c, hc, hsshape⟩ := href.getElem? hsell
  obtain rfl := Option.some.inj (hsell'.symm.trans hc)
  obtain ⟨c, hc, hbshape⟩ := href.getElem? hbuy
  obtain rfl := Option.some.inj (hbuy'.symm.trans hc)
  have hsm := eq_of_shape Component.mint (fun _ => rfl) hsshape
  have hbm := eq_of_shape Component.mint (fun _ => rfl) hbshape
  have htarget := eq_of_shape Component.target (fun _ => rfl) hsshape
  have hcap := eq_of_shape Component.cap (fun _ => rfl) hbshape
  have hS' : mi.supply.toNat = S := by rw [← hM.supply, World.supply_of_mint? hmi]
  have hx' : (UInt64.ofNat x).toNat = x := UInt64.toNat_ofNat_of_lt' hx
  -- and the price is the one the keeper computed
  rw [href.rebalance, hM.clock] at hprem'
  have hsame := horder.premiumAt_agrees hprem'
  rw [hprem, Except.ok.injEq] at hsame
  obtain ⟨-, hsized⟩ := bidSizing_ok hsize
  have hpay := bidPrice_eq hsized.price
  rw [Component.price_of_shape hsshape hbshape, ← hsame, hx', ← hprice] at hpay
  have hexcess := hsized.excess
  have hroom := hsized.room
  rw [hS', World.toNat_balance, hsm, htarget, hx'] at hexcess
  rw [hS', World.toNat_balance, hbm, hcap, href.maxPremiumBps, hpay] at hroom
  have hvs := hM.vault hsell
  have hvb := hM.vault hbuy
  rw [World.vault] at hvs hvb
  rw [hvs] at hexcess
  rw [hvb] at hroom
  rw [hpay, hM.held hbuy] at hle
  have hne : s ≠ b := fun e => hsb (by rw [e])
  have hL := hL₁.trans hL₂
  have hmoved := hL.flow.amount
  rw [hpay, hx', hbm, hsm] at hmoved
  refine ⟨⟨sell, buy, hsell, hbuy, hexcess, hroom, hle⟩, ?_⟩
  have hwrite := World.amount_setIndex hR₂ (idx'.synced ch m w₂)
  have hflow := hL.flow.trans (Flow.of_setIndex hR₂ (idx'.synced ch m w₂))
  have htok := fun {i c} => hM.tokens premium edge hu hsell hbuy (by omega) hle hmoved hne (i := i) (c := c)
  exact {
    record := ⟨_, World.index?_setIndex_self _, href.of_synced w₂, (hC'.of_flow hflow).synced w₂⟩
    clock := hflow.clock.trans hM.clock
    sound := hflow.sound hM.sound
    supply := by
      have hsupply := hL.supply
      rw [World.supply_setIndex hR₂, ← hM.supply]
      omega
    thawed := fun c hc => (hM.thawed c hc).of_flow hflow
    till := fun c hc => (hM.till c hc).of_flow hflow hnone
    apart := hM.apart
    vault := fun hc => by rw [World.vault, hwrite, ← (htok hc).1, World.vault]
    held := fun hc => by rw [hwrite, (htok hc).2] }

/-- What the keeper does not answer for. -/
def Excused (e : FlockError) : Prop :=
  e = .mathOverflow ∨ e = .navFloorBreached ∨ e = .invalidPremium

/-- A bid that fits the book is refused for an excused reason only. -/
theorem Midway.bid_refused (hM : Midway ch ata keeper m idx now S w book)
    (hS : Seen ch m w₀ idx snap) (hu : ch.Outsider keeper) (horder : AuctionInOrder idx)
    (hlen : idx.components.length ≤ maxComponents) (hlive : idx.state = stateLive)
    (hact : idx.rebalance.active ≠ 0)
    (hprem : Sdk.premiumAt idx.rebalance.startPremiumBps.toInt idx.rebalance.endPremiumBps.toInt
      idx.rebalance.startTs.toInt idx.rebalance.endTs.toInt now.toInt = .ok premium)
    (hsell : idx.components[s]? = some sell) (hbuy : idx.components[b]? = some buy)
    (hprice : y = sell.price buy (10000 - premium).toNat x) (hx : x < 2 ^ 64) (hy : y < 2 ^ 64)
    (hx0 : x ≠ 0) (hy0 : y ≠ 0) (hsb : s ≠ b)
    (hfits : book.Admits idx S (.bid s b x y premium edge)) :
    Only (Custom Excused)
      (Keeper.send ch ata keeper snap w (.bid s b x y premium edge)) := by
  have hsellmem := List.mem_of_getElem? hsell
  rw [send_bid hS hsell hbuy]
  -- the account for the sold token can be opened, if it is not open
  have hcreates : Succeeds (ata.createIdempotent w sell.mint keeper) := by
    apply ata.create_accepts
    rcases hM.till sell hsellmem with ⟨t, ht, htm, hto, -⟩ | hnone
    · exact .inl ⟨t, ht, htm, hto⟩
    · exact .inr hnone
  refine bind_only (hcreates.only _) fun wo hcreate => ?_
  obtain ⟨hM, tr, htr, htrm, -, -, htrf⟩ := hM.opened hsellmem hcreate
  obtain ⟨idx', hidx', href, hC'⟩ := hM.record
  obtain ⟨sell₁, buy₁, hsell₁, hbuy₁, hexcess, hroom, hheld⟩ := hfits
  obtain rfl := Option.some.inj (hsell.symm.trans hsell₁)
  obtain rfl := Option.some.inj (hbuy.symm.trans hbuy₁)
  rw [Int.toNat_natCast] at hexcess hroom hheld
  have hx' : (UInt64.ofNat x).toNat = x := UInt64.toNat_ofNat_of_lt' hx
  have hy' : (UInt64.ofNat y).toNat = y := UInt64.toNat_ofNat_of_lt' hy
  obtain ⟨sell', hsell', hsshape⟩ := href.getElem? hsell
  obtain ⟨buy', hbuy', hbshape⟩ := href.getElem? hbuy
  have hsm := eq_of_shape Component.mint (fun _ => rfl) hsshape
  have hbm := eq_of_shape Component.mint (fun _ => rfl) hbshape
  have htarget := eq_of_shape Component.target (fun _ => rfl) hsshape
  have hcap := eq_of_shape Component.cap (fun _ => rfl) hbshape
  obtain ⟨hopen, hclose⟩ := Sdk.premiumAt_window hprem
  -- and the one for the bought token holds what is paid
  have htpa := hM.held hbuy
  obtain ⟨tp, htp, htpm, htpo, htpd, htpf⟩ :=
    (hM.till buy (List.mem_of_getElem? hbuy)).purse (by omega)
  rw [World.amount_of_token? htp] at htpa
  have hvs := hM.vault hsell
  have hvb := hM.vault hbuy
  have hbprice := eq_of_shape Component.refPriceE9 (fun _ => rfl) hbshape
  have hsup : S ≠ 0 := by
    intro h0
    rw [h0, Component.cap_zero] at hroom
    omega
  refine bid_only (m := m) (.inl rfl) rfl rfl hidx' hC' ?_ (.inr (.inl rfl))
    (.inr (.inr rfl)) hM.sound hu rfl rfl ?_ (by rwa [hx']) (href.state.trans hlive)
    (by rwa [href.rebalance]) ?_ ?_ ?_
    (by rwa [tablePosition hlen hsell]) (by rwa [tablePosition hlen hbuy])
    (by rw [hbprice]; exact horder.prices buy (List.mem_of_getElem? hbuy))
    (by rwa [hM.supply]) ?_ htr (htrm.trans hsm.symm) htrf htp (htpm.trans hbm.symm) htpo htpd htpf
    ?_ ?_ ?_
  · rw [href.vaultKeys, List.map_map]
    rfl
  · intro he
    have he' := congrArg UInt8.toNat he
    rw [tablePosition hlen hsell, tablePosition hlen hbuy] at he'
    exact hsb he'
  · rw [href.rebalance, hM.clock]
    exact Int64.le_iff_toInt_le.mpr hopen
  · rw [href.rebalance, hM.clock]
    exact Int64.le_iff_toInt_le.mpr hclose
  · rw [href.rebalance]
    exact horder.opens
  · intro c hc t ht
    obtain ⟨c₀, hc₀, he⟩ := exists_of_mints href.mints.symm hc
    obtain ⟨t', ht', hf⟩ := hM.thawed c₀ hc₀
    rw [he, ht, Option.some.injEq] at ht'
    rw [ht', hf]
  · rw [World.vault, hsm, ← World.vault, hvs, hM.supply, htarget, hx']
    exact hexcess
  · rw [World.vault, hbm, ← World.vault, hvb, hM.supply, hcap, href.maxPremiumBps]
    omega
  · -- the program computes the keeper's premium, and so the keeper's price
    intro prem pay hprem' hpay
    rw [href.rebalance, hM.clock] at hprem'
    have hsame := horder.premiumAt_agrees hprem'
    rw [hprem, Except.ok.injEq] at hsame
    have hpay' := bidPrice_eq hpay
    rw [Component.price_of_shape hsshape hbshape, ← hsame, hx', ← hprice] at hpay'
    rw [World.vault, hbm, ← World.vault, hvb, hM.supply, hcap, href.maxPremiumBps, hpay', hy', htpa]
    exact ⟨le_refl y, hroom, hheld⟩

end Bid

/-! ## The bids, one after another -/

/-- A bid at the premium in force, sized to go through if it were the only one. -/
def Sole (ch : Chain) (m : Pubkey) (w : World) (idx : Index) (inventory : List Int)
    (now : Int64) (action : Keeper.Action) : Prop :=
  ∃ (s b x y : Nat) (premium : Int) (edge : Double), idx.rebalance.active ≠ 0 ∧
    Sdk.premiumAt idx.rebalance.startPremiumBps.toInt idx.rebalance.endPremiumBps.toInt
      idx.rebalance.startTs.toInt idx.rebalance.endTs.toInt now.toInt = .ok premium ∧
    action = .bid s b x y premium edge ∧ Offered ch m w idx inventory premium s b x y

section Run

variable {snap : Sdk.IndexSnapshot} {inventory : List Int} {w₀ : World} {S : Nat} {now : Int64}
  {book : Book} (hS : Seen ch m w₀ idx snap) (hu : ch.Outsider keeper)
  (hlive : idx.state = stateLive) (hlen : idx.components.length ≤ maxComponents)
  (horder : idx.rebalance.active ≠ 0 → AuctionInOrder idx)
  (hinventory : ∀ i, inventory.getD i 0 < 2 ^ 64)
include hS hu hlive hlen horder hinventory

theorem midway_books : Replay.Books (Keeper.send ch ata keeper snap) (Book.Admits idx S)
    Book.after (Midway ch ata keeper m idx now S) (Sole ch m w₀ idx inventory now)
    (Custom Excused) where
  taken := by
    intro w book action w' hM hsole h
    obtain ⟨s, b, x, y, premium, edge, hact, hprem, rfl, hoffer⟩ := hsole
    obtain ⟨sell, buy, hsell, hbuy, hprice, hexcess, -⟩ := hoffer.legs
    have hx : x < 2 ^ 64 := by
      have := w₀.vault_lt ch m sell
      omega
    exact hM.bid_taken hS hu (horder hact) hlen hprem hsell hbuy hprice hx h
  refused := by
    intro w book action hM hsole hfits
    obtain ⟨s, b, x, y, premium, edge, hact, hprem, rfl, hoffer⟩ := hsole
    obtain ⟨sell, buy, hsell, hbuy, hprice, hexcess, -⟩ := hoffer.legs
    have hx : x < 2 ^ 64 := by
      have := w₀.vault_lt ch m sell
      omega
    have hy : y < 2 ^ 64 := by exact_mod_cast hoffer.held.trans_lt (hinventory b)
    exact hM.bid_refused hS hu (horder hact) hlen hlive hact hprem hsell hbuy hprice hx hy
      hoffer.some_sold hoffer.some_paid hoffer.distinct hfits

end Run

end Flock
