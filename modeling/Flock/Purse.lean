import Flock.Interposed
import Flock.Lib.Graded
import Mathlib.Algebra.BigOperators.Ring.Finset

/-!
# What one person's accounts gain and lose

The purse of `u` is what lies in the token accounts that belong to `u` and that nobody
else was made the delegate of, mint by mint. `purses u` grades the way from one world to
another by what the purse gains on it, at least, in every mint; a loss is a negative gain.
A delegate that uses up its allowance only adds an account to the purse, so accounts stay
in it, and so do the components in the table of an index.

The token calls and the helpers of the processor each have their grade. All a debit or a
burn can take from a purse is what its own owner signed for: of the accounts in it the
token program takes the owner's word and nobody else's.
-/

namespace Flock

open Outcome MachineInt Graded

namespace World

/-- The account at `k` holds `M`, belongs to `u`, and is in nobody else's hands. -/
def owns (w : World) (u M k : Pubkey) : Bool :=
  (w.token? k).any fun t => decide (t.mint = M ∧ t.owner = u ∧ t.delegate = none)

/-- What `u` has of `M`. -/
noncomputable def purse (w : World) (u M : Pubkey) : Nat :=
  ∑ k, if w.owns u M k then w.amount k else 0

/-- The component table of the record at `k`. -/
def table (w : World) (k : Pubkey) : List Component :=
  match w.index? k with
  | some idx => idx.components
  | none => []

def mints (w : World) (k : Pubkey) : List Pubkey := (w.table k).map Component.mint

/-- No account of `u` has a delegate. -/
def Undelegated (w : World) (u : Pubkey) : Prop :=
  ∀ k t, w.token? k = some t → t.owner = u → t.delegate = none

/-- On the way from `w` to `w'` no account changed hands, and none was put in anybody else's. -/
def HandsNone (w w' : World) : Prop :=
  ∀ k t', w'.token? k = some t' → t'.delegate = none ∨
    ∃ t, w.token? k = some t ∧ t'.owner = t.owner ∧ (t.delegate = none → t'.delegate = none)

/-- Who had no delegate has none where none was appointed. -/
theorem HandsNone.undelegated {w w' : World} {u : Pubkey} (h : w.HandsNone w')
    (hw : w.Undelegated u) : w'.Undelegated u := by
  intro k t' ht' ho
  rcases h k t' ht' with hd | ⟨t, ht, ho', hd⟩
  · exact hd
  · exact hd (hw k t ht (ho'.symm.trans ho))

/-- Where no token account changed, no delegate was appointed. -/
theorem HandsNone.of_eq {w w' : World} (h : w'.token? = w.token?) : w.HandsNone w' := by
  intro k t' ht'
  exact .inr ⟨t', h ▸ ht', rfl, id⟩

/-- Two accounts that were there are written. -/
theorem HandsNone.set_token {w w' : World} {k : Pubkey} {t t' : TokenAccount}
    (h : w.HandsNone w') (ht : w'.token? k = some t) (ho : t'.owner = t.owner)
    (hd : t.delegate = none → t'.delegate = none) : w.HandsNone (w'.set k (.token t')) := by
  intro j tj htj
  rw [token?_set_token] at htj
  by_cases hj : j = k
  · rw [if_pos hj, Option.some.injEq] at htj
    rw [← htj, hj]
    rcases h k t ht with hnone | ⟨t₀, ht₀, ho₀, hd₀⟩
    · exact .inl (hd hnone)
    · exact .inr ⟨t₀, ht₀, ho.trans ho₀, fun hnone => hd (hd₀ hnone)⟩
  · rw [if_neg hj] at htj
    exact h j tj htj

/-- What it takes for an account to be in the purse. -/
theorem owns_iff {w : World} {u M k : Pubkey} :
    w.owns u M k = true ↔ ∃ t, w.token? k = some t ∧ t.mint = M ∧ t.owner = u ∧ t.delegate = none := by
  simp only [owns, Option.any_eq_true_iff_get, decide_eq_true_eq]
  constructor
  · intro h
    obtain ⟨hsome, ht⟩ := h
    exact ⟨_, (Option.some_get hsome).symm, ht⟩
  · intro h
    obtain ⟨t, ht, hown⟩ := h
    exact ⟨by rw [ht, Option.isSome_some], by simpa only [ht, Option.get_some] using hown⟩

/-- The mints of a record are those of its table. -/
theorem mints_of_index? {w : World} {k : Pubkey} {idx : Index} (h : w.index? k = some idx) :
    w.mints k = idx.components.map Component.mint := by
  rw [mints, table, h]

/-- The mints depend on the records only. -/
theorem mints_congr {w w' : World} (h : w'.index? = w.index?) (k : Pubkey) :
    w'.mints k = w.mints k := by
  rw [mints, mints, table, table, h]

/-- What changes of the balances come to in the purse of `u`. -/
noncomputable def weigh (w : World) (u M : Pubkey) (dA : Pubkey → ℤ) : ℤ :=
  ∑ k, if w.owns u M k then dA k else 0

/-- Two moves weigh what they weigh together. -/
theorem weigh_add (w : World) (u M : Pubkey) (dA dA' : Pubkey → ℤ) :
    w.weigh u M (dA + dA') = w.weigh u M dA + w.weigh u M dA' := by
  rw [weigh, weigh, weigh, ← Finset.sum_add_distrib]
  refine Finset.sum_congr rfl fun k _ => ?_
  by_cases hk : w.owns u M k = true
  · rw [if_pos hk, if_pos hk, if_pos hk, Pi.add_apply]
  · rw [if_neg hk, if_neg hk, if_neg hk, add_zero]

/-- A move back weighs as much the other way. -/
theorem weigh_neg (w : World) (u M : Pubkey) (dA : Pubkey → ℤ) :
    w.weigh u M (-dA) = -w.weigh u M dA := by
  rw [weigh, weigh, ← Finset.sum_neg_distrib]
  refine Finset.sum_congr rfl fun k _ => ?_
  by_cases hk : w.owns u M k = true
  · rw [if_pos hk, if_pos hk, Pi.neg_apply]
  · rw [if_neg hk, if_neg hk, neg_zero]

/-- A difference of moves weighs the difference. -/
theorem weigh_sub (w : World) (u M : Pubkey) (dA dA' : Pubkey → ℤ) :
    w.weigh u M (dA - dA') = w.weigh u M dA - w.weigh u M dA' := by
  rw [sub_eq_add_neg, weigh_add, weigh_neg, ← sub_eq_add_neg]

/-- A move at one account weighs if the account is in the purse. -/
theorem weigh_single (w : World) (u M k : Pubkey) (x : ℤ) :
    w.weigh u M (Pi.single k x) = if w.owns u M k then x else 0 := by
  rw [weigh, Finset.sum_eq_single k]
  · rw [Pi.single_eq_same]
  · intro j _ hjk
    rw [Pi.single_eq_of_ne hjk, ite_self]
  · intro hk
    exact absurd (Finset.mem_univ k) hk

/-- Nothing weighs nothing. -/
theorem weigh_zero (w : World) (u M : Pubkey) : w.weigh u M 0 = 0 :=
  Finset.sum_eq_zero fun _ _ => ite_self 0

end World

/-! ## The grade -/

/-- On the way from `w` to `w'` the purse of `u` gained at least `g`. -/
structure Gains (u : Pubkey) (g : Pubkey → ℤ) (w w' : World) : Prop where
  purse : ∀ M, (w.purse u M : ℤ) + g M ≤ w'.purse u M
  owns : ∀ {M k}, w.owns u M k = true → w'.owns u M k = true
  undelegated : w.Undelegated u → w'.Undelegated u
  mints : ∀ k, w.mints k <+: w'.mints k

/-- Worlds, graded by what the purse of `u` gains. -/
def purses (u : Pubkey) : Graded World (Pubkey → ℤ) where
  rel := Gains u
  refl := fun w => ⟨fun M => by rw [Pi.zero_apply, add_zero], id, id, fun _ => List.prefix_rfl⟩
  trans := fun h h' =>
    { purse := fun M => by
        have h₁ := h.purse M
        have h₂ := h'.purse M
        rw [Pi.add_apply]
        omega
      owns := fun hk => h'.owns (h.owns hk)
      undelegated := fun hd => h'.undelegated (h.undelegated hd)
      mints := fun k => (h.mints k).trans (h'.mints k) }

variable {ch : Chain} {u : Pubkey} {w w' : World}

/-- Who gains that much gains less. -/
theorem Gains.weaken {g g' : Pubkey → ℤ} (h : Gains u g w w') (hle : ∀ M, g' M ≤ g M) :
    Gains u g' w w' where
  purse := fun M => by
    have h₁ := h.purse M
    have h₂ := hle M
    omega
  owns := h.owns
  undelegated := h.undelegated
  mints := h.mints

/-- Accounts stay in the purse, so a flow of the books adds to it what it weighs there. -/
theorem Gains.of_flow {dS dA : Pubkey → ℤ} (h : Flow w w' dS dA) (hhands : w.HandsNone w')
    (hidx : w'.index? = w.index?) : Gains u (fun M => w.weigh u M dA) w w' where
  owns := by
    intro M k hk
    obtain ⟨t, ht, hm, ho, hd⟩ := World.owns_iff.mp hk
    obtain ⟨t', ht', hm', ho', -, hd'⟩ := h.account ht
    exact World.owns_iff.mpr ⟨t', ht', hm'.trans hm, ho'.trans ho, hd' hd⟩
  undelegated := hhands.undelegated
  mints := fun k => by rw [World.mints_congr hidx]
  purse := by
    intro M
    unfold World.purse World.weigh
    rw [Nat.cast_sum, Nat.cast_sum, ← Finset.sum_add_distrib]
    refine Finset.sum_le_sum fun k _ => ?_
    by_cases hk : w.owns u M k = true
    · obtain ⟨t, ht, hm, ho, hd⟩ := World.owns_iff.mp hk
      obtain ⟨t', ht', hm', ho', -, hd'⟩ := h.account ht
      have hk' : w'.owns u M k = true :=
        World.owns_iff.mpr ⟨t', ht', hm'.trans hm, ho'.trans ho, hd' hd⟩
      rw [if_pos hk, if_pos hk, if_pos hk', h.amount]
    · rw [if_neg hk, if_neg hk]
      by_cases hk' : w'.owns u M k = true
      · rw [if_pos hk']
        omega
      · rw [if_neg hk']
        omega

/-- A step that leaves the token accounts alone, and the tables but for what it adds. -/
theorem Gains.of_tokens (h : w'.token? = w.token?) (hmints : ∀ k, w.mints k <+: w'.mints k) :
    Gains u 0 w w' := by
  have howns : ∀ M k, w'.owns u M k = w.owns u M k := by
    intro M k
    rw [World.owns, World.owns, h]
  refine ⟨fun M => ?_, fun hk => (howns _ _).trans hk, (World.HandsNone.of_eq h).undelegated, hmints⟩
  simp only [World.purse, howns, World.amount_congr h, Pi.zero_apply, add_zero, le_refl]

/-- Writing a record, over what is no token account, with a table that begins as it did. -/
theorem Gains.of_setIndex {k : Pubkey} {i : Index} (hk : ∀ t, w.accounts k ≠ .token t)
    (hmints : w.mints k <+: i.components.map Component.mint) : Gains u 0 w (w.setIndex k i) := by
  refine .of_tokens (World.token?_set_of_not (by simp) hk) fun j => ?_
  by_cases hj : j = k
  · rw [hj, World.mints_of_index? (World.index?_setIndex_self i)]
    exact hmints
  · have hsame : (w.setIndex k i).index? j = w.index? j := by rw [World.index?_setIndex, if_neg hj]
    rw [World.mints, World.mints, World.table, World.table, hsame]

/-- Writing a record over another one. -/
theorem Gains.of_rewrite {k : Pubkey} {i i' : Index} (h : w.index? k = some i)
    (hmints : i.components.map Component.mint <+: i'.components.map Component.mint) :
    Gains u 0 w (w.setIndex k i') := by
  refine .of_setIndex (by simp [World.accounts_of_index? h]) ?_
  rw [World.mints_of_index? h]
  exact hmints

/-! ## The token calls -/

/-- A person: the token program takes nobody else's word for an account of `u` that has no
delegate, and `u` is not the address of an index. -/
structure Chain.Personal (ch : Chain) (u : Pubkey) : Prop where
  outsider : ch.Outsider u
  debit : ∀ {t a x}, t.owner = u → t.delegate = none → ch.token.mayDebit t a x = true → a = u
  burn : ∀ {t a x}, t.owner = u → t.delegate = none → ch.token.mayBurn t a x = true → a = u

/-- `x` of `M`, if `p`. -/
def coins (p : Prop) [Decidable p] (M : Pubkey) (x : Nat) : Pubkey → ℤ :=
  if p then Pi.single M (x : ℤ) else 0

/-- Coins of a mint are none of any other. -/
theorem coins_apply (p : Prop) [Decidable p] (M M' : Pubkey) (x : Nat) :
    coins p M x M' = if p ∧ M' = M then (x : ℤ) else 0 := by
  unfold coins
  by_cases hp : p
  · rw [if_pos hp, Pi.single_apply]
    simp only [hp, true_and]
  · rw [if_neg hp, if_neg fun h => hp h.1, Pi.zero_apply]

/-- Coins are not negative. -/
theorem coins_nonneg (p : Prop) [Decidable p] (M M' : Pubkey) (x : Nat) : 0 ≤ coins p M x M' := by
  rw [coins_apply]
  split <;> omega

/-- More coins, on a weaker condition, are no fewer. -/
theorem coins_mono {p q : Prop} [Decidable p] [Decidable q] (hpq : p → q) (M M' : Pubkey) {x y : Nat}
    (hxy : x ≤ y) : coins p M x M' ≤ coins q M y M' := by
  rw [coins_apply, coins_apply]
  by_cases hp : p ∧ M' = M
  · rw [if_pos hp, if_pos ⟨hpq hp.1, hp.2⟩]
    omega
  · rw [if_neg hp]
    split <;> omega

/-- What an account is credited with counts in its own mint, if the account is in the
purse. -/
theorem weigh_credit {k M : Pubkey} {t : TokenAccount} (hk : w.token? k = some t) (ht : t.mint = M)
    (x : Nat) (M' : Pubkey) :
    w.weigh u M' (Pi.single k (x : ℤ)) = coins (w.owns u M k) M x M' := by
  rw [World.weigh_single, coins_apply]
  by_cases hM : M' = M
  · rw [hM]
    simp only [and_true]
  · have hnot : ¬w.owns u M' k = true := by
      intro ho
      obtain ⟨t', ht', hm', -⟩ := World.owns_iff.mp ho
      obtain rfl := Option.some.inj (hk.symm.trans ht')
      exact hM (hm'.symm.trans ht)
    have hnot' : ¬(w.owns u M k = true ∧ M' = M) := fun h => hM h.2
    rw [if_neg hnot, if_neg hnot']

/-- A transfer appoints no delegate. -/
theorem transfer_handsNone {s d a : Pubkey} {x : UInt64}
    (h : ch.token.transfer w s d a x = .ok w') : w.HandsNone w' := by
  obtain ⟨ts, td, hs, hd, -, -, -, hsame, hmoved⟩ := ch.token.transfer_ok h
  by_cases hsd : s = d
  · rw [hsame hsd]
    exact .of_eq rfl
  · obtain ⟨ts', n, hb, -, rfl⟩ := hmoved hsd
    have hd' : (w.set s (.token ts')).token? d = some td := by
      rw [World.token?_set_token, if_neg (Ne.symm hsd), hd]
    exact ((World.HandsNone.of_eq rfl).set_token hs hb.owner hb.delegate).set_token hd' rfl id

/-- Minting appoints no delegate. -/
theorem mintTo_handsNone {m d a : Pubkey} {x : UInt64} (h : ch.token.mintTo w m d a x = .ok w') :
    w.HandsNone w' := by
  obtain ⟨mi, t, supply, n, hm, hd, -, -, -, -, rfl⟩ := ch.token.mintTo_ok h
  have htok : (w.set m (.mint { mi with supply := supply })).token? = w.token? :=
    World.token?_set_of_not (by simp) (by simp [World.accounts_of_mint? hm])
  have hd' : (w.set m (.mint { mi with supply := supply })).token? d = some t := by rw [htok, hd]
  exact (World.HandsNone.of_eq htok).set_token hd' rfl id

/-- Burning appoints no delegate. -/
theorem burn_handsNone {s m a : Pubkey} {x : UInt64} (h : ch.token.burn w s m a x = .ok w') :
    w.HandsNone w' := by
  obtain ⟨mi, t, supply, t', hm, hs, -, -, -, -, hb, rfl⟩ := ch.token.burn_ok h
  have htok : (w.set m (.mint { mi with supply := supply })).token? = w.token? :=
    World.token?_set_of_not (by simp) (by simp [World.accounts_of_mint? hm])
  exact (World.HandsNone.of_eq htok).set_token (htok ▸ hs) hb.owner hb.delegate

/-- A transfer adds to the purse it goes to and takes from the one that signed. -/
theorem transfer_gains (hu : ch.Personal u) {s d a M : Pubkey} {x : UInt64}
    (h : ch.token.transfer w s d a x = .ok w') (hM : ∃ t, w.token? d = some t ∧ t.mint = M) :
    Gains u (coins (w.owns u M d) M x.toNat - coins (a = u) M x.toNat) w w' := by
  obtain ⟨hflow, hidx, -⟩ := transfer_flow h
  obtain ⟨ts, td, hs, hd, hmint, hmay, -⟩ := ch.token.transfer_ok h
  obtain ⟨t, ht, htM⟩ := hM
  obtain rfl := Option.some.inj (hd.symm.trans ht)
  refine (Gains.of_flow hflow (transfer_handsNone h) hidx).weaken fun M' => ?_
  rw [World.weigh_sub, weigh_credit hs (hmint.trans htM), weigh_credit hd htM, Pi.sub_apply]
  -- whoever takes from the purse signs for it
  have hsigned : coins (w.owns u M s) M x.toNat M' ≤ coins (a = u) M x.toNat M' := by
    refine coins_mono (fun hown => ?_) M M' (Nat.le_refl _)
    obtain ⟨t, ht, -, ho, hdel⟩ := World.owns_iff.mp hown
    obtain rfl := Option.some.inj (hs.symm.trans ht)
    exact hu.debit ho hdel hmay
  omega

/-- Minting adds to the purse it goes to. -/
theorem mintTo_gains {m d a : Pubkey} {x : UInt64} (h : ch.token.mintTo w m d a x = .ok w') :
    Gains u (coins (w.owns u m d) m x.toNat) w w' := by
  obtain ⟨hflow, hidx, -⟩ := mintTo_flow h
  obtain ⟨mi, t, -, -, -, hd, htm, -⟩ := ch.token.mintTo_ok h
  refine (Gains.of_flow hflow (mintTo_handsNone h) hidx).weaken fun M' => ?_
  rw [weigh_credit hd htm]

/-- Burning takes from the purse that signed. -/
theorem burn_gains (hu : ch.Personal u) {s m a : Pubkey} {x : UInt64}
    (h : ch.token.burn w s m a x = .ok w') : Gains u (-coins (a = u) m x.toNat) w w' := by
  obtain ⟨hflow, hidx, t, hs, htm, hmay⟩ := burn_flow h
  refine (Gains.of_flow hflow (burn_handsNone h) hidx).weaken fun M' => ?_
  rw [World.weigh_neg, weigh_credit hs htm, Pi.neg_apply, neg_le_neg_iff]
  refine coins_mono (fun hown => ?_) m M' (Nat.le_refl _)
  obtain ⟨t', ht', -, ho, hdel⟩ := World.owns_iff.mp hown
  obtain rfl := Option.some.inj (hs.symm.trans ht')
  exact hu.burn ho hdel hmay

/-! ## Accounts that come into being -/

/-- An account that comes into being adds nothing. -/
theorem createAccount_gains {p k o : Pubkey} (h : ch.createAccount w p k o = .ok w') :
    Gains u 0 w w' := by
  obtain ⟨-, hidx, -⟩ := createAccount_flow h
  obtain ⟨hk, rfl⟩ := ch.createAccount_ok h
  refine .of_tokens (World.token?_set_of_not (by simp) (by simp [hk])) fun j => ?_
  rw [World.mints_congr hidx]

/-- A token account comes into being, without tokens and without a delegate. -/
theorem openAccount_gains {k m o : Pubkey} {dS dA : Pubkey → ℤ} (hflow : Flow w w' dS dA)
    (hdA : dA = 0) (hidx : w'.index? = w.index?)
    (htok : ∀ j, w'.token? j = if j = k then
      some { mint := m, owner := o, amount := 0, delegate := none, frozen := false }
      else w.token? j) : Gains u 0 w w' := by
  have hhands : w.HandsNone w' := by
    intro j t' ht'
    rw [htok] at ht'
    by_cases hj : j = k
    · rw [if_pos hj, Option.some.injEq] at ht'
      exact .inl (by rw [← ht'])
    · rw [if_neg hj] at ht'
      exact .inr ⟨t', ht', rfl, id⟩
  refine (Gains.of_flow hflow hhands hidx).weaken fun M => ?_
  rw [hdA, World.weigh_zero, Pi.zero_apply]

/-- A new token account is empty, in whosever purse it is. -/
theorem initializeAccount3_gains {k m o : Pubkey}
    (h : ch.token.initializeAccount3 w k m o = .ok w') : Gains u 0 w w' := by
  obtain ⟨hflow, hidx, -, htok⟩ := initializeAccount3_flow h
  exact openAccount_gains hflow rfl hidx htok

end Flock
