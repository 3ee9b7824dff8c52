import Flock.Processor
import Flock.Lib.FiniteSum
import Mathlib.Algebra.Group.Pi.Basic
import Mathlib.Data.Int.Basic

/-!
# What the token calls of a handler do to the books

The books are three readings of the world: what each address holds (`amount`),
the supply of each mint (`supply`) and the record at each address (`index?`).
`Flow w w' dS dA` says that a stretch of a handler changed supplies by `dS` and
holdings by `dA`, and that nothing else about a token account or a mint moved:
accounts keep mint, owner and state, mints keep their authority, the total held
of a mint follows its supply. Flows compose by adding the two differences, so
what a whole handler does to a vault is a sum read off its steps.

`syncUnits` and the other writes of the record are flows with no differences.
-/

namespace Flock

open Outcome MachineInt

namespace World

/-! ## Reading a world after one account was written -/

section Set

variable {w : World} {k : Pubkey}

/-- A record that is read is what the account holds. -/
theorem accounts_of_index? {i : Index} (h : w.index? k = some i) : w.accounts k = .index i := by
  unfold index? at h
  split at h
  next j hj => rw [hj, Option.some.inj h]
  next => cases h

/-- A mint that is read is what the account holds. -/
theorem accounts_of_mint? {m : Mint} (h : w.mint? k = some m) : w.accounts k = .mint m := by
  unfold mint? at h
  split at h
  next j hj => rw [hj, Option.some.inj h]
  next => cases h

/-- A token account that is read is what the account holds. -/
theorem accounts_of_token? {t : TokenAccount} (h : w.token? k = some t) :
    w.accounts k = .token t := by
  unfold token? at h
  split at h
  next j hj => rw [hj, Option.some.inj h]
  next => cases h

/-- A write is seen at its key only. -/
theorem set_accounts (a : Account) (j : Pubkey) :
    (w.set k a).accounts j = if j = k then a else w.accounts j := rfl

/-- A token account that was written is read at its key, and the others as before. -/
theorem token?_set_token (t : TokenAccount) (j : Pubkey) :
    (w.set k (.token t)).token? j = if j = k then some t else w.token? j := by
  unfold token?
  rw [set_accounts]
  by_cases hj : j = k <;> simp [hj]

/-- Writing an account that is not a token account, over one that is not,
leaves all token accounts as they were. -/
theorem token?_set_of_not {a : Account} (ha : ∀ t, a ≠ .token t)
    (hk : ∀ t, w.accounts k ≠ .token t) : (w.set k a).token? = w.token? := by
  funext j
  unfold token?
  rw [set_accounts]
  by_cases hj : j = k
  · subst hj
    rw [if_pos rfl]
    cases a <;> cases hw : w.accounts j <;> simp_all
  · rw [if_neg hj]

/-- Where neither the old account nor the new one is a mint, all mints are as before. -/
theorem mint?_set_of_not {a : Account} (ha : ∀ m, a ≠ .mint m)
    (hk : ∀ m, w.accounts k ≠ .mint m) : (w.set k a).mint? = w.mint? := by
  funext j
  unfold mint?
  rw [set_accounts]
  by_cases hj : j = k
  · subst hj
    rw [if_pos rfl]
    cases a <;> cases hw : w.accounts j <;> simp_all
  · rw [if_neg hj]

/-- Where neither the old account nor the new one is a record, all records are as before. -/
theorem index?_set_of_not {a : Account} (ha : ∀ i, a ≠ .index i)
    (hk : ∀ i, w.accounts k ≠ .index i) : (w.set k a).index? = w.index? := by
  funext j
  unfold index?
  rw [set_accounts]
  by_cases hj : j = k
  · subst hj
    rw [if_pos rfl]
    cases a <;> cases hw : w.accounts j <;> simp_all
  · rw [if_neg hj]

/-- A mint that was written is read at its key, and the others as before. -/
theorem mint?_set_mint (m : Mint) (j : Pubkey) :
    (w.set k (.mint m)).mint? j = if j = k then some m else w.mint? j := by
  unfold mint?
  rw [set_accounts]
  by_cases hj : j = k <;> simp [hj]

/-- A record that was written is read at its key, and the others as before. -/
theorem index?_set_index (i : Index) (j : Pubkey) :
    (w.set k (.index i)).index? j = if j = k then some i else w.index? j := by
  unfold index?
  rw [set_accounts]
  by_cases hj : j = k <;> simp [hj]

/-- `index?_set_index` for the write of a handler. -/
theorem index?_setIndex (i : Index) (j : Pubkey) :
    (w.setIndex k i).index? j = if j = k then some i else w.index? j := index?_set_index i j

/-- A record that was written is read. -/
@[simp] theorem index?_setIndex_self (i : Index) : (w.setIndex k i).index? k = some i := by
  rw [index?_setIndex, if_pos rfl]

/-- Writing a record takes no time. -/
@[simp] theorem setIndex_clock (i : Index) : (w.setIndex k i).clock = w.clock := rfl

end Set

/-! ## Holdings and totals -/

/-- Balances depend on the token accounts only. -/
theorem amount_congr {w w' : World} (h : w'.token? = w.token?) : w'.amount = w.amount := by
  funext k
  simp only [amount, h]

/-- Supplies depend on the mints only. -/
theorem supply_congr {w w' : World} (h : w'.mint? = w.mint?) : w'.supply = w.supply := by
  funext m
  simp only [supply, h]

/-- Totals depend on the token accounts only. -/
theorem total_congr {w w' : World} (h : w'.token? = w.token?) : w'.total = w.total := by
  funext m
  simp only [total, held, h]

/-- The balance of an account that is there. -/
theorem amount_of_token? {w : World} {k : Pubkey} {t : TokenAccount} (h : w.token? k = some t) :
    w.amount k = t.amount.toNat := by
  simp only [amount, h]

/-- The supply of a mint that is there. -/
theorem supply_of_mint? {w : World} {m : Pubkey} {mi : Mint} (h : w.mint? m = some mi) :
    w.supply m = mi.supply.toNat := by
  simp only [supply, h]

/-- An empty account holds nothing. -/
theorem amount_of_empty {w : World} {k : Pubkey} (h : w.accounts k = .empty) : w.amount k = 0 := by
  simp only [amount, token?, h]

/-- An account holds its balance of its own mint and nothing of any other. -/
theorem held_of_token? {w : World} {m k : Pubkey} {t : TokenAccount} (h : w.token? k = some t) :
    w.held m k = if t.mint = m then t.amount.toNat else 0 := by
  simp only [held, h]

/-- Nobody holds more than there is. -/
theorem held_le_total (w : World) (m k : Pubkey) : w.held m k ≤ w.total m :=
  Finset.single_le_sum (f := fun j => w.held m j) (fun _ _ => Nat.zero_le _) (Finset.mem_univ k)

/-- A balance is part of the total of its mint. -/
theorem amount_le_total {w : World} {k : Pubkey} {t : TokenAccount} (h : w.token? k = some t) :
    w.amount k ≤ w.total t.mint := by
  have hle := w.held_le_total t.mint k
  rwa [held_of_token? h, if_pos rfl, ← amount_of_token? h] at hle

/-- A balance is a `u64`. -/
theorem amount_lt (w : World) (k : Pubkey) : w.amount k < 2 ^ 64 := by
  unfold amount
  split
  · exact UInt64.toNat_lt _
  · omega

/-- A supply is a `u64`. -/
theorem supply_lt (w : World) (m : Pubkey) : w.supply m < 2 ^ 64 := by
  unfold supply
  split
  · exact UInt64.toNat_lt _
  · omega

/-- The balance of a token account that was written, and of the others. -/
theorem amount_set_token (w : World) (k : Pubkey) (t : TokenAccount) (j : Pubkey) :
    (w.set k (.token t)).amount j = if j = k then t.amount.toNat else w.amount j := by
  unfold amount
  rw [token?_set_token]
  by_cases hj : j = k <;> simp [hj]

/-- Writing one account moves the total of a mint by what that account held of
it before and after. -/
theorem total_set (w : World) (k : Pubkey) (a : Account) (m : Pubkey) :
    (w.set k a).total m + w.held m k = w.total m + (w.set k a).held m k :=
  FiniteSum.sum_add_of_eq_off fun j hj => by
    simp only [held, token?, set_accounts, if_neg hj]

/-- Writing a token account changes a total by what it held and what it holds. -/
theorem total_set_token (w : World) (k : Pubkey) (t : TokenAccount) (m : Pubkey) :
    (w.set k (.token t)).total m + w.held m k
      = w.total m + if t.mint = m then t.amount.toNat else 0 := by
  rw [total_set, held_of_token? (by rw [token?_set_token, if_pos rfl])]

end World

/-- All of a mint but its supply. -/
def Mint.shape (m : Mint) : Mint := { m with supply := 0 }

/-- What a stretch of a handler did to the books. -/
structure Flow (w w' : World) (dS dA : Pubkey → ℤ) : Prop where
  clock : w'.clock = w.clock
  account : ∀ {k t}, w.token? k = some t → ∃ t', w'.token? k = some t' ∧ t'.mint = t.mint ∧
    t'.owner = t.owner ∧ t'.frozen = t.frozen ∧ (t.delegate = none → t'.delegate = none)
  mint : ∀ k, (w'.mint? k).map Mint.shape = (w.mint? k).map Mint.shape
  amount : ∀ k, (w'.amount k : ℤ) = w.amount k + dA k
  supply : ∀ m, (w'.supply m : ℤ) = w.supply m + dS m
  total : ∀ m, (w'.total m : ℤ) = w.total m + dS m
  sound : w.Sound → w'.Sound

namespace Flow

variable {w w' w'' : World} {dS dS' dA dA' : Pubkey → ℤ}

/-- A step that leaves token accounts and mints alone. -/
theorem of_eq (hc : w'.clock = w.clock) (ht : w'.token? = w.token?) (hm : w'.mint? = w.mint?) :
    Flow w w' 0 0 where
  clock := hc
  account := fun {k t} h => ⟨t, by rw [ht, h], rfl, rfl, rfl, id⟩
  mint := fun k => by rw [hm]
  amount := fun k => by simp [World.amount_congr ht]
  supply := fun m => by simp [World.supply_congr hm]
  total := fun m => by simp [World.total_congr ht]
  sound := fun hs => ⟨fun m => by rw [World.total_congr ht]; exact hs.fits m,
    fun m mi h => by rw [World.total_congr ht]; exact hs.minted m mi (by rw [← hm]; exact h)⟩

/-- Nothing moves when nothing happens. -/
theorem refl (w : World) : Flow w w 0 0 := of_eq rfl rfl rfl

/-- Two stretches in a row: the differences add up. -/
theorem trans (h : Flow w w' dS dA) (h' : Flow w' w'' dS' dA') :
    Flow w w'' (dS + dS') (dA + dA') where
  clock := h'.clock.trans h.clock
  account := by
    intro k t ht
    obtain ⟨t₁, ht₁, hm₁, ho₁, hf₁, hd₁⟩ := h.account ht
    obtain ⟨t₂, ht₂, hm₂, ho₂, hf₂, hd₂⟩ := h'.account ht₁
    exact ⟨t₂, ht₂, hm₂.trans hm₁, ho₂.trans ho₁, hf₂.trans hf₁, fun hn => hd₂ (hd₁ hn)⟩
  mint := fun k => (h'.mint k).trans (h.mint k)
  amount := fun k => by rw [h'.amount, h.amount, Pi.add_apply]; omega
  supply := fun m => by rw [h'.supply, h.supply, Pi.add_apply]; omega
  total := fun m => by rw [h'.total, h.total, Pi.add_apply]; omega
  sound := fun hs => h'.sound (h.sound hs)

/-- A flow, its two moves rewritten. -/
theorem cast (h : Flow w w' dS dA) (hS : dS = dS') (hA : dA = dA') : Flow w w' dS' dA' := by
  rw [← hS, ← hA]
  exact h

/-- A mint keeps everything but its supply. -/
theorem mint?_of (h : Flow w w' dS dA) {k : Pubkey} {mi : Mint} (hm : w.mint? k = some mi) :
    ∃ mi', w'.mint? k = some mi' ∧ mi'.mintAuthority = mi.mintAuthority ∧
      mi'.decimals = mi.decimals ∧ mi'.freezeAuthority = mi.freezeAuthority := by
  have hk := h.mint k
  rw [hm, Option.map_some] at hk
  obtain ⟨mi', hmi', hs⟩ := Option.map_eq_some_iff.mp hk
  exact ⟨mi', hmi', by simpa [Mint.shape] using congrArg Mint.mintAuthority hs,
    by simpa [Mint.shape] using congrArg Mint.decimals hs,
    by simpa [Mint.shape] using congrArg Mint.freezeAuthority hs⟩

/-- Rewriting a record moves no tokens. -/
theorem of_setIndex {w : World} {k : Pubkey} {i : Index} (h : w.index? k = some i) (i' : Index) :
    Flow w (w.setIndex k i') 0 0 := by
  have ha := World.accounts_of_index? h
  exact of_eq rfl (World.token?_set_of_not (by simp) (by simp [ha]))
    (World.mint?_set_of_not (by simp) (by simp [ha]))

end Flow

/-! ## The four token calls -/

variable {ch : Chain} {w w' : World}

/-- A transfer moves an amount from one account to the other and touches neither records nor
mints. -/
theorem transfer_flow {s d a : Pubkey} {x : UInt64} (h : ch.token.transfer w s d a x = .ok w') :
    Flow w w' 0 (Pi.single d (x.toNat : ℤ) - Pi.single s (x.toNat : ℤ)) ∧
      w'.index? = w.index? ∧ w'.mint? = w.mint? := by
  obtain ⟨ts, td, hs, hd, hmint, -, hx, hself, hother⟩ := ch.token.transfer_ok h
  by_cases hsd : s = d
  · subst hsd
    rw [hself rfl]
    exact ⟨by rw [sub_self]; exact Flow.refl w, rfl, rfl⟩
  · obtain ⟨ts', n, hb, hn, rfl⟩ := hother hsd
    have hds : d ≠ s := fun e => hsd e.symm
    have has := World.accounts_of_token? hs
    have had : (w.set s (.token ts')).accounts d = .token td := by
      rw [World.set_accounts, if_neg hds, World.accounts_of_token? hd]
    have hidx : ((w.set s (.token ts')).set d (.token { td with amount := n })).index?
        = w.index? := by
      rw [World.index?_set_of_not (by simp) (by simp [had]),
        World.index?_set_of_not (by simp) (by simp [has])]
    have hmnt : ((w.set s (.token ts')).set d (.token { td with amount := n })).mint?
        = w.mint? := by
      rw [World.mint?_set_of_not (by simp) (by simp [had]),
        World.mint?_set_of_not (by simp) (by simp [has])]
    have htot : ∀ m, ((w.set s (.token ts')).set d (.token { td with amount := n })).total m
        = w.total m := by
      intro m
      have h1 := World.total_set_token w s ts' m
      have h2 := World.total_set_token (w.set s (.token ts')) d { td with amount := n } m
      have hheld : (w.set s (.token ts')).held m d = w.held m d := by
        simp only [World.held, World.token?_set_token, if_neg hds]
      rw [hheld, World.held_of_token? hd] at h2
      rw [World.held_of_token? hs] at h1
      simp only [hb.mint, hb.amount, hmint, hn] at h1 h2
      by_cases hm : td.mint = m
      · simp only [if_pos hm] at h1 h2
        omega
      · simp only [if_neg hm] at h1 h2
        omega
    refine ⟨⟨rfl, ?_, fun k => by rw [hmnt], ?_, ?_, ?_, ?_⟩, hidx, hmnt⟩
    · intro k t ht
      rw [World.token?_set_token, World.token?_set_token]
      by_cases hkd : k = d
      · subst hkd
        rw [hd] at ht
        obtain rfl := Option.some.inj ht
        exact ⟨_, if_pos rfl, rfl, rfl, rfl, id⟩
      · by_cases hks : k = s
        · subst hks
          rw [hs] at ht
          obtain rfl := Option.some.inj ht
          exact ⟨ts', by rw [if_neg hkd, if_pos rfl], hb.mint, hb.owner, hb.frozen, hb.delegate⟩
        · exact ⟨t, by rw [if_neg hkd, if_neg hks, ht], rfl, rfl, rfl, id⟩
    · intro k
      rw [World.amount_set_token, World.amount_set_token, Pi.sub_apply, Pi.single_apply,
        Pi.single_apply]
      by_cases hkd : k = d
      · subst hkd
        rw [if_pos rfl, if_pos rfl, if_neg hds, World.amount_of_token? hd]
        simp only [hn]
        omega
      · rw [if_neg hkd, if_neg hkd]
        by_cases hks : k = s
        · subst hks
          rw [if_pos rfl, if_pos rfl, World.amount_of_token? hs, hb.amount]
          omega
        · rw [if_neg hks, if_neg hks]
          omega
    · intro m
      simp [World.supply_congr hmnt]
    · intro m
      simp [htot]
    · exact fun hsound => ⟨fun m => by rw [htot]; exact hsound.fits m,
        fun m mi hm => by rw [htot]; exact hsound.minted m mi (by rw [← hmnt]; exact hm)⟩

/-- Minting raises supply and balance by one amount, and the mint authority signed it. -/
theorem mintTo_flow {m d a : Pubkey} {x : UInt64} (h : ch.token.mintTo w m d a x = .ok w') :
    Flow w w' (Pi.single m (x.toNat : ℤ)) (Pi.single d (x.toNat : ℤ)) ∧
      w'.index? = w.index? ∧ ∃ mi, w.mint? m = some mi ∧ mi.mintAuthority = some a := by
  obtain ⟨mi, t, supply, n, hm, hd, rfl, hauth, hsup, hn, rfl⟩ := ch.token.mintTo_ok h
  have ham := World.accounts_of_mint? hm
  have hdm : d ≠ t.mint := by
    rintro rfl
    rw [World.accounts_of_token? hd] at ham
    cases ham
  have had : (w.set t.mint (.mint { mi with supply := supply })).accounts d = .token t := by
    rw [World.set_accounts, if_neg hdm, World.accounts_of_token? hd]
  have htok : (w.set t.mint (.mint { mi with supply := supply })).token? = w.token? :=
    World.token?_set_of_not (by simp) (by simp [ham])
  have hidx : ((w.set t.mint (.mint { mi with supply := supply })).set d
      (.token { t with amount := n })).index? = w.index? := by
    rw [World.index?_set_of_not (by simp) (by simp [had]),
      World.index?_set_of_not (by simp) (by simp [ham])]
  have hmnt : ∀ j, ((w.set t.mint (.mint { mi with supply := supply })).set d
      (.token { t with amount := n })).mint? j
        = if j = t.mint then some { mi with supply := supply } else w.mint? j := by
    intro j
    rw [World.mint?_set_of_not (by simp) (by simp [had]), World.mint?_set_mint]
  have htot : ∀ j, ((w.set t.mint (.mint { mi with supply := supply })).set d
      (.token { t with amount := n })).total j = w.total j + if j = t.mint then x.toNat else 0 := by
    intro j
    have h2 := World.total_set_token (w.set t.mint (.mint { mi with supply := supply })) d
      { t with amount := n } j
    have hheld : (w.set t.mint (.mint { mi with supply := supply })).held j d = w.held j d := by
      simp only [World.held, htok]
    rw [hheld, World.held_of_token? hd, World.total_congr htok] at h2
    by_cases hj : j = t.mint
    · rw [if_pos hj]
      simp only [if_pos hj.symm] at h2
      omega
    · rw [if_neg hj]
      simp only [if_neg (Ne.symm hj)] at h2
      omega
  refine ⟨⟨rfl, ?_, ?_, ?_, ?_, ?_, ?_⟩, hidx, mi, hm, hauth⟩
  · intro k t₁ ht
    rw [World.token?_set_token, htok]
    by_cases hkd : k = d
    · subst hkd
      rw [hd] at ht
      obtain rfl := Option.some.inj ht
      exact ⟨_, if_pos rfl, rfl, rfl, rfl, id⟩
    · exact ⟨t₁, by rw [if_neg hkd, ht], rfl, rfl, rfl, id⟩
  · intro k
    rw [hmnt]
    by_cases hk : k = t.mint
    · subst hk
      rw [if_pos rfl, hm]
      rfl
    · rw [if_neg hk]
  · intro k
    rw [World.amount_set_token, World.amount_congr htok, Pi.single_apply]
    by_cases hkd : k = d
    · subst hkd
      rw [if_pos rfl, if_pos rfl, World.amount_of_token? hd]
      simp only [hn]
      omega
    · rw [if_neg hkd, if_neg hkd]
      omega
  · intro j
    unfold World.supply
    rw [hmnt, Pi.single_apply]
    by_cases hj : j = t.mint
    · subst hj
      simp only [if_true, hm, hsup]
      omega
    · simp only [if_neg hj]
      omega
  · intro j
    rw [htot, Pi.single_apply]
    split <;> omega
  · intro hs
    have hle := hs.minted t.mint mi hm (by simp [hauth])
    have hlt := supply.toNat_lt
    constructor
    · intro j
      rw [htot]
      have := hs.fits j
      by_cases hj : j = t.mint
      · subst hj
        rw [if_pos rfl]
        omega
      · rw [if_neg hj]
        omega
    · intro j mj hmj hsome
      rw [hmnt] at hmj
      rw [htot]
      by_cases hj : j = t.mint
      · subst hj
        rw [if_pos rfl] at hmj ⊢
        obtain rfl := Option.some.inj hmj
        simp only [hsup]
        omega
      · rw [if_neg hj] at hmj ⊢
        exact hs.minted j mj hmj hsome

/-- Burning lowers supply and balance by one amount, by who may burn from the account. -/
theorem burn_flow {s m a : Pubkey} {x : UInt64} (h : ch.token.burn w s m a x = .ok w') :
    Flow w w' (-Pi.single m (x.toNat : ℤ)) (-Pi.single s (x.toNat : ℤ)) ∧
      w'.index? = w.index? ∧
      ∃ t, w.token? s = some t ∧ t.mint = m ∧ ch.token.mayBurn t a x = true := by
  obtain ⟨mi, t, supply, t', hm, hst, hmint, hmay, hx, hsup, hb, rfl⟩ := ch.token.burn_ok h
  have ham := World.accounts_of_mint? hm
  have hsm : s ≠ m := by
    rintro rfl
    rw [World.accounts_of_token? hst] at ham
    cases ham
  have has : (w.set m (.mint { mi with supply := supply })).accounts s = .token t := by
    rw [World.set_accounts, if_neg hsm, World.accounts_of_token? hst]
  have htok : (w.set m (.mint { mi with supply := supply })).token? = w.token? :=
    World.token?_set_of_not (by simp) (by simp [ham])
  have hidx : ((w.set m (.mint { mi with supply := supply })).set s (.token t')).index?
      = w.index? := by
    rw [World.index?_set_of_not (by simp) (by simp [has]),
      World.index?_set_of_not (by simp) (by simp [ham])]
  have hmnt : ∀ j, ((w.set m (.mint { mi with supply := supply })).set s (.token t')).mint? j
      = if j = m then some { mi with supply := supply } else w.mint? j := by
    intro j
    rw [World.mint?_set_of_not (by simp) (by simp [has]), World.mint?_set_mint]
  have htot : ∀ j, ((w.set m (.mint { mi with supply := supply })).set s (.token t')).total j
      + (if j = m then x.toNat else 0) = w.total j := by
    intro j
    have h2 := World.total_set_token (w.set m (.mint { mi with supply := supply })) s t' j
    have hheld : (w.set m (.mint { mi with supply := supply })).held j s = w.held j s := by
      simp only [World.held, htok]
    rw [hheld, World.held_of_token? hst, World.total_congr htok] at h2
    rw [hb.mint, hb.amount, hmint] at h2
    by_cases hj : j = m
    · rw [if_pos hj]
      rw [if_pos hj.symm, if_pos hj.symm] at h2
      omega
    · rw [if_neg hj]
      rw [if_neg (Ne.symm hj), if_neg (Ne.symm hj)] at h2
      omega
  refine ⟨⟨rfl, ?_, ?_, ?_, ?_, ?_, ?_⟩, hidx, t, hst, hmint, hmay⟩
  · intro k t₁ ht
    rw [World.token?_set_token, htok]
    by_cases hks : k = s
    · subst hks
      rw [hst] at ht
      obtain rfl := Option.some.inj ht
      exact ⟨t', if_pos rfl, hb.mint, hb.owner, hb.frozen, hb.delegate⟩
    · exact ⟨t₁, by rw [if_neg hks, ht], rfl, rfl, rfl, id⟩
  · intro k
    rw [hmnt]
    by_cases hk : k = m
    · subst hk
      rw [if_pos rfl, hm]
      rfl
    · rw [if_neg hk]
  · intro k
    rw [World.amount_set_token, World.amount_congr htok, Pi.neg_apply, Pi.single_apply]
    by_cases hks : k = s
    · subst hks
      rw [if_pos rfl, if_pos rfl, World.amount_of_token? hst, hb.amount]
      omega
    · rw [if_neg hks, if_neg hks]
      omega
  · intro j
    unfold World.supply
    rw [hmnt, Pi.neg_apply, Pi.single_apply]
    by_cases hj : j = m
    · subst hj
      simp only [if_true, hm]
      omega
    · simp only [if_neg hj]
      omega
  · intro j
    have ht := htot j
    rw [Pi.neg_apply, Pi.single_apply]
    by_cases hj : j = m
    · rw [if_pos hj] at ht ⊢
      omega
    · rw [if_neg hj] at ht ⊢
      omega
  · intro hs
    constructor
    · intro j
      have := htot j
      have := hs.fits j
      omega
    · intro j mj hmj hsome
      rw [hmnt] at hmj
      have ht := htot j
      by_cases hj : j = m
      · subst hj
        rw [if_pos rfl] at hmj ht
        obtain rfl := Option.some.inj hmj
        have := hs.minted j mi hm hsome
        simp only
        omega
      · rw [if_neg hj] at hmj ht
        have := hs.minted j mj hmj hsome
        omega

/-! ## Accounts that come into being -/

/-- An account that comes into being brings no tokens. -/
theorem createAccount_flow {p k o : Pubkey} (h : ch.createAccount w p k o = .ok w') :
    Flow w w' 0 0 ∧ w'.index? = w.index? ∧ w'.accounts k = .allocated o := by
  obtain ⟨hk, rfl⟩ := ch.createAccount_ok h
  refine ⟨Flow.of_eq rfl ?_ ?_, ?_, by rw [World.set_accounts, if_pos rfl]⟩
  · exact World.token?_set_of_not (by simp) (by simp [hk])
  · exact World.mint?_set_of_not (by simp) (by simp [hk])
  · exact World.index?_set_of_not (by simp) (by simp [hk])

/-- A token account comes into being, without tokens. -/
theorem openAccount_flow {k m o : Pubkey} (htoken : ∀ t, w.accounts k ≠ .token t)
    (hmint : ∀ mi, w.accounts k ≠ .mint mi) (hindex : ∀ i, w.accounts k ≠ .index i)
    (hw : w' = w.set k (.token
      { mint := m, owner := o, amount := 0, delegate := none, frozen := false })) :
    Flow w w' 0 0 ∧ w'.index? = w.index? ∧ w'.mint? = w.mint? ∧
      (∀ j, w'.token? j = if j = k then
        some { mint := m, owner := o, amount := 0, delegate := none, frozen := false }
        else w.token? j) := by
  subst hw
  have hnone : w.token? k = none := by
    unfold World.token?
    split
    next t h => exact absurd h (htoken t)
    next => rfl
  have hmnt := World.mint?_set_of_not (w := w) (k := k)
    (a := .token { mint := m, owner := o, amount := 0, delegate := none, frozen := false })
    (by simp) hmint
  have hidx := World.index?_set_of_not (w := w) (k := k)
    (a := .token { mint := m, owner := o, amount := 0, delegate := none, frozen := false })
    (by simp) hindex
  have htot : ∀ j, (w.set k (.token
      { mint := m, owner := o, amount := 0, delegate := none, frozen := false })).total j
        = w.total j := by
    intro j
    have ht := World.total_set_token w k
      { mint := m, owner := o, amount := 0, delegate := none, frozen := false } j
    have hheld : w.held j k = 0 := by simp [World.held, hnone]
    simp only [hheld, UInt64.toNat_zero, ite_self] at ht
    exact ht
  refine ⟨⟨rfl, ?_, fun j => by rw [hmnt], ?_, ?_, ?_, ?_⟩, hidx, hmnt,
    fun j => World.token?_set_token _ j⟩
  · intro j t ht
    have hjk : j ≠ k := by
      rintro rfl
      rw [hnone] at ht
      cases ht
    exact ⟨t, by rw [World.token?_set_token, if_neg hjk, ht], rfl, rfl, rfl, id⟩
  · intro j
    rw [World.amount_set_token, Pi.zero_apply]
    by_cases hjk : j = k
    · subst hjk
      simp [World.amount, hnone]
    · rw [if_neg hjk, add_zero]
  · intro j
    simp [World.supply_congr hmnt]
  · intro j
    simp [htot]
  · exact fun hs => ⟨fun j => by rw [htot]; exact hs.fits j,
      fun j mi hj => by rw [htot]; exact hs.minted j mi (by rw [← hmnt]; exact hj)⟩

/-- A new token account is empty and its own. -/
theorem initializeAccount3_flow {k m o : Pubkey}
    (h : ch.token.initializeAccount3 w k m o = .ok w') :
    Flow w w' 0 0 ∧ w'.index? = w.index? ∧ w'.mint? = w.mint? ∧
      (∀ j, w'.token? j = if j = k then
        some { mint := m, owner := o, amount := 0, delegate := none, frozen := false }
        else w.token? j) := by
  obtain ⟨hk, -, hw⟩ := ch.token.initializeAccount3_ok h
  exact openAccount_flow (by simp [hk]) (by simp [hk]) (by simp [hk]) hw

/-! ## Addresses that stay empty -/

/-- No address that was empty was given an account. -/
def World.OpensNone (w w' : World) : Prop := ∀ k, w.accounts k = .empty → w'.accounts k = .empty

namespace World.OpensNone

theorem refl (w : World) : w.OpensNone w := fun _ h => h

/-- What opens no address in two steps opens none in both. -/
theorem trans {w₁ w₂ : World} (h : w.OpensNone w₁) (h' : w₁.OpensNone w₂) : w.OpensNone w₂ :=
  fun k hk => h' k (h k hk)

/-- Writing to an account that is there opens none. -/
theorem set {k : Pubkey} (hk : w.accounts k ≠ .empty) (a : Account) : w.OpensNone (w.set k a) := by
  intro j hj
  have hjk : j ≠ k := by
    intro e
    exact hk (e ▸ hj)
  rw [World.set_accounts, if_neg hjk, hj]

/-- Rewriting a record opens no address. -/
theorem setIndex {k : Pubkey} {i : Index} (h : w.index? k = some i) (i' : Index) :
    w.OpensNone (w.setIndex k i') :=
  set (by simp [World.accounts_of_index? h]) (.index i')

end World.OpensNone

/-- A transfer opens no address. -/
theorem transfer_opensNone {s d a : Pubkey} {x : UInt64}
    (h : ch.token.transfer w s d a x = .ok w') : w.OpensNone w' := by
  obtain ⟨ts, td, hs, hd, -, -, -, hsame, hmoved⟩ := ch.token.transfer_ok h
  by_cases hsd : s = d
  · rw [hsame hsd]
    exact .refl w
  · obtain ⟨ts', n, -, -, rfl⟩ := hmoved hsd
    refine (World.OpensNone.set (by simp [World.accounts_of_token? hs]) _).trans (.set ?_ _)
    rw [World.set_accounts, if_neg (Ne.symm hsd), World.accounts_of_token? hd]
    exact fun e => by cases e

/-- Minting opens no address. -/
theorem mintTo_opensNone {m d a : Pubkey} {x : UInt64} (h : ch.token.mintTo w m d a x = .ok w') :
    w.OpensNone w' := by
  obtain ⟨mi, t, supply, n, hm, hd, -, -, -, -, rfl⟩ := ch.token.mintTo_ok h
  have hdm : d ≠ m := by
    intro e
    have ha := World.accounts_of_mint? hm
    rw [← e, World.accounts_of_token? hd] at ha
    cases ha
  refine (World.OpensNone.set (by simp [World.accounts_of_mint? hm]) _).trans (.set ?_ _)
  rw [World.set_accounts, if_neg hdm, World.accounts_of_token? hd]
  exact fun e => by cases e

end Flock
