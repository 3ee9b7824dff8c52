import Flock.Ledger

/-!
# Who can move what

An account is in the custody of an index when it belongs to that index's
address and nobody was made its delegate. `Leg` is a stretch of a handler of
one index: a flow of the books in which the supply of that index's mint is the
only one that moves, no account in the custody of another index loses anything,
and no other record is written.

Each helper of the processor is one leg. What makes it so is always the same
argument: a debit or a burn needs an authority, the authority of an account in
custody is the index address, and the authority is either a signer of the
instruction, which no index address can be, or the address of the index whose
handler is running.
-/

namespace Flock

open Outcome MachineInt

/-- Held by the address of the index of `m`, with no delegate. -/
def Custodied (ch : Chain) (m : Pubkey) (w : World) (k : Pubkey) : Prop :=
  ch.inUse m ∧ ∃ t, w.token? k = some t ∧ t.owner = ch.indexKey m ∧ t.delegate = none

/-- Not the address of an index: what is known of every signer, since no key
signs for a program address and the program never calls itself. -/
def Chain.Outsider (ch : Chain) (k : Pubkey) : Prop := ∀ m, ch.inUse m → k ≠ ch.indexKey m

variable {ch : Chain} {m : Pubkey} {w w' w'' : World}

/-- Moving tokens keeps a vault in custody. -/
theorem Custodied.of_flow {dS dA : Pubkey → ℤ} {k : Pubkey} (hk : Custodied ch m w k)
    (h : Flow w w' dS dA) : Custodied ch m w' k := by
  obtain ⟨hm, t, ht, ho, hd⟩ := hk
  obtain ⟨t', ht', -, ho', -, hd'⟩ := h.account ht
  exact ⟨hm, t', ht', ho'.trans ho, hd' hd⟩

/-- Whoever debits an account in custody is the index address itself. -/
theorem Custodied.debit {s d a : Pubkey} {x : UInt64} (hs : Custodied ch m w s)
    (h : ch.token.transfer w s d a x = .ok w') : a = ch.indexKey m := by
  obtain ⟨hm, t, ht, ho, hd⟩ := hs
  obtain ⟨ts, -, hts, -, -, hmay, -⟩ := ch.token.transfer_ok h
  obtain rfl := Option.some.inj (ht.symm.trans hts)
  exact (ch.pda_debit hm ho hd hmay).trans ho

/-- From a vault nobody burns but the index. -/
theorem Custodied.burn {s k a : Pubkey} {x : UInt64} (hs : Custodied ch m w s)
    (h : ch.token.burn w s k a x = .ok w') : a = ch.indexKey m := by
  obtain ⟨hm, t, ht, ho, hd⟩ := hs
  obtain ⟨-, ts, -, -, -, hts, -, hmay, -⟩ := ch.token.burn_ok h
  obtain rfl := Option.some.inj (ht.symm.trans hts)
  exact (ch.pda_burn hm ho hd hmay).trans ho

/-- What is added in one place is taken from none. -/
theorem single_nonneg (k j : Pubkey) (x : Nat) : 0 ≤ (Pi.single k (x : ℤ) : Pubkey → ℤ) j := by
  rw [Pi.single_apply]
  split <;> omega

/-! ## Legs -/

structure Leg (ch : Chain) (m : Pubkey) (w w' : World) (dS : ℤ) (dA : Pubkey → ℤ) : Prop where
  flow : Flow w w' (Pi.single m dS) dA
  records : ∀ k, k ≠ ch.indexKey m → w'.index? k = w.index? k
  foreign : ∀ {m' k}, m' ≠ m → Custodied ch m' w k → 0 ≤ dA k

namespace Leg

variable {dS dS' : ℤ} {dA dA' : Pubkey → ℤ}

/-- What moves no tokens and touches no other record is a leg that moves nothing. -/
theorem of_still (h : Flow w w' 0 0) (hr : ∀ k, k ≠ ch.indexKey m → w'.index? k = w.index? k) :
    Leg ch m w w' 0 0 :=
  ⟨by rw [Pi.single_zero]; exact h, hr, fun _ _ => le_refl _⟩

/-- Nothing happens. -/
theorem refl (ch : Chain) (m : Pubkey) (w : World) : Leg ch m w w 0 0 :=
  of_still (Flow.refl w) fun _ _ => rfl

/-- One leg after another moves both. -/
theorem trans (h : Leg ch m w w' dS dA) (h' : Leg ch m w' w'' dS' dA') :
    Leg ch m w w'' (dS + dS') (dA + dA') where
  flow := by
    rw [Pi.single_add]
    exact h.flow.trans h'.flow
  records := fun k hk => (h'.records k hk).trans (h.records k hk)
  foreign := by
    intro m' k hm hk
    have h₁ := h.foreign hm hk
    have h₂ := h'.foreign hm (hk.of_flow h.flow)
    rw [Pi.add_apply]
    omega

/-- A leg, its two moves rewritten. -/
theorem cast (h : Leg ch m w w' dS dA) (hS : dS = dS') (hA : dA = dA') :
    Leg ch m w w' dS' dA' := by
  rw [← hS, ← hA]
  exact h

/-- Writing the index's own record moves nothing. -/
theorem of_setIndex {i : Index} (h : w.index? (ch.indexKey m) = some i) (i' : Index) :
    Leg ch m w (w.setIndex (ch.indexKey m) i') 0 0 :=
  of_still (Flow.of_setIndex h i') fun k hk => by rw [World.index?_setIndex, if_neg hk]

/-- A leg changes the supply by what it says. -/
theorem supply (h : Leg ch m w w' dS dA) : (w'.supply m : ℤ) = w.supply m + dS := by
  rw [h.flow.supply, Pi.single_eq_same]

/-- A leg changes no other supply. -/
theorem supply_of_ne (h : Leg ch m w w' dS dA) {m' : Pubkey} (hm : m' ≠ m) :
    w'.supply m' = w.supply m' := by
  have hs := h.flow.supply m'
  rw [Pi.single_eq_of_ne hm] at hs
  omega

end Leg

/-- A move between two accounts of one mint changes nothing else. -/
theorem transfer_leg {s d a : Pubkey} {x : UInt64} (h : ch.token.transfer w s d a x = .ok w')
    (hf : ∀ {m'}, ch.inUse m' → m' ≠ m → a ≠ ch.indexKey m') :
    Leg ch m w w' 0 (Pi.single d (x.toNat : ℤ) - Pi.single s (x.toNat : ℤ)) := by
  obtain ⟨hflow, hidx, -⟩ := transfer_flow h
  refine ⟨by rw [Pi.single_zero]; exact hflow, fun k _ => by rw [hidx], ?_⟩
  intro m' k hm hk
  rw [Pi.sub_apply, Pi.single_apply, Pi.single_apply]
  by_cases hks : k = s
  · subst hks
    exact absurd (hk.debit h) (hf hk.1 hm)
  · rw [if_neg hks]
    split <;> omega

/-! ## The helpers of the processor -/

/-- A payout moves an amount from the vault to the recipient, by the authority of the index. -/
theorem transferFromVault_leg {vault recipient indexInfo : AccountInfo} {x : UInt64}
    (h : transferFromVault ch w vault recipient indexInfo x = .ok w')
    (hm : ch.inUse m) (hi : indexInfo.key = ch.indexKey m) :
    Leg ch m w w' 0 (Pi.single recipient.key (x.toNat : ℤ) - Pi.single vault.key (x.toNat : ℤ)) ∧
      w'.index? = w.index? ∧ w'.mint? = w.mint? := by
  unfold transferFromVault at h
  split at h
  next hx =>
    obtain rfl := Except.ok.inj h
    refine ⟨?_, rfl, rfl⟩
    simp only [hx, UInt64.toNat_zero, Nat.cast_zero, Pi.single_zero, sub_zero]
    exact Leg.refl ch m _
  next =>
    refine ⟨transfer_leg h fun hm' hne e => hne ?_, (transfer_flow h).2⟩
    exact (ch.indexKey_inj hm hm' (hi.symm.trans e)).symm

/-- A delivery moves an amount from the user to the vault, and out of no vault. -/
theorem transferFromUser_leg {source vault user : AccountInfo} {x : UInt64}
    (h : transferFromUser ch w source vault user x = .ok w') (hu : ch.Outsider user.key) :
    Leg ch m w w' 0 (Pi.single vault.key (x.toNat : ℤ) - Pi.single source.key (x.toNat : ℤ)) ∧
      w'.index? = w.index? ∧ w'.mint? = w.mint? ∧
      (∀ m', Custodied ch m' w source.key → x.toNat = 0) := by
  unfold transferFromUser at h
  split at h
  next hx =>
    obtain rfl := Except.ok.inj h
    refine ⟨?_, rfl, rfl, fun _ _ => by rw [hx, UInt64.toNat_zero]⟩
    simp only [hx, UInt64.toNat_zero, Nat.cast_zero, Pi.single_zero, sub_zero]
    exact Leg.refl ch m _
  next =>
    obtain ⟨-, hidx, hmnt⟩ := transfer_flow h
    exact ⟨transfer_leg h fun hm' _ => hu _ hm', hidx, hmnt,
      fun m' hs => absurd (hs.debit h) (hu m' hs.1)⟩

/-- Nobody pays what is not there. -/
theorem transferFromUser_le {source vault user : AccountInfo} {x : UInt64}
    (h : transferFromUser ch w source vault user x = .ok w') : x.toNat ≤ w.amount source.key := by
  unfold transferFromUser at h
  split at h
  next hx =>
    rw [hx, UInt64.toNat_zero]
    exact Nat.zero_le _
  next =>
    obtain ⟨ts, -, hs, -, -, -, hle, -⟩ := ch.token.transfer_ok h
    rw [World.amount_of_token? hs]
    exact hle

/-- A payout opens no address. -/
theorem transferFromVault_opensNone {vault recipient indexInfo : AccountInfo} {x : UInt64}
    (h : transferFromVault ch w vault recipient indexInfo x = .ok w') : w.OpensNone w' := by
  unfold transferFromVault at h
  split at h
  next =>
    obtain rfl := Except.ok.inj h
    exact .refl w
  next => exact transfer_opensNone h

/-- A delivery opens no address. -/
theorem transferFromUser_opensNone {source vault user : AccountInfo} {x : UInt64}
    (h : transferFromUser ch w source vault user x = .ok w') : w.OpensNone w' := by
  unfold transferFromUser at h
  split at h
  next =>
    obtain rfl := Except.ok.inj h
    exact .refl w
  next => exact transfer_opensNone h

/-- Minted index tokens are supply and go to one account. -/
theorem mintIndexTokens_leg {mint recipient indexInfo : AccountInfo} {x : UInt64}
    (h : mintIndexTokens ch w mint recipient indexInfo x = .ok w') (hm : mint.key = m) :
    Leg ch m w w' (x.toNat : ℤ) (Pi.single recipient.key (x.toNat : ℤ)) ∧
      w'.index? = w.index? := by
  unfold mintIndexTokens at h
  split at h
  next hx =>
    obtain rfl := Except.ok.inj h
    refine ⟨?_, rfl⟩
    simp only [hx, UInt64.toNat_zero, Nat.cast_zero, Pi.single_zero]
    exact Leg.refl ch m _
  next =>
    obtain ⟨hflow, hidx, -⟩ := mintTo_flow h
    rw [hm] at hflow
    refine ⟨⟨hflow, fun k _ => by rw [hidx], ?_⟩, hidx⟩
    intro m' k _ _
    rw [Pi.single_apply]
    split <;> omega

/-- A burn under an outsider's signature cannot touch an account in custody. -/
theorem burnIndexTokens_leg {mint source user : AccountInfo} {x : UInt64}
    (h : burnIndexTokens ch w mint source user x = .ok w') (hm : mint.key = m)
    (hu : ch.Outsider user.key) :
    Leg ch m w w' (-x.toNat : ℤ) (-Pi.single source.key (x.toNat : ℤ)) ∧
      w'.index? = w.index? ∧ (∀ m', ¬ Custodied ch m' w source.key) := by
  unfold burnIndexTokens at h
  have hfree : ∀ m', ¬ Custodied ch m' w source.key := fun m' hs => hu m' hs.1 (hs.burn h)
  obtain ⟨hflow, hidx, -⟩ := burn_flow h
  rw [hm] at hflow
  refine ⟨⟨by rw [Pi.single_neg]; exact hflow, fun k _ => by rw [hidx], ?_⟩, hidx, hfree⟩
  intro m' k _ hk
  have hks : k ≠ source.key := by
    rintro rfl
    exact hfree m' hk
  rw [Pi.neg_apply, Pi.single_eq_of_ne hks]
  omega

/-- The record after an accrual at `now`. -/
def Index.accrued (idx : Index) (now : Int64) : Index := { idx with lastFeeAccrual := now }

/-- What `accrue` did, whoever called it: the fee the formula gives for the time
since the last accrual was minted to the fee account, and the record's clock
was moved. There is one such world `w'` (`world`), and the rest is read off it. -/
structure Accrual (ch : Chain) (m : Pubkey) (idx : Index) (w w' : World) (feeAta : Pubkey)
    (owed : UInt64) : Prop where
  fee : ∃ mi, w.mint? m = some mi ∧ streamingFeeTokens mi.supply idx.streamingFeeBps
    (saturatingSub w.clock idx.lastFeeAccrual) = .ok owed
  leg : Leg ch m w w' (owed.toNat : ℤ) (Pi.single feeAta (owed.toNat : ℤ))
  record : w'.index? (ch.indexKey m) = some (idx.accrued w.clock)
  account : owed ≠ 0 → ∃ t, w.token? feeAta = some t ∧ t.mint = m ∧ t.owner = idx.feeRecipient
  world : owed = 0 ∧ w' = w.setIndex (ch.indexKey m) (idx.accrued w.clock) ∨
    owed ≠ 0 ∧ ch.token.mintTo (w.setIndex (ch.indexKey m) (idx.accrued w.clock)) m feeAta
      (ch.indexKey m) owed = .ok w'

/-- The streaming fee credits no account of another mint. -/
theorem Accrual.off {idx : Index} {feeAta k : Pubkey} {owed : UInt64} {t : TokenAccount}
    (h : Accrual ch m idx w w' feeAta owed) (hk : w.token? k = some t) (hne : t.mint ≠ m) :
    (Pi.single feeAta (owed.toNat : ℤ) : Pubkey → ℤ) k = 0 := by
  by_cases h0 : owed = 0
  · rw [h0, UInt64.toNat_zero, Nat.cast_zero, Pi.single_zero, Pi.zero_apply]
  · obtain ⟨t', ht', htm, -⟩ := h.account h0
    refine Pi.single_eq_of_ne ?_ _
    intro he
    rw [he, ht'] at hk
    exact hne (by rw [← Option.some.inj hk, htm])

/-- Nothing is owed on no supply. -/
theorem Accrual.owed_zero {idx : Index} {feeAta : Pubkey} {owed : UInt64}
    (h : Accrual ch m idx w w' feeAta owed) (h0 : w.supply m = 0) : owed = 0 := by
  obtain ⟨mi, hmi, hfee⟩ := h.fee
  rw [World.supply_of_mint? hmi, ← UInt64.toNat_zero] at h0
  rw [streamingFeeTokens, if_pos (.inl (UInt64.toNat_inj.mp h0))] at hfee
  exact (Except.ok.inj hfee).symm

/-- Two accruals on one world mint one fee. -/
theorem Accrual.owed_unique {idx : Index} {w₂ : World} {feeAta feeAta' : Pubkey}
    {owed owed' : UInt64} (h : Accrual ch m idx w w' feeAta owed)
    (h' : Accrual ch m idx w w₂ feeAta' owed') : owed' = owed := by
  obtain ⟨mi, hmi, hfee⟩ := h.fee
  obtain ⟨mi', hmi', hfee'⟩ := h'.fee
  obtain rfl := Option.some.inj (hmi.symm.trans hmi')
  exact Except.ok.inj (hfee'.symm.trans hfee)

/-- Two accruals on one world leave one supply. -/
theorem Accrual.supply_unique {idx : Index} {w₂ : World} {feeAta feeAta' : Pubkey}
    {owed owed' : UInt64} (h : Accrual ch m idx w w' feeAta owed)
    (h' : Accrual ch m idx w w₂ feeAta' owed') : w₂.supply m = w'.supply m := by
  have hS := h.leg.supply
  have hS' := h'.leg.supply
  rw [h.owed_unique h'] at hS'
  omega

/-- What an accrual does: it moves the clock of the fee, and mints the fee where there
is one. -/
theorem accrue_ok {indexInfo indexMintInfo feeAta : AccountInfo} {now : Int64} {owed : UInt64}
    (h : accrue ch w indexInfo indexMintInfo feeAta now = .ok (owed, w')) :
    ∃ idx mi, indexRef w indexInfo = .ok idx ∧ w.mint? indexMintInfo.key = some mi ∧
      streamingFeeTokens mi.supply idx.streamingFeeBps
        (saturatingSub now idx.lastFeeAccrual) = .ok owed ∧
      (owed = 0 ∧ w' = w.setIndex indexInfo.key (idx.accrued now) ∨
        owed ≠ 0 ∧
        (∃ t, requireTokenAccount (w.setIndex indexInfo.key (idx.accrued now)) feeAta
          indexMintInfo.key idx.feeRecipient = .ok t) ∧
        mintIndexTokens ch (w.setIndex indexInfo.key (idx.accrued now)) indexMintInfo feeAta
          indexInfo owed = .ok w') := by
  simp only [accrue, bind_ok_iff, readMint_ok_iff, lift_ok_iff] at h
  obtain ⟨idx, hidx, mi, hmi, owed', hfee, h⟩ := h
  split at h
  next howed =>
    obtain ⟨rfl, rfl⟩ := Prod.mk.inj (Except.ok.inj h)
    exact ⟨idx, mi, hidx, hmi, howed ▸ hfee, .inl ⟨rfl, rfl⟩⟩
  next howed =>
    simp only [bind_ok_iff] at h
    obtain ⟨t, ht, w₁, hmint, h⟩ := h
    obtain ⟨rfl, rfl⟩ := Prod.mk.inj (Except.ok.inj h)
    exact ⟨idx, mi, hidx, hmi, hfee, .inr ⟨howed, ⟨t, ht⟩, hmint⟩⟩

/-- What `accrue` did, when it went through, on the record that was there. -/
theorem accrue_accrual {indexInfo indexMintInfo feeAta : AccountInfo} {idx : Index}
    {owed : UInt64} (h : accrue ch w indexInfo indexMintInfo feeAta w.clock = .ok (owed, w'))
    (hi : indexInfo.key = ch.indexKey indexMintInfo.key)
    (hidx : w.index? indexInfo.key = some idx) :
    Accrual ch indexMintInfo.key idx w w' feeAta.key owed := by
  obtain ⟨idx', mi, href, hmi, hfee, h⟩ := accrue_ok h
  obtain rfl := Option.some.inj (hidx.symm.trans (indexRef_ok_iff.mp href).1)
  rw [hi] at hidx h
  have hset := Leg.of_setIndex (m := indexMintInfo.key) hidx (idx.accrued w.clock)
  rcases h with ⟨rfl, rfl⟩ | ⟨howed, ⟨t, ht⟩, hmint⟩
  · refine ⟨⟨mi, hmi, hfee⟩, ?_, World.index?_setIndex_self _, fun hne => absurd rfl hne,
      .inl ⟨rfl, rfl⟩⟩
    simp only [UInt64.toNat_zero, Nat.cast_zero, Pi.single_zero]
    exact hset
  · obtain ⟨ht, htm, hto⟩ := requireTokenAccount_ok_iff.mp ht
    obtain ⟨hleg, hrec⟩ := mintIndexTokens_leg hmint rfl
    refine ⟨⟨mi, hmi, hfee⟩, (hset.trans hleg).cast (zero_add _) (zero_add _), ?_, ?_,
      .inr ⟨howed, ?_⟩⟩
    · rw [hrec]
      exact World.index?_setIndex_self _
    · intro _
      refine ⟨t, ?_, htm, hto⟩
      rw [← ht]
      have ha := World.accounts_of_index? hidx
      exact congrFun (World.token?_set_of_not (by simp) (by simp [ha])).symm feeAta.key
    · rw [mintIndexTokens, if_neg howed, hi] at hmint
      exact hmint

/-- A mint changes how much an account holds, and no more. -/
theorem mintTo_account {d a j : Pubkey} {x : UInt64} {t : TokenAccount}
    (h : ch.token.mintTo w m d a x = .ok w') (ht : w.token? j = some t) :
    ∃ n, w'.token? j = some { t with amount := n } ∧ t.amount.toNat ≤ n.toNat := by
  obtain ⟨mi, td, supply, n, hm, hd, rfl, -, -, hn, rfl⟩ := ch.token.mintTo_ok h
  have ham := World.accounts_of_mint? hm
  rw [World.token?_set_token, World.token?_set_of_not (by simp) (by simp [ham])]
  by_cases hj : j = d
  · rw [hj, hd, Option.some.injEq] at ht
    subst ht
    rw [if_pos hj]
    exact ⟨n, rfl, by omega⟩
  · rw [if_neg hj]
    exact ⟨t.amount, ht, le_refl _⟩

/-- An accrual changes how much the fee account holds, and no more. -/
theorem accrue_account {indexInfo indexMintInfo feeAta : AccountInfo} {owed : UInt64} {j : Pubkey}
    {t : TokenAccount}
    (h : accrue ch w indexInfo indexMintInfo feeAta w.clock = .ok (owed, w'))
    (ht : w.token? j = some t) :
    ∃ n, w'.token? j = some { t with amount := n } ∧ t.amount.toNat ≤ n.toNat := by
  obtain ⟨idx, mi, href, -, -, h⟩ := accrue_ok h
  have ha := World.accounts_of_index? (indexRef_ok_iff.mp href).1
  have ht' : (w.setIndex indexInfo.key (idx.accrued w.clock)).token? j = some t :=
    (congrFun (World.token?_set_of_not (by simp) (by simp [ha])) _).trans ht
  rcases h with ⟨-, rfl⟩ | ⟨howed, -, hmint⟩
  · exact ⟨t.amount, ht', le_refl _⟩
  · rw [mintIndexTokens, if_neg howed] at hmint
    exact mintTo_account hmint ht'

/-- An accrual opens no address. -/
theorem accrue_opensNone {indexInfo indexMintInfo feeAta : AccountInfo} {owed : UInt64}
    (h : accrue ch w indexInfo indexMintInfo feeAta w.clock = .ok (owed, w')) : w.OpensNone w' := by
  obtain ⟨idx, mi, href, -, -, h⟩ := accrue_ok h
  have hset := World.OpensNone.setIndex (indexRef_ok_iff.mp href).1 (idx.accrued w.clock)
  rcases h with ⟨-, rfl⟩ | ⟨howed, -, hmint⟩
  · exact hset
  · rw [mintIndexTokens, if_neg howed] at hmint
    exact hset.trans (mintTo_opensNone hmint)

/-- A fee is minted to an account of the fee recipient, if there is one to mint. -/
theorem mintFee_account {indexInfo indexMintInfo feeAta : AccountInfo} {idx : Index} {x : UInt64}
    (h : mintFee ch w indexInfo indexMintInfo feeAta x = .ok w')
    (hidx : w.index? indexInfo.key = some idx) (hx : x.toNat ≠ 0) :
    ∃ t, w.token? feeAta.key = some t ∧ t.mint = indexMintInfo.key ∧ t.owner = idx.feeRecipient := by
  unfold mintFee at h
  split at h
  next =>
    simp only [bind_ok_iff, indexRef_ok_iff, requireTokenAccount_ok_iff] at h
    obtain ⟨idx', ⟨hidx', -⟩, t, ht, -⟩ := h
    obtain rfl := Option.some.inj (hidx.symm.trans hidx')
    exact ⟨t, ht⟩
  next hle =>
    refine absurd ?_ hx
    rw [UInt64.le_zero_iff.mp (UInt64.not_lt.mp hle), UInt64.toNat_zero]

/-- A trade fee is supply and goes to the fee account. -/
theorem mintFee_leg {indexInfo indexMintInfo feeAta : AccountInfo} {x : UInt64}
    (h : mintFee ch w indexInfo indexMintInfo feeAta x = .ok w') (hm : indexMintInfo.key = m) :
    Leg ch m w w' (x.toNat : ℤ) (Pi.single feeAta.key (x.toNat : ℤ)) ∧ w'.index? = w.index? := by
  unfold mintFee at h
  split at h
  next =>
    simp only [bind_ok_iff] at h
    obtain ⟨-, -, -, -, h⟩ := h
    exact mintIndexTokens_leg h hm
  next hx =>
    obtain rfl := Except.ok.inj h
    have h0 : x = 0 := UInt64.le_zero_iff.mp (UInt64.not_lt.mp hx)
    refine ⟨?_, rfl⟩
    simp only [h0, UInt64.toNat_zero, Nat.cast_zero, Pi.single_zero]
    exact Leg.refl ch m _

end Flock
