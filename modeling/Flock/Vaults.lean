import Flock.Custody

/-!
# Vaults and units

`Custody` is what an index owns: the authority of its mint and one vault per
component, all at the index address. Under it the two halves of every handler
have closed forms. `verify_vaults` succeeds exactly on the list of the vault
addresses, and returns their balances; `sync_units` succeeds exactly when every
unit count fits its field, and writes the floor of `balance * 1e9 / supply`
into every component (`Index.synced`), or nothing at zero supply.
-/

namespace Flock

open Outcome MachineInt

variable {ch : Chain} {m : Pubkey} {w w' : World} {idx : Index}

namespace World

/-- The balance at an address, as the program reads it. -/
def balance (w : World) (k : Pubkey) : UInt64 :=
  match w.token? k with
  | some t => t.amount
  | none => 0

/-- A balance fits its word. -/
theorem toNat_balance (w : World) (k : Pubkey) : (w.balance k).toNat = w.amount k := by
  unfold balance amount
  split <;> simp_all

/-- Tokens in the vault of a component of the index of `m`. -/
def vault (w : World) (ch : Chain) (m : Pubkey) (c : Component) : Nat :=
  w.amount (ch.vaultKey m c.mint)

/-- A vault goes by the mint of its component. -/
theorem vault_congr {w : World} {ch : Chain} {m : Pubkey} {c c' : Component}
    (h : c.mint = c'.mint) : w.vault ch m c = w.vault ch m c' := by
  rw [vault, vault, h]

/-- A vault holds a `u64`. -/
theorem vault_lt (w : World) (ch : Chain) (m : Pubkey) (c : Component) :
    w.vault ch m c < 2 ^ 64 := w.amount_lt _

/-- Writing the record that is there changes nothing. -/
theorem setIndex_self {k : Pubkey} (h : w.index? k = some idx) : w.setIndex k idx = w := by
  have ha := accounts_of_index? h
  unfold setIndex set
  congr
  funext j
  by_cases hj : j = k
  · rw [if_pos hj, hj, ha]
  · rw [if_neg hj]

/-- Of two records written to one key the last one stays. -/
theorem setIndex_setIndex (w : World) (k : Pubkey) (i i' : Index) :
    (w.setIndex k i).setIndex k i' = w.setIndex k i' := by
  unfold setIndex set
  congr
  funext j
  by_cases hj : j = k
  · simp only [if_pos hj]
  · simp only [if_neg hj]

end World

def Index.vaultKeys (ch : Chain) (m : Pubkey) (idx : Index) : List Pubkey :=
  idx.components.map fun c => ch.vaultKey m c.mint

/-! ## Custody -/

structure Custody (ch : Chain) (m : Pubkey) (w : World) (idx : Index) : Prop where
  inUse : ch.inUse m
  header : idx.tag = accountTagIndex ∧ idx.version = stateVersion
  indexMint : idx.indexMint = m
  mint : ∃ mi, w.mint? m = some mi ∧ mi.mintAuthority = some (ch.indexKey m) ∧
    mi.decimals = indexDecimals ∧ mi.freezeAuthority = none
  vaults : ∀ c ∈ idx.components, ∃ t, w.token? (ch.vaultKey m c.mint) = some t ∧
    t.mint = c.mint ∧ t.owner = ch.indexKey m ∧ t.delegate = none
  nodup : (idx.components.map Component.mint).Nodup

namespace Custody

/-- Moving tokens leaves custody as it is. -/
theorem of_flow {dS dA : Pubkey → ℤ} (hC : Custody ch m w idx) (h : Flow w w' dS dA) :
    Custody ch m w' idx where
  inUse := hC.inUse
  header := hC.header
  indexMint := hC.indexMint
  mint := by
    obtain ⟨mi, hmi, ha, hd, hf⟩ := hC.mint
    obtain ⟨mi', hmi', ha', hd', hf'⟩ := h.mint?_of hmi
    exact ⟨mi', hmi', ha'.trans ha, hd'.trans hd, hf'.trans hf⟩
  vaults := by
    intro c hc
    obtain ⟨t, ht, hm, ho, hd⟩ := hC.vaults c hc
    obtain ⟨t', ht', hm', ho', -, hd'⟩ := h.account ht
    exact ⟨t', ht', hm'.trans hm, ho'.trans ho, hd' hd⟩
  nodup := hC.nodup

/-- Custody is about the header and the component mints of the record only. -/
theorem of_record {idx' : Index} (hC : Custody ch m w idx) (ht : idx'.tag = idx.tag)
    (hv : idx'.version = idx.version) (hm : idx'.indexMint = idx.indexMint)
    (hc : idx'.components.map Component.mint = idx.components.map Component.mint) :
    Custody ch m w idx' where
  inUse := hC.inUse
  header := by rw [ht, hv]; exact hC.header
  indexMint := hm.trans hC.indexMint
  mint := hC.mint
  vaults := by
    intro c hmem
    have : c.mint ∈ idx.components.map Component.mint := hc ▸ List.mem_map_of_mem hmem
    obtain ⟨c₀, hc₀, he⟩ := List.mem_map.mp this
    rw [← he]
    exact hC.vaults c₀ hc₀
  nodup := by rw [hc]; exact hC.nodup

/-- The vault of an entry is in custody. -/
theorem custodied (hC : Custody ch m w idx) {c : Component} (hc : c ∈ idx.components) :
    Custodied ch m w (ch.vaultKey m c.mint) := by
  obtain ⟨t, ht, -, ho, hd⟩ := hC.vaults c hc
  exact ⟨hC.inUse, t, ht, ho, hd⟩

/-- A vault holds tokens of its component. -/
theorem token_mint (hC : Custody ch m w idx) {c : Component} (hc : c ∈ idx.components)
    {t : TokenAccount} (ht : w.token? (ch.vaultKey m c.mint) = some t) : t.mint = c.mint := by
  obtain ⟨t', ht', hm, -⟩ := hC.vaults c hc
  obtain rfl := Option.some.inj (ht.symm.trans ht')
  exact hm

/-- A vault holds no more than there is. -/
theorem vault_le_total (hC : Custody ch m w idx) {c : Component} (hc : c ∈ idx.components) :
    w.vault ch m c ≤ w.total c.mint := by
  obtain ⟨t, ht, hm, -⟩ := hC.vaults c hc
  rw [← hm]
  exact World.amount_le_total ht

/-- What a vault holds of its component is its balance. -/
theorem held_vault (hC : Custody ch m w idx) {c : Component} (hc : c ∈ idx.components) :
    w.held c.mint (ch.vaultKey m c.mint) = w.vault ch m c := by
  obtain ⟨t, ht, hm, -⟩ := hC.vaults c hc
  rw [World.held_of_token? ht, if_pos hm, World.vault, World.amount_of_token? ht]

/-- A vault holds nothing of any other mint. -/
theorem held_vault_of_ne (hC : Custody ch m w idx) {c : Component} (hc : c ∈ idx.components)
    {x : Pubkey} (hx : c.mint ≠ x) : w.held x (ch.vaultKey m c.mint) = 0 := by
  obtain ⟨t, ht, hm, -⟩ := hC.vaults c hc
  rw [World.held_of_token? ht, if_neg (by rw [hm]; exact hx)]

/-- Different components have different vaults. -/
theorem vaultKey_inj (hC : Custody ch m w idx) {c c' : Component} (hc : c ∈ idx.components)
    (hc' : c' ∈ idx.components) (h : ch.vaultKey m c.mint = ch.vaultKey m c'.mint) :
    c.mint = c'.mint := by
  obtain ⟨t, ht, hm, -⟩ := hC.vaults c hc
  rw [← hm]
  exact hC.token_mint hc' (h ▸ ht)

end Custody

/-! ## Reading the vaults -/

/-- The walk succeeds exactly on the vault addresses of the components walked. -/
theorem verifyEach_ok_iff {cs : List Component}
    (hv : ∀ c ∈ cs, ∃ t, w.token? (ch.vaultKey m c.mint) = some t ∧
      t.mint = c.mint ∧ t.owner = ch.indexKey m ∧ t.delegate = none)
    {vaults : List AccountInfo} {bs : List UInt64} (hlen : vaults.length = cs.length) :
    verifyEach ch w (ch.indexKey m) m cs vaults = .ok bs ↔
      vaults.map AccountInfo.key = cs.map (fun c => ch.vaultKey m c.mint) ∧
        bs = cs.map fun c => w.balance (ch.vaultKey m c.mint) := by
  induction cs generalizing vaults bs with
  | nil =>
    obtain rfl := List.length_eq_zero_iff.mp hlen
    simp only [verifyEach, pure_ok_iff, List.map_nil, true_and]
    exact eq_comm
  | cons c cs ih =>
    match vaults, hlen with
    | v :: vaults, hlen =>
      obtain ⟨t, ht, hm, ho, -⟩ := hv c (List.mem_cons_self ..)
      have hlen' : vaults.length = cs.length := by simpa using hlen
      have ih' : ∀ bs, verifyEach ch w (ch.indexKey m) m cs vaults = .ok bs ↔
          vaults.map AccountInfo.key = cs.map (fun c => ch.vaultKey m c.mint) ∧
            bs = cs.map fun c => w.balance (ch.vaultKey m c.mint) :=
        fun bs => ih (fun c hc => hv c (List.mem_cons_of_mem _ hc)) hlen'
      simp only [verifyEach, bind_ok_iff, requireKey, failIf_ok_iff, not_not,
        requireTokenAccount_ok_iff, pure_ok_iff, ih', List.map_cons, List.cons.injEq]
      constructor
      · rintro ⟨-, hk, t', ⟨ht', -⟩, bs', ⟨hks, rfl⟩, rfl⟩
        refine ⟨⟨hk, hks⟩, ?_⟩
        rw [show v.key = ch.vaultKey m c.mint from hk] at ht'
        simp only [World.balance, ht']
      · rintro ⟨⟨hk, hks⟩, rfl⟩
        refine ⟨(), hk, t, ⟨by rw [hk, ht], hm, ho⟩, _, ⟨hks, rfl⟩, ?_⟩
        simp only [World.balance, ht]

/-- In custody, the check of the vaults passes for the right accounts in order and returns
their balances. -/
theorem verifyVaults_ok_iff (hC : Custody ch m w idx) {indexInfo : AccountInfo}
    (hi : indexInfo.key = ch.indexKey m) (hidx : w.index? (ch.indexKey m) = some idx)
    {vaults : List AccountInfo} {bs : List UInt64} :
    verifyVaults ch w indexInfo m vaults = .ok bs ↔
      vaults.map AccountInfo.key = idx.vaultKeys ch m ∧
        bs = idx.components.map fun c => w.balance (ch.vaultKey m c.mint) := by
  simp only [verifyVaults, bind_ok_iff, indexRef_ok_iff, failIf_ok_iff, not_not, hi]
  constructor
  · rintro ⟨i, ⟨hi', -⟩, -, hlen, h⟩
    obtain rfl := Option.some.inj (hidx.symm.trans hi')
    exact (verifyEach_ok_iff hC.vaults hlen).mp h
  · rintro ⟨hk, hb⟩
    have hlen : vaults.length = idx.components.length := by
      simpa [Index.vaultKeys] using congrArg List.length hk
    exact ⟨idx, ⟨hidx, hC.header⟩, (), hlen, (verifyEach_ok_iff hC.vaults hlen).mpr ⟨hk, hb⟩⟩

/-! ## Writing the units back -/

/-- Whole-token units of a vault balance at a supply. -/
def unitsOf (balance supply : Nat) : UInt64 := UInt64.ofNat (balance * unitScale / supply)

/-- Every unit count fits the field it is written to. -/
def UnitsFit (ch : Chain) (m : Pubkey) (w : World) (idx : Index) : Prop :=
  ∀ c ∈ idx.components, w.vault ch m c * unitScale < 2 ^ 64 * w.supply m

/-- The record after `sync_units`. -/
def Index.synced (ch : Chain) (m : Pubkey) (w : World) (idx : Index) : Index :=
  if w.supply m = 0 then idx
  else { idx with
    components := idx.components.map fun c =>
      { c with units := unitsOf (w.vault ch m c) (w.supply m) } }

/-- Units that fit are the floor of the share. -/
theorem toNat_unitsOf {b s : Nat} (hs : s ≠ 0) (h : b * unitScale < 2 ^ 64 * s) :
    (unitsOf b s).toNat = b * unitScale / s := by
  unfold unitsOf
  rw [UInt64.toNat_ofNat']
  exact Nat.mod_eq_of_lt ((Nat.div_lt_iff_lt_mul (Nat.pos_of_ne_zero hs)).mpr h)

/-- The helper returns the floor of the share, or the share does not fit. -/
theorem unitsFromBalance_ok_iff_unitsOf {b s u : UInt64} (hs : s ≠ 0) :
    unitsFromBalance b s = .ok u ↔
      b.toNat * unitScale < 2 ^ 64 * s.toNat ∧ u = unitsOf b.toNat s.toNat := by
  have hs' : s.toNat ≠ 0 := by
    rw [← UInt64.toNat_zero]
    exact fun h => hs (UInt64.toNat_inj.mp h)
  rw [unitsFromBalance_ok_iff]
  constructor
  · rintro ⟨-, hu⟩
    have hlt : b.toNat * unitScale < 2 ^ 64 * s.toNat :=
      (Nat.div_lt_iff_lt_mul (Nat.pos_of_ne_zero hs')).mp (hu ▸ u.toNat_lt)
    refine ⟨hlt, UInt64.toNat_inj.mp ?_⟩
    rw [hu, toNat_unitsOf hs' hlt]
  · rintro ⟨hlt, rfl⟩
    exact ⟨hs', toNat_unitsOf hs' hlt⟩

/-- The loop writes the units of every entry, if they all fit. By induction on the table. -/
theorem syncEach_ok_iff {s : UInt64} (hs : s ≠ 0) {cs cs' : List Component} :
    syncEach s cs (cs.map fun c => w.balance (ch.vaultKey m c.mint)) = .ok cs' ↔
      (∀ c ∈ cs, w.vault ch m c * unitScale < 2 ^ 64 * s.toNat) ∧
        cs' = cs.map fun c => { c with units := unitsOf (w.vault ch m c) s.toNat } := by
  induction cs generalizing cs' with
  | nil =>
    simp only [List.map_nil, syncEach, pure_ok_iff, List.not_mem_nil, IsEmpty.forall_iff,
      implies_true, true_and]
    exact eq_comm
  | cons c cs ih =>
    simp only [List.map_cons, syncEach, bind_ok_iff, unitsFromBalance_ok_iff_unitsOf hs, ih,
      pure_ok_iff, World.toNat_balance, List.forall_mem_cons]
    constructor
    · rintro ⟨_, ⟨hc, rfl⟩, _, ⟨hcs, rfl⟩, rfl⟩
      exact ⟨⟨hc, hcs⟩, rfl⟩
    · rintro ⟨⟨hc, hcs⟩, rfl⟩
      exact ⟨_, ⟨hc, rfl⟩, _, ⟨hcs, rfl⟩, rfl⟩

/-- `sync_units` writes the synced record, if the units fit, and keeps them where nothing is
outstanding. -/
theorem syncUnits_ok_iff (hC : Custody ch m w idx) {indexInfo : AccountInfo}
    (hi : indexInfo.key = ch.indexKey m) (hidx : w.index? (ch.indexKey m) = some idx)
    {mi : Mint} (hmi : w.mint? m = some mi) :
    syncUnits w indexInfo (idx.components.map fun c => w.balance (ch.vaultKey m c.mint))
        mi.supply = .ok w' ↔
      (w.supply m = 0 ∨ UnitsFit ch m w idx) ∧
        w' = w.setIndex (ch.indexKey m) (idx.synced ch m w) := by
  have hS : w.supply m = mi.supply.toNat := World.supply_of_mint? hmi
  unfold syncUnits Index.synced
  split
  next h0 =>
    have hS0 : w.supply m = 0 := by rw [hS, h0, UInt64.toNat_zero]
    rw [if_pos hS0, World.setIndex_self hidx, pure_ok_iff]
    exact ⟨fun h => ⟨.inl hS0, h.symm⟩, fun h => h.2.symm⟩
  next h0 =>
    have hS0 : w.supply m ≠ 0 := by
      rw [hS, ← UInt64.toNat_zero]
      exact fun h => h0 (UInt64.toNat_inj.mp h)
    rw [if_neg hS0]
    simp only [bind_ok_iff, lift_ok_iff, pure_ok_iff, indexRef_ok_iff, hi, hidx, Option.some.injEq,
      UnitsFit, hS]
    constructor
    · rintro ⟨_, ⟨rfl, -⟩, cs', hcs, rfl⟩
      obtain ⟨hfit, rfl⟩ := (syncEach_ok_iff h0).mp hcs
      exact ⟨.inr hfit, rfl⟩
    · rintro ⟨hfit, rfl⟩
      have hfit' := hfit.resolve_left (hS ▸ hS0)
      exact ⟨idx, ⟨rfl, hC.header⟩, _, (syncEach_ok_iff h0).mpr ⟨hfit', rfl⟩, rfl⟩

/-- The last step of every handler that moved tokens, in one equation. -/
theorem resync_ok_iff (hC : Custody ch m w idx) {indexInfo indexMintInfo : AccountInfo}
    (hi : indexInfo.key = ch.indexKey m) (hm : indexMintInfo.key = m)
    (hidx : w.index? (ch.indexKey m) = some idx) {vaults : List AccountInfo} :
    resync ch w indexInfo indexMintInfo vaults = .ok w' ↔
      vaults.map AccountInfo.key = idx.vaultKeys ch m ∧
        (w.supply m = 0 ∨ UnitsFit ch m w idx) ∧
        w' = w.setIndex (ch.indexKey m) (idx.synced ch m w) := by
  obtain ⟨mi, hmi, -⟩ := hC.mint
  simp only [resync, bind_ok_iff, hm, verifyVaults_ok_iff hC hi hidx, readMint_ok_iff]
  constructor
  · rintro ⟨_, ⟨hk, rfl⟩, mi', hmi', h⟩
    obtain rfl := Option.some.inj (hmi.symm.trans hmi')
    exact ⟨hk, (syncUnits_ok_iff hC hi hidx hmi).mp h⟩
  · rintro ⟨hk, h⟩
    exact ⟨_, ⟨hk, rfl⟩, mi, hmi, (syncUnits_ok_iff hC hi hidx hmi).mpr h⟩

/-! ## Writing a record moves no tokens -/

section SetIndex

variable {k : Pubkey} {i : Index} (h : w.index? k = some i) (i' : Index)
include h

/-- Writing a record changes no balance. -/
theorem World.amount_setIndex : (w.setIndex k i').amount = w.amount := by
  have ha := World.accounts_of_index? h
  exact World.amount_congr (World.token?_set_of_not (by simp) (by simp [ha]))

/-- Writing a record changes no supply. -/
theorem World.supply_setIndex : (w.setIndex k i').supply = w.supply := by
  have ha := World.accounts_of_index? h
  exact World.supply_congr (World.mint?_set_of_not (by simp) (by simp [ha]))

/-- Writing a record changes no vault. -/
theorem World.vault_setIndex (c : Component) :
    (w.setIndex k i').vault ch m c = w.vault ch m c := by
  rw [World.vault, World.amount_setIndex h, World.vault]

/-- A sync looks at vaults and supply, not at the record that is there. -/
theorem Index.synced_setIndex : idx.synced ch m (w.setIndex k i') = idx.synced ch m w := by
  simp only [Index.synced, World.supply_setIndex h, World.vault_setIndex h]

/-- Whether units fit is a matter of vaults and supply. -/
theorem unitsFit_setIndex : UnitsFit ch m (w.setIndex k i') idx ↔ UnitsFit ch m w idx := by
  simp only [UnitsFit, World.supply_setIndex h, World.vault_setIndex h]

end SetIndex

/-! ## What a sync leaves alone -/

section Synced

variable (ch m w idx)

/-- A sync writes units and nothing else. -/
theorem Index.synced_eq :
    idx.synced ch m w = { idx with components := (idx.synced ch m w).components } := by
  unfold Index.synced
  split <;> rfl

/-- A property of a component that does not read its units. -/
theorem Index.synced_map {α : Type} (f : Component → α)
    (hf : ∀ c u, f { c with units := u } = f c) :
    (idx.synced ch m w).components.map f = idx.components.map f := by
  unfold Index.synced
  split
  · rfl
  · rw [List.map_map]
    exact List.map_congr_left fun c _ => hf c _

/-- A sync keeps the vaults. -/
theorem Index.synced_vaultKeys : (idx.synced ch m w).vaultKeys ch m = idx.vaultKeys ch m :=
  Index.synced_map ch m w idx _ fun _ _ => rfl

/-- A sync keeps the number of entries. -/
theorem Index.synced_length : (idx.synced ch m w).components.length = idx.components.length := by
  have := congrArg List.length (Index.synced_map ch m w idx Component.mint fun _ _ => rfl)
  simpa using this

end Synced

/-- A sync leaves custody as it is. -/
theorem Custody.synced (hC : Custody ch m w idx) (w' : World) :
    Custody ch m w (idx.synced ch m w') := by
  have h := Index.synced_eq ch m w' idx
  exact hC.of_record (by rw [h]) (by rw [h]) (by rw [h])
    (Index.synced_map ch m w' idx _ fun _ _ => rfl)

end Flock
