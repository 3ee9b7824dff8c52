import Flock.Backing
import Flock.Lib.Pool

/-!
# Every component is a pool

Seen from one component, an index is a pool: the supply is the shares, the vault
the assets, the stored units the quote. `issue` and `redeem` are moves of that
pool at the refreshed quote, whatever accounts the caller named and whatever
the fee is, and the refreshed quote is the pool's own.
-/

namespace Flock

open Outcome MachineInt

variable {ch : Chain} {m : Pubkey} {w w₁ w' : World} {idx : Index}

def FlockInstruction.isTrade : FlockInstruction → Bool
  | .issue .. | .redeem .. => true
  | _ => false

def World.pool (w : World) (ch : Chain) (m : Pubkey) (c : Component) : Pool.State :=
  { shares := w.supply m, assets := w.vault ch m c }

theorem World.pool_congr {c c' : Component} (h : c.mint = c'.mint) :
    w.pool ch m c = w.pool ch m c' := by
  rw [World.pool, World.pool, World.vault_congr h]

theorem unitScale_pos : 0 < unitScale := by decide

/-- The units a sync writes are the quote of the pool. -/
theorem synced_units (hS : w.supply m ≠ 0) (hfit : UnitsFit ch m w idx) {c : Component}
    (hc : c ∈ (idx.synced ch m w).components) :
    c.units.toNat = Pool.rate unitScale (w.pool ch m c) := by
  have hwrite : ∀ (c : Component) (u : UInt64),
      u.toNat = Pool.rate unitScale (w.pool ch m c) →
      ({ c with units := u } : Component).units.toNat
        = Pool.rate unitScale (w.pool ch m { c with units := u }) := by
    intro c u hu
    rw [World.pool_congr (show ({ c with units := u } : Component).mint = c.mint from rfl)]
    exact hu
  rw [Index.synced, if_neg hS] at hc
  obtain ⟨c₀, hc₀, rfl⟩ := List.mem_map.mp hc
  exact hwrite c₀ _ (toNat_unitsOf hS (hfit c₀ hc₀))

/-- A component of the table is in the refreshed table with its pool's quote. -/
theorem exists_refreshed (now : Int64) (hS : w₁.supply m ≠ 0) (hfit : UnitsFit ch m w₁ idx)
    {c : Component} (hc : c ∈ idx.components) :
    ∃ c₁ ∈ (idx.refreshed ch m w₁ now).components, c₁.mint = c.mint ∧
      c₁.units.toNat = Pool.rate unitScale (w₁.pool ch m c₁) := by
  obtain ⟨c₁, hc₁, he⟩ := Index.exists_refreshed ch m w₁ now hc
  have hfit' : UnitsFit ch m w₁ (idx.accrued now) := hfit
  exact ⟨c₁, hc₁, he, synced_units hS hfit' hc₁⟩

theorem Accrual.vault_le {feeAta : Pubkey} {owed : UInt64}
    (h : Accrual ch m idx w w₁ feeAta owed) (c : Component) :
    w.vault ch m c ≤ w₁.vault ch m c := by
  have hA := h.leg.flow.amount (ch.vaultKey m c.mint)
  have hf := single_nonneg feeAta (ch.vaultKey m c.mint) owed.toNat
  unfold World.vault
  omega

/-- The streaming fee moves no vault of another mint. -/
theorem Accrual.vault_eq {feeAta : Pubkey} {owed : UInt64}
    (h : Accrual ch m idx w w₁ feeAta owed) (hC : Custody ch m w idx) {c : Component}
    (hc : c ∈ idx.components) (hne : c.mint ≠ m) : w₁.vault ch m c = w.vault ch m c := by
  obtain ⟨t, ht, htm, -⟩ := hC.vaults c hc
  have hA := h.leg.flow.amount (ch.vaultKey m c.mint)
  rw [h.off ht (by rw [htm]; exact hne)] at hA
  unfold World.vault
  omega

/-- Nothing is minted and nothing moves when no fee is owed. -/
theorem Accrual.still {feeAta : Pubkey} {owed : UInt64} (h : Accrual ch m idx w w₁ feeAta owed)
    (h0 : owed = 0) (c : Component) : w₁.pool ch m c = w.pool ch m c := by
  have hS := h.leg.supply
  have hA := h.leg.flow.amount (ch.vaultKey m c.mint)
  rw [h0, UInt64.toNat_zero, Nat.cast_zero] at hS hA
  rw [Pi.single_zero, Pi.zero_apply] at hA
  have hS' : w₁.supply m = w.supply m := by omega
  have hA' : w₁.vault ch m c = w.vault ch m c := by
    unfold World.vault
    omega
  rw [World.pool, World.pool, hS', hA']

theorem Issued.move {amount owed fee gross : UInt64} {maxIn : List UInt64}
    {userIndexAta feeAta : Pubkey}
    (h : Issued ch m idx w w₁ w' amount maxIn userIndexAta feeAta owed fee gross)
    {c : Component} (hc : c ∈ (idx.refreshed ch m w₁ w.clock).components) :
    Pool.Move unitScale c.units.toNat (w₁.pool ch m c) (w'.pool ch m c) := by
  obtain ⟨dA, hl⟩ := h.leg
  have hS := hl.supply
  refine .enter gross.toNat ?_ (h.vault_ge hc)
  simp only [World.pool]
  omega

theorem exists_mem_zip {α β : Type} {l : List α} {l' : List β} {a : α}
    (hlen : l'.length = l.length) (ha : a ∈ l) : ∃ b, (a, b) ∈ l.zip l' := by
  obtain ⟨i, hi, rfl⟩ := List.getElem_of_mem ha
  refine ⟨l'[i], List.mem_iff_getElem.mpr ⟨i, ?_, List.getElem_zip⟩⟩
  rw [List.length_zip]
  omega

/-- Every component has an account to be paid to. -/
theorem Redeemed.exists_payee {amount owed fee net : UInt64} {user userIndexAta feeAta : Pubkey}
    {payees : List (AccountInfo × AccountInfo)}
    (h : Redeemed ch m idx w w₁ w' amount user userIndexAta feeAta payees owed fee net)
    {c : Component} (hc : c ∈ (idx.refreshed ch m w₁ w.clock).components) :
    ∃ p, (c, p) ∈ (idx.refreshed ch m w₁ w.clock).components.zip payees := by
  have hlen : payees.length = (idx.refreshed ch m w₁ w.clock).components.length := by
    have h₁ := congrArg List.length h.vaults
    have hmints : (idx.refreshed ch m w₁ w.clock).components.map Component.mint
        = idx.components.map Component.mint := Index.refreshed_mints w.clock
    have h₂ := congrArg List.length hmints
    simp only [Index.vaultKeys, List.length_map] at h₁ h₂
    omega
  exact exists_mem_zip hlen hc

theorem paidOut_le (ch : Chain) (m : Pubkey) (net : UInt64) (c : Component) (r : AccountInfo) :
    paidOut ch m net c r ≤ c.payout net := by
  unfold paidOut
  split <;> omega

theorem Redeemed.move {amount owed fee net : UInt64} {user userIndexAta feeAta : Pubkey}
    {payees : List (AccountInfo × AccountInfo)}
    (h : Redeemed ch m idx w w₁ w' amount user userIndexAta feeAta payees owed fee net)
    {c : Component} (hc : c ∈ (idx.refreshed ch m w₁ w.clock).components) :
    Pool.Move unitScale c.units.toNat (w₁.pool ch m c) (w'.pool ch m c) := by
  obtain ⟨dA, hl⟩ := h.leg
  obtain ⟨p, hp⟩ := h.exists_payee hc
  have hS := hl.supply
  refine .leave net.toNat ?_ ?_
  · simp only [World.pool]
    omega
  · exact (h.vault_ge hp).trans (Nat.add_le_add_left (paidOut_le ch m net c p.2) _)

theorem Undisturbed.move (h : Undisturbed ch m w w') (hC : Custody ch m w idx) {c : Component}
    (hc : c ∈ idx.components) (u : ℕ) :
    Pool.Move unitScale u (w.pool ch m c) (w'.pool ch m c) :=
  .gift (h.supply_le hC) (h.vault_le hC hc)

end Flock
