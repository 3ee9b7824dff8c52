import Flock.Localnet

/-!
# Backing

`components[i].units` is a promise: so much of the component stands behind one
whole index token. Every handler that raises the supply or lowers a vault ends
with a sync, a sync writes the floor of what the vaults hold, and at zero supply
there is nobody the stale units are promised to.
-/

namespace Flock

/-- In every reachable world and for every component of every index, the vault
holds what the stored units promise to the whole supply. -/
theorem reachable_backed {ch : Chain} {w : World} (h : Reachable ch w) {k : Pubkey} {idx : Index}
    (hidx : w.index? k = some idx) {c : Component} (hc : c ∈ idx.components) :
    c.units.toNat * w.supply idx.indexMint ≤ w.vault ch idx.indexMint c * 1000000000 :=
  ((reachable_wf h).1 hidx).2.backed c hc

/-- A fund with supply, a deposit from outside and a year of streaming fees. -/
def backedRun : List Act :=
  openFund ⟨100, 50, 50, 100⟩ 2000000 333333333 ++
    [localIssue 7777777777, .transfer (addr 21) (addr 1002) (addr 40) 12345, .tick 31536000,
     localRedeem 1234567]

theorem reachable_backed_local : ∃ (w : World) (idx : Index) (c : Component),
    w.index? localIndex = some idx ∧ c ∈ idx.components ∧ 0 < c.units.toNat ∧
    0 < w.supply idx.indexMint ∧
    c.units.toNat * w.supply idx.indexMint ≤ w.vault localnet idx.indexMint c * 1000000000 := by
  obtain ⟨w, idx, hreach, hidx, hp⟩ := exists_of_run backedRun
    (fun w idx => decide (0 < w.supply idx.indexMint) &&
      idx.components.any fun c => 0 < c.units.toNat) (by decide +kernel)
  simp only [Bool.and_eq_true, List.any_eq_true, decide_eq_true_eq] at hp
  obtain ⟨hS, c, hc, hu⟩ := hp
  exact ⟨w, idx, c, hidx, hc, hu, hS, reachable_backed hreach hidx hc⟩

end Flock
