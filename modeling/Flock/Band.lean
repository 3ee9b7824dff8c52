import Flock.Convergence
import Flock.Lib.Trace

/-!
# Fills stay inside the published band

The caps and the excess a fill is measured against are computed from the plan of
the auction, which no fill changes, and from the supply, which no fill changes
either. So the band is the same for all fills of an auction (`Filling.inBand`), and
what a run of fills sells of a component below its target is what it brought in.
-/

namespace Flock

open Outcome MachineInt Trace

variable {ch : Chain} {m : Pubkey} {w w' : World} {ws : List World} {idx : Index}

/-- The run lemma: every step of the run is within the band, and at one supply. -/
theorem isChain_inBand {S : Nat} (hrun : (w :: ws).IsChain (Filling ch m)) (hm : ch.inUse m)
    (hon : OnPlan ch m idx S w) :
    (w :: ws).IsChain (InBand ch m idx) ∧ ∀ w' ∈ w :: ws, OnPlan ch m idx S w' := by
  induction ws generalizing w with
  | nil =>
    refine ⟨.singleton w, ?_⟩
    intro w' hw'
    rw [List.mem_singleton.mp hw']
    exact hon
  | cons w₁ ws ih =>
    obtain ⟨hstep, hrest⟩ := List.isChain_cons_cons.mp hrun
    obtain ⟨hon₁, hband⟩ := hstep.inBand hm hon
    obtain ⟨hbands, hons⟩ := ih hrest hon₁
    refine ⟨List.isChain_cons_cons.mpr ⟨hband, hbands⟩, ?_⟩
    intro w' hw'
    rcases List.mem_cons.mp hw' with rfl | hw'
    · exact hon
    · exact hons w' hw'

/-- From the start to any world of a run that is within the band step by step. -/
theorem inBand_of_isChain {S : Nat} (hbands : (w :: ws).IsChain (InBand ch m idx))
    (hons : ∀ w' ∈ w :: ws, OnPlan ch m idx S w') : ∀ w' ∈ ws, InBand ch m idx w w' := by
  induction ws generalizing w with
  | nil =>
    intro w' hw'
    cases hw'
  | cons w₁ ws ih =>
    obtain ⟨hstep, hrest⟩ := List.isChain_cons_cons.mp hbands
    intro w' hw'
    rcases List.mem_cons.mp hw' with rfl | hw'
    · exact hstep
    have hlater := ih hrest (fun v hv => hons v (List.mem_cons_of_mem _ hv)) w' hw'
    have hS : w₁.supply m = w.supply m := by
      rw [(hons w (by simp)).supply, (hons w₁ (by simp)).supply]
    exact hstep.trans hlater rfl hS

/-- The balances of a component along a run. -/
def vaultTrace (ch : Chain) (m : Pubkey) (c : Component) (ws : List World) : List Nat :=
  ws.map fun w => w.vault ch m c

theorem lowered_vaultTrace {S : Nat} (hbands : (w :: ws).IsChain (InBand ch m idx))
    (hons : ∀ w' ∈ w :: ws, OnPlan ch m idx S w') {c : Component} (hc : c ∈ idx.components) :
    lowered (vaultTrace ch m c (w :: ws)) = 0 ∨
      c.target S + lowered (vaultTrace ch m c (w :: ws))
        ≤ w.vault ch m c + raised (vaultTrace ch m c (w :: ws)) := by
  refine lowered_le_of_isChain (l := vaultTrace ch m c ws) ?_
  show ((w :: ws).map fun w => w.vault ch m c).IsChain _
  rw [List.isChain_map]
  refine hbands.imp_of_mem_imp ?_
  intro v v' hv _ hband hfall
  have hlow := (hband c hc).1
  rw [(hons v hv).supply] at hlow
  omega

/-- A component that is sold has what is sold above its target. -/
theorem OnPlan.excess {S : Nat} (hon : OnPlan ch m idx S w) (hm : ch.inUse m)
    {accounts : List AccountInfo} {s b : UInt8} {sellAmount maxBuyAmount : UInt64}
    (signable : Signable ch accounts)
    (done : process ch w accounts (.bid s b sellAmount maxBuyAmount) = .ok w')
    (concerns : Concerns m accounts (.bid s b sellAmount maxBuyAmount)) {c : Component}
    (hc : idx.components[s.toNat]? = some c) : c.target S + sellAmount.toNat ≤ w.vault ch m c := by
  obtain ⟨hW, ⟨idx', hidx', hplan⟩, hS⟩ := hon
  rcases hW.call_cases hm signable done with heff | ⟨hne, -⟩
  swap
  · exact absurd concerns hne
  cases heff with
  | bid key before filled =>
    obtain rfl := Option.some.inj (hidx'.symm.trans before)
    have hexcess := filled.sized.excess
    -- the record the bid was sized by has the component under the same plan
    have hat : (idx'.plan.1)[s.toNat]? = (idx.plan.1)[s.toNat]? := by rw [hplan]
    simp only [Index.plan, List.getElem?_map, filled.sell_at, hc, Option.map_some,
      Option.some.injEq, Prod.mk.injEq] at hat
    obtain ⟨hmint, htarget⟩ := hat
    rw [hS, Component.target, htarget, World.vault_congr hmint] at hexcess
    exact hexcess

/-- From every reachable world, in every run of fills each balance stays between
its target and its cap, or where it was if that is outside. What is sold of a
component that starts at or below its target is what fills brought in above it:
so for all that the run took out of it, and for whatever a further fill sells. -/
theorem fills_stay_in_band (h : Reachable ch w) {k : Pubkey} (hidx : w.index? k = some idx)
    (hrun : (w :: ws).IsChain (Filling ch idx.indexMint)) :
    (∀ w' ∈ ws, ∀ c ∈ idx.components,
      min (w.vault ch idx.indexMint c) (c.target (w.supply idx.indexMint))
        ≤ w'.vault ch idx.indexMint c ∧
      w'.vault ch idx.indexMint c ≤ max (w.vault ch idx.indexMint c)
        (c.cap (w.supply idx.indexMint) idx.maxPremiumBps)) ∧
    ∀ c ∈ idx.components, w.vault ch idx.indexMint c ≤ c.target (w.supply idx.indexMint) →
      lowered (vaultTrace ch idx.indexMint c (w :: ws))
        ≤ raised (vaultTrace ch idx.indexMint c (w :: ws))
          - (c.target (w.supply idx.indexMint) - w.vault ch idx.indexMint c) ∧
      ∀ {accounts : List AccountInfo} {s b : UInt8} {sellAmount maxBuyAmount : UInt64} {w' : World},
        Signable ch accounts →
        process ch ((w :: ws).getLast (List.cons_ne_nil w ws)) accounts
          (.bid s b sellAmount maxBuyAmount) = .ok w' →
        Concerns idx.indexMint accounts (.bid s b sellAmount maxBuyAmount) →
        idx.components[s.toNat]? = some c →
        lowered (vaultTrace ch idx.indexMint c (w :: ws)) + sellAmount.toNat
          ≤ raised (vaultTrace ch idx.indexMint c (w :: ws))
            - (c.target (w.supply idx.indexMint) - w.vault ch idx.indexMint c) := by
  have hW : AllWf ch w := (reachable_wf h).1
  obtain ⟨rfl, hwf⟩ := hW hidx
  have hm := hwf.custody.inUse
  have hon : OnPlan ch idx.indexMint idx (w.supply idx.indexMint) w := ⟨hW, ⟨idx, hidx, rfl⟩, rfl⟩
  obtain ⟨hbands, hons⟩ := isChain_inBand hrun hm hon
  refine ⟨inBand_of_isChain hbands hons, ?_⟩
  intro c hc hbelow
  have hlow := lowered_vaultTrace hbands hons hc
  refine ⟨by omega, ?_⟩
  intro accounts s b sellAmount maxBuyAmount w' signable done concerns hat
  have hexcess := (hons _ (List.getLast_mem _)).excess hm signable done concerns hat
  have hbooks := getLast_add_lowered (fun w => w.vault ch idx.indexMint c) w ws
  rw [← vaultTrace] at hbooks
  omega

/-- A bid takes component 2 above its target, and a minute later another sells most of what
it brought. -/
theorem fills_stay_in_band_local : ∃ (w w₁ w₂ w₃ : World) (idx : Index) (buy : Component),
    Reachable localnet w ∧ w.index? localIndex = some idx ∧ buy ∈ idx.components ∧
    [w, w₁, w₂, w₃].IsChain (Filling localnet idx.indexMint) ∧
    w.vault localnet idx.indexMint buy < w₃.vault localnet idx.indexMint buy ∧
    w₃.vault localnet idx.indexMint buy < w₁.vault localnet idx.indexMint buy ∧
    w₃.vault localnet idx.indexMint buy ≤ max (w.vault localnet idx.indexMint buy)
      (buy.cap (w.supply idx.indexMint) idx.maxPremiumBps) ∧
    lowered (vaultTrace localnet idx.indexMint buy [w, w₁, w₂, w₃])
      ≤ raised (vaultTrace localnet idx.indexMint buy [w, w₁, w₂, w₃])
        - (buy.target (w.supply idx.indexMint) - w.vault localnet idx.indexMint buy) := by
  obtain ⟨w, idx, hreach, hidx, hp⟩ := exists_of_run (openAuction 2000000)
    (afterBid 3000000 fun w idx w₁ _ buy =>
      decide (w.vault localnet (addr 1) buy ≤ buy.target (w.supply (addr 1))) &&
      thenBack 80000 (fun w₃ =>
        decide (w.vault localnet (addr 1) buy < w₃.vault localnet (addr 1) buy ∧
          w₃.vault localnet (addr 1) buy < w₁.vault localnet (addr 1) buy)) w₁)
    (by decide +kernel)
  obtain ⟨hm, sell, buy, w₁, hcs, -, hdone, hp⟩ := afterBid_iff.mp hp
  simp only [Bool.and_eq_true, decide_eq_true_eq] at hp
  obtain ⟨hbelow, hback⟩ := hp
  obtain ⟨w₂, w₃, hchain, hp⟩ := thenBack_iff hback
  obtain ⟨hgrow, hfell⟩ := of_decide_eq_true hp
  rw [← hm] at hgrow hbelow hfell hchain
  have hrun : [w, w₁, w₂, w₃].IsChain (Filling localnet idx.indexMint) :=
    List.isChain_cons_cons.mpr ⟨.fill (.bid bid_signable hdone (congrArg some hm.symm)), hchain⟩
  have hmem : buy ∈ idx.components := by rw [hcs]; simp
  obtain ⟨hband, hsold⟩ := fills_stay_in_band hreach hidx hrun
  exact ⟨w, w₁, w₂, w₃, idx, buy, hreach, hidx, hmem, hrun, hgrow, hfell,
    (hband w₃ (by simp) buy hmem).2, (hsold buy hmem hbelow).1⟩

end Flock
