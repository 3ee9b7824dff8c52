import Flock.Vaults

/-!
# The delivery and the payout loops

`issue` collects from the caller and `redeem` pays out, one component at a
time. Both loops read the record again in every round, and no round changes it,
so the whole loop is one leg in which the vault of each component moves by the
amount its stored units give. The induction is on the components still to be
settled.

A transfer of a component touches only accounts of that component's mint, and
the mints in the table are all different: that is why the rounds do not
interfere, whatever accounts the caller named.
-/

namespace Flock

open Outcome MachineInt

variable {ch : Chain} {m : Pubkey} {w w' : World} {idx : Index}

/-- What `issue` asks for one component: `units_in`. -/
def Component.required (c : Component) (gross : UInt64) : Nat :=
  (c.units.toNat * gross.toNat) ⌈/⌉ unitScale

/-- What `redeem` pays of one component: `units_out`. -/
def Component.payout (c : Component) (net : UInt64) : Nat :=
  c.units.toNat * net.toNat / unitScale

theorem componentAt_ok_iff {info : AccountInfo} {i : Nat} {c : Component}
    (hidx : w.index? info.key = some idx) :
    componentAt w info i = .ok c ↔
      (idx.tag = accountTagIndex ∧ idx.version = stateVersion) ∧ idx.components[i]? = some c := by
  simp only [componentAt, bind_ok_iff, indexRef_ok_iff, Index.component_ok_iff, hidx,
    Option.some.injEq]
  constructor
  · rintro ⟨_, ⟨rfl, h⟩, hc⟩
    exact ⟨h, hc⟩
  · rintro ⟨h, hc⟩
    exact ⟨idx, ⟨rfl, h⟩, hc⟩

/-- The head of the table from position `i` on is component `i`. -/
theorem drop_eq_cons {α : Type} {xs ys : List α} {x : α} {i : Nat}
    (h : xs.drop i = x :: ys) : xs[i]? = some x ∧ xs.drop (i + 1) = ys := by
  constructor
  · rw [← List.head?_drop, h, List.head?_cons]
  · rw [← List.tail_drop, h, List.tail_cons]

theorem Custody.mint_of_drop (hC : Custody ch m w idx) {i : Nat} {c : Component}
    {cs : List Component} (hdrop : idx.components.drop i = c :: cs) :
    c.mint ∉ cs.map Component.mint := by
  have hn := hC.nodup.sublist ((List.drop_sublist i idx.components).map Component.mint)
  rw [hdrop, List.map_cons, List.nodup_cons] at hn
  exact hn.1

/-- The rest of the table, where a loop over it stands: components of the table, and of
other mints than the one at hand. -/
theorem Custody.of_drop (hC : Custody ch m w idx) {i : Nat} {c : Component} {cs : List Component}
    (hdrop : idx.components.drop i = c :: cs) :
    c ∈ idx.components ∧ (∀ c' ∈ cs, c' ∈ idx.components) ∧ ∀ c' ∈ cs, c'.mint ≠ c.mint := by
  have hmem : ∀ c' ∈ c :: cs, c' ∈ idx.components := by
    intro c' hc'
    rw [← hdrop] at hc'
    exact List.mem_of_mem_drop hc'
  refine ⟨hmem c List.mem_cons_self, fun c' hc' => hmem c' (List.mem_cons_of_mem c hc'), ?_⟩
  intro c' hc' he
  exact hC.mint_of_drop hdrop (he ▸ List.mem_map_of_mem hc')

/-- A transfer between accounts of one mint leaves accounts of other mints alone. -/
theorem single_sub_single_off {s d k : Pubkey} {ts td t : TokenAccount} {x : ℤ}
    (hs : w.token? s = some ts) (hd : w.token? d = some td) (hk : w.token? k = some t)
    (hts : t.mint ≠ ts.mint) (htd : t.mint ≠ td.mint) :
    (Pi.single d x - Pi.single s x : Pubkey → ℤ) k = 0 := by
  have hkd : k ≠ d := by
    rintro rfl
    exact htd (congrArg TokenAccount.mint (Option.some.inj (hk.symm.trans hd)))
  have hks : k ≠ s := by
    rintro rfl
    exact hts (congrArg TokenAccount.mint (Option.some.inj (hk.symm.trans hs)))
  rw [Pi.sub_apply, Pi.single_eq_of_ne hkd, Pi.single_eq_of_ne hks, sub_zero]

/-- What a later step does not move is named before the step in front of it. -/
theorem off_before {dS : ℤ} {d dA : Pubkey → ℤ} {ms : List Pubkey} (hleg : Leg ch m w w₁ dS d)
    (hoff : ∀ {k t}, w₁.token? k = some t → t.mint ∉ ms → dA k = 0) {k : Pubkey}
    {t : TokenAccount} (hk : w.token? k = some t) (hkm : t.mint ∉ ms) : dA k = 0 := by
  obtain ⟨t', hk', hkm', -⟩ := hleg.flow.account hk
  exact hoff hk' (hkm' ▸ hkm)

theorem issueLoop_leg {user indexInfo : AccountInfo} {gross : UInt64}
    (hu : ch.Outsider user.key) (hi : indexInfo.key = ch.indexKey m) {cs : List Component}
    {i : Nat} {maxIns : List UInt64} {ps : List (AccountInfo × AccountInfo)}
    (hC : Custody ch m w idx) (hidx : w.index? (ch.indexKey m) = some idx)
    (hdrop : idx.components.drop i = cs)
    (hps : ps.map (fun p => p.1.key) = cs.map fun c => ch.vaultKey m c.mint)
    (hlen : maxIns.length = cs.length)
    (h : issueLoop ch user indexInfo gross w i maxIns ps = .ok w') :
    ∃ dA, Leg ch m w w' 0 dA ∧ w'.index? = w.index? ∧ w'.mint? = w.mint? ∧
      (∀ {k t}, w.token? k = some t → t.mint ∉ cs.map Component.mint → dA k = 0) ∧
      (∀ c ∈ cs, dA (ch.vaultKey m c.mint) = c.required gross) ∧
      (∀ x ∈ cs.zip maxIns, x.1.required gross ≤ x.2.toNat) := by
  induction cs generalizing w i maxIns ps with
  | nil =>
    obtain rfl := List.length_eq_zero_iff.mp hlen
    obtain rfl := List.map_eq_nil_iff.mp hps
    obtain rfl := Except.ok.inj h
    exact ⟨0, Leg.refl ch m w, rfl, rfl, fun _ _ => rfl, by simp, by simp⟩
  | cons c cs ih =>
    match maxIns, ps, hlen, hps with
    | maxIn :: maxIns, (v, src) :: ps, hlen, hps =>
      obtain ⟨hci, hdrop'⟩ := drop_eq_cons hdrop
      obtain ⟨hv, hps'⟩ := List.cons.inj hps
      obtain ⟨hc, hmem, hnodup⟩ := hC.of_drop hdrop
      simp only [issueLoop, bind_ok_iff, componentAt_ok_iff (hi ▸ hidx), lift_ok_iff,
        unitsIn_ok_iff, failIf_ok_iff, requireTokenAccountOfMint_ok_iff] at h
      obtain ⟨_, ⟨-, hci'⟩, req, hreq, -, hmax, ts, ⟨hts, htsm⟩, w₁, htr, h⟩ := h
      obtain rfl := Option.some.inj (hci.symm.trans hci')
      obtain ⟨hleg, hrec, hmnt, hfree⟩ := transferFromUser_leg (m := m) htr hu
      rw [show v.key = ch.vaultKey m c.mint from hv] at hleg
      obtain ⟨dA, hleg', hrec', hmnt', hoff, hat, hslip⟩ := ih (hC.of_flow hleg.flow)
        (by rw [hrec, hidx]) hdrop' hps' (by simpa using hlen) h
      obtain ⟨tv, htv, htvm, -⟩ := hC.vaults c hc
      have hfresh := hC.mint_of_drop hdrop
      refine ⟨_, hleg.trans hleg', hrec'.trans hrec, hmnt'.trans hmnt, ?_, ?_, ?_⟩
      · intro k t hk hkm
        rw [List.map_cons, List.mem_cons, not_or] at hkm
        rw [Pi.add_apply, off_before hleg hoff hk hkm.2, add_zero]
        exact single_sub_single_off hts htv hk (htsm ▸ hkm.1) (htvm ▸ hkm.1)
      · rintro c' (_ | ⟨_, hc'⟩)
        · have hzero := off_before hleg hoff htv (htvm ▸ hfresh)
          have hreqc : req.toNat = c.required gross := hreq
          rw [Pi.add_apply, hzero, add_zero, Pi.sub_apply, Pi.single_eq_same, hreqc]
          by_cases hsv : ch.vaultKey m c.mint = src.key
          · have h0 := hfree m (hsv ▸ hC.custodied hc)
            rw [hreqc] at h0
            rw [h0, hsv]
            simp
          · rw [Pi.single_eq_of_ne hsv, sub_zero]
        · obtain ⟨t', ht', htm', -⟩ := hC.vaults c' (hmem c' hc')
          rw [Pi.add_apply, hat c' hc', single_sub_single_off hts htv ht'
            (by rw [htm', htsm]; exact hnodup c' hc') (by rw [htm', htvm]; exact hnodup c' hc'),
            zero_add]
      · rintro x hx
        rw [List.zip_cons_cons, List.mem_cons] at hx
        rcases hx with rfl | hx
        · have := mt UInt64.lt_iff_toNat_lt.mpr hmax
          have hreqc : req.toNat = c.required gross := hreq
          simp only
          omega
        · exact hslip x hx

/-- The payout of one component goes to the account named for it. A caller may
name the vault itself, and then nothing moves. -/
def paidOut (ch : Chain) (m : Pubkey) (net : UInt64) (c : Component) (recipient : AccountInfo) :
    Nat :=
  if recipient.key = ch.vaultKey m c.mint then 0 else c.payout net

theorem redeemLoop_leg {indexInfo : AccountInfo} {net : UInt64}
    (hi : indexInfo.key = ch.indexKey m) {cs : List Component}
    {i : Nat} {minOuts : List UInt64} {ps : List (AccountInfo × AccountInfo)}
    (hC : Custody ch m w idx) (hidx : w.index? (ch.indexKey m) = some idx)
    (hdrop : idx.components.drop i = cs)
    (hps : ps.map (fun p => p.1.key) = cs.map fun c => ch.vaultKey m c.mint)
    (hlen : minOuts.length = cs.length)
    (h : redeemLoop ch indexInfo net w i minOuts ps = .ok w') :
    ∃ dA, Leg ch m w w' 0 dA ∧ w'.index? = w.index? ∧ w'.mint? = w.mint? ∧
      (∀ {k t}, w.token? k = some t → t.mint ∉ cs.map Component.mint → dA k = 0) ∧
      (∀ x ∈ cs.zip ps, dA (ch.vaultKey m x.1.mint) = -(paidOut ch m net x.1 x.2.2 : ℤ)) := by
  induction cs generalizing w i minOuts ps with
  | nil =>
    obtain rfl := List.length_eq_zero_iff.mp hlen
    obtain rfl := List.map_eq_nil_iff.mp hps
    obtain rfl := Except.ok.inj h
    exact ⟨0, Leg.refl ch m w, rfl, rfl, fun _ _ => rfl, by simp⟩
  | cons c cs ih =>
    match minOuts, ps, hlen, hps with
    | minOut :: minOuts, (v, r) :: ps, hlen, hps =>
      obtain ⟨hci, hdrop'⟩ := drop_eq_cons hdrop
      obtain ⟨hv, hps'⟩ := List.cons.inj hps
      obtain ⟨hc, hmem, hnodup⟩ := hC.of_drop hdrop
      simp only [redeemLoop, bind_ok_iff, componentAt_ok_iff (hi ▸ hidx), lift_ok_iff,
        unitsOut_ok_iff, failIf_ok_iff, requireTokenAccountOfMint_ok_iff] at h
      obtain ⟨_, ⟨-, hci'⟩, pay, hpay, -, -, tr, ⟨htr, htrm⟩, w₁, htx, h⟩ := h
      obtain rfl := Option.some.inj (hci.symm.trans hci')
      obtain ⟨hleg, hrec, hmnt⟩ := transferFromVault_leg htx hC.inUse hi
      rw [show v.key = ch.vaultKey m c.mint from hv] at hleg
      obtain ⟨dA, hleg', hrec', hmnt', hoff, hat⟩ := ih (hC.of_flow hleg.flow)
        (by rw [hrec, hidx]) hdrop' hps' (by simpa using hlen) h
      obtain ⟨tv, htv, htvm, -⟩ := hC.vaults c hc
      have hfresh := hC.mint_of_drop hdrop
      refine ⟨_, hleg.trans hleg', hrec'.trans hrec, hmnt'.trans hmnt, ?_, ?_⟩
      · intro k t hk hkm
        rw [List.map_cons, List.mem_cons, not_or] at hkm
        rw [Pi.add_apply, off_before hleg hoff hk hkm.2, add_zero]
        exact single_sub_single_off htv htr hk (htvm ▸ hkm.1) (htrm ▸ hkm.1)
      · rintro x hx
        rw [List.zip_cons_cons, List.mem_cons] at hx
        rcases hx with rfl | hx
        · have hzero := off_before hleg hoff htv (htvm ▸ hfresh)
          have hpayc : pay.toNat = c.payout net := hpay
          rw [Pi.add_apply, hzero, add_zero, Pi.sub_apply, Pi.single_eq_same, hpayc]
          unfold paidOut
          by_cases hrv : r.key = ch.vaultKey m c.mint
          · rw [if_pos hrv, hrv, Pi.single_eq_same]
            simp
          · rw [if_neg hrv, Pi.single_eq_of_ne (Ne.symm hrv), zero_sub]
        · have hc' := (List.of_mem_zip hx).1
          obtain ⟨t', ht', htm', -⟩ := hC.vaults x.1 (hmem x.1 hc')
          rw [Pi.add_apply, hat x hx, single_sub_single_off htv htr ht'
            (by rw [htm', htvm]; exact hnodup _ hc') (by rw [htm', htrm]; exact hnodup _ hc'),
            zero_add]

end Flock
