import Flock.Sdk
import Flock.Lib.Floors
import Mathlib.Data.List.GetD
import Mathlib.Data.Rat.Floor

/-!
# Weights into units, and holdings into weights

`weightsBps` reads a fund as shares of its value, `unitsForWeights` turns shares
into what the program takes. Every step of either is a quotient of integers that
are not negative, so a truncation is a floor over the rationals, and the two
functions are the two patterns of `Floors`: shares of a whole, and a value taken
through two changes of unit.
-/

namespace Flock.Sdk

open Outcome Floors

/-- A quotient that truncates is a floor, when nothing is negative. -/
theorem mulDivFloor_floor {a b d : Int} (h : 0 ≤ a * b) (hd : 0 < d) :
    mulDivFloor a b d = .ok ⌊(a * b : ℚ) / d⌋ := by
  obtain ⟨n, rfl⟩ := Int.eq_ofNat_of_zero_le hd.le
  have hq : ((a * b : ℚ) / (n : ℤ)) = ((a * b : ℤ) : ℚ) / (n : ℕ) := by
    push_cast
    rfl
  rw [mulDivFloor, if_neg (Int.ne_of_gt hd), Int.tdiv_eq_ediv_of_nonneg h, hq,
    Rat.floor_intCast_div_natCast]

theorem getD_nonneg {l : List Int} (h : ∀ x ∈ l, 0 ≤ x) (i : Nat) : 0 ≤ l.getD i 0 := by
  by_cases hi : i < l.length
  · rw [List.getD_eq_getElem l 0 hi]
    exact h _ (List.getElem_mem hi)
  · rw [List.getD_eq_default l 0 (Nat.le_of_not_lt hi)]

/-! ## Holdings into weights -/

section Displayed

variable {balances pricesE9 : List Int} {decimals : List Nat}

/-- What each balance is worth, rounded down. -/
def flooredValues (balances : List Int) (decimals : List Nat) (pricesE9 : List Int) : List Int :=
  balances.zipIdx.map fun (balance, i) =>
    ⌊(balance * pricesE9.getD i 0 : ℚ) / 10 ^ decimals.getD i 0⌋

theorem flooredValues_nonneg (hb : ∀ b ∈ balances, 0 ≤ b) (hp : ∀ p ∈ pricesE9, 0 ≤ p) :
    ∀ v ∈ flooredValues balances decimals pricesE9, 0 ≤ v := by
  intro v hv
  obtain ⟨⟨balance, i⟩, hmem, rfl⟩ := List.mem_map.mp hv
  have hbalance : (0 : ℚ) ≤ balance := by exact_mod_cast hb balance (List.fst_mem_of_mem_zipIdx hmem)
  have hprice : (0 : ℚ) ≤ pricesE9.getD i 0 := by exact_mod_cast getD_nonneg hp i
  exact Int.floor_nonneg.mpr (by positivity)

/-- What `weightsBps` returns of a fund that is worth something. -/
theorem weightsBps_eq (hb : ∀ b ∈ balances, 0 ≤ b) (hp : ∀ p ∈ pricesE9, 0 ≤ p)
    (hnav : 0 < (flooredValues balances decimals pricesE9).sum) :
    weightsBps balances decimals pricesE9 = .ok
      { navE9 := (flooredValues balances decimals pricesE9).sum
        weights := shares bps (flooredValues balances decimals pricesE9) } := by
  have hvalues : (balances.zipIdx.mapM fun (balance, i) =>
      valueE9 balance (decimals.getD i 0) (pricesE9.getD i 0)) =
        .ok (flooredValues balances decimals pricesE9) := by
    refine mapM_eq_map fun q hq => ?_
    obtain ⟨balance, i⟩ := q
    have hv := Int.mul_nonneg (hb balance (List.fst_mem_of_mem_zipIdx hq)) (getD_nonneg hp i)
    have h := mulDivFloor_floor (d := 10 ^ decimals.getD i 0) hv (by positivity)
    push_cast at h
    exact h
  have hnonneg : ∀ v ∈ flooredValues balances decimals pricesE9, 0 ≤ v :=
    flooredValues_nonneg hb hp
  rw [weightsBps, hvalues, ok_bind, ← List.sum_eq_foldl, if_neg (Int.ne_of_gt hnav)]
  congr 2
  refine List.map_congr_left fun v hv => ?_
  exact Int.tdiv_eq_ediv_of_nonneg (Int.mul_nonneg (hnonneg v hv) (by decide))

/-- Displayed weights account for the whole fund: each is a share of the value
displayed with them, in the order of the values, and together they lack less than
one basis point a component. -/
theorem weights_account_for_the_fund (hb : ∀ b ∈ balances, 0 ≤ b) (hp : ∀ p ∈ pricesE9, 0 ≤ p)
    (hnav : 0 < (flooredValues balances decimals pricesE9).sum) :
    ∃ fund, weightsBps balances decimals pricesE9 = .ok fund ∧
      fund.navE9 = (flooredValues balances decimals pricesE9).sum ∧
      fund.weights.length = balances.length ∧
      (∀ x ∈ fund.weights, 0 ≤ x ∧ x ≤ 10000) ∧
      (∀ (i j : Nat) (v v' x x' : Int), (flooredValues balances decimals pricesE9)[i]? = some v →
        (flooredValues balances decimals pricesE9)[j]? = some v' → fund.weights[i]? = some x →
        fund.weights[j]? = some x' → v ≤ v' → x ≤ x') ∧
      10000 - balances.length < fund.weights.sum ∧ fund.weights.sum ≤ 10000 := by
  have hlen : (flooredValues balances decimals pricesE9).length = balances.length := by
    rw [flooredValues, List.length_map, List.length_zipIdx]
  refine ⟨_, weightsBps_eq hb hp hnav, rfl, ?_, ?_, ?_, ?_, ?_⟩
  · rw [shares, List.length_map, hlen]
  · intro x hx
    exact mem_shares (by decide) hnav (flooredValues_nonneg hb hp) hx
  · intro i j v v' x x' hv hv' hx hx' hle
    simp only [shares, List.getElem?_map, hv, hv', Option.map_some, Option.some.injEq] at hx hx'
    rw [← hx, ← hx']
    exact share_mono (by decide) hnav hle
  · rw [← hlen]
    exact lt_sum_shares hnav
  · exact sum_shares_le hnav

/-- A fund of two components, the second one with 9 decimals. -/
theorem weights_account_for_the_fund_of_two :
    ∃ fund, weightsBps [1000000, 7000000000] [6, 9] [1000000000, 3000000001] = .ok fund ∧
      10000 - 2 < fund.weights.sum ∧ fund.weights.sum ≤ 10000 := by
  have hnav : 0 < (flooredValues [1000000, 7000000000] [6, 9] [1000000000, 3000000001]).sum := by
    decide +kernel
  obtain ⟨fund, hfund, -, -, -, -, hlow, hhigh⟩ :=
    weights_account_for_the_fund (by decide) (by decide) hnav
  exact ⟨fund, hfund, hlow, hhigh⟩

end Displayed

/-! ## Weights into units -/

section Targets

variable {weights pricesE9 : List Int} {decimals : List Nat} {navE9 supply : Int}

/-- What one base unit of component `i` is worth in USD-e9. -/
def unitValue (pricesE9 : List Int) (decimals : List Nat) (i : Nat) : ℚ :=
  pricesE9.getD i 0 / 10 ^ decimals.getD i 0

/-- Whole index tokens outstanding. -/
def wholeTokens (supply : Int) : ℚ := supply / 10 ^ 9

/-- What units amount to at a supply, and what that is worth. -/
def valuesAt (units pricesE9 : List Int) (decimals : List Nat) (supply : Int) :
    Except SdkError (List Int) :=
  units.zipIdx.mapM fun (u, i) => do
    valueE9 (← mulDivFloor u supply unitScale) (decimals.getD i 0) (pricesE9.getD i 0)

theorem unitValue_pos {i : Nat} (h : 0 < pricesE9.getD i 0) : 0 < unitValue pricesE9 decimals i := by
  have : (0 : ℚ) < pricesE9.getD i 0 := by exact_mod_cast h
  exact div_pos this (by positivity)

theorem wholeTokens_pos (hS : 0 < supply) : 0 < wholeTokens supply := by
  have : (0 : ℚ) < supply := by exact_mod_cast hS
  exact div_pos this (by positivity)

/-- A change of unit: from one to the `d / b`-th of it. -/
theorem mulDivFloor_div {a b d : Int} (ha : 0 ≤ a) (hb : 0 < b) (hd : 0 < d) :
    mulDivFloor a b d = .ok ⌊(a : ℚ) / ((d : ℚ) / b)⌋ := by
  rw [mulDivFloor_floor (Int.mul_nonneg ha hb.le) hd, div_div_eq_mul_div]

/-- The change back. -/
theorem mulDivFloor_mul {a b d : Int} (ha : 0 ≤ a) (hb : 0 ≤ b) (hd : 0 < d) :
    mulDivFloor a b d = .ok ⌊(a : ℚ) * ((b : ℚ) / d)⌋ := by
  rw [mulDivFloor_floor (Int.mul_nonneg ha hb) hd, mul_div_assoc]

/-- One weight into units: the value it stands for, in whole base units, in whole
units to the index token. -/
theorem unit_eq {weight : Int} {i : Nat} (hnav : 0 ≤ navE9) (hw : 0 ≤ weight)
    (hp : 0 < pricesE9.getD i 0) (hS : 0 < supply) :
    (do
      let targetValueE9 ← mulDivFloor navE9 weight bps
      let targetAmount ← mulDivFloor targetValueE9 (10 ^ decimals.getD i 0) (pricesE9.getD i 0)
      mulDivFloor targetAmount unitScale supply) =
    .ok (outward (unitValue pricesE9 decimals i) (wholeTokens supply) (navE9 * weight / 10000)) := by
  have hnw : (0 : ℚ) ≤ navE9 * weight / 10000 := by
    have : (0 : ℚ) ≤ navE9 * weight := by exact_mod_cast Int.mul_nonneg hnav hw
    positivity
  have ht : 0 ≤ ⌊(navE9 * weight : ℚ) / 10000⌋ := Int.floor_nonneg.mpr hnw
  have ha : 0 ≤ ⌊(⌊(navE9 * weight : ℚ) / 10000⌋ : ℚ) / unitValue pricesE9 decimals i⌋ :=
    Int.floor_nonneg.mpr (div_nonneg (Int.cast_nonneg ht) (unitValue_pos hp).le)
  have hscale : (0 : Int) < 10 ^ decimals.getD i 0 := by positivity
  rw [mulDivFloor_floor (Int.mul_nonneg hnav hw) (by decide), ok_bind]
  show (mulDivFloor ⌊(navE9 * weight : ℚ) / 10000⌋ _ _ >>= _) = _
  rw [mulDivFloor_div ht hscale hp, ok_bind, Int.cast_pow]
  show mulDivFloor ⌊(⌊(navE9 * weight : ℚ) / 10000⌋ : ℚ) / unitValue pricesE9 decimals i⌋ _ _ = _
  rw [mulDivFloor_div ha (by decide) hS]
  rfl

/-- And back: what those units come to, and what that is worth. -/
theorem value_eq {u : Int} {i : Nat} (hu : 0 ≤ u) (hp : 0 < pricesE9.getD i 0) (hS : 0 < supply) :
    (do valueE9 (← mulDivFloor u supply unitScale) (decimals.getD i 0) (pricesE9.getD i 0)) =
    .ok (inward (unitValue pricesE9 decimals i) (wholeTokens supply) u) := by
  have hb : 0 ≤ ⌊(u : ℚ) * wholeTokens supply⌋ :=
    Int.floor_nonneg.mpr (mul_nonneg (Int.cast_nonneg hu) (wholeTokens_pos hS).le)
  have hscale : (0 : Int) < 10 ^ decimals.getD i 0 := by positivity
  rw [mulDivFloor_mul hu hS.le (by decide), ok_bind]
  show mulDivFloor ⌊(u : ℚ) * wholeTokens supply⌋ _ _ = _
  rw [mulDivFloor_mul hb hp.le hscale, Int.cast_pow]
  rfl

/-- The units of each weight. -/
def unitsOf (weights pricesE9 : List Int) (decimals : List Nat) (navE9 supply : Int) : List Int :=
  weights.zipIdx.map fun q =>
    outward (unitValue pricesE9 decimals q.2) (wholeTokens supply) (navE9 * q.1 / 10000)

/-- What they are worth again. -/
def valuesOf (weights pricesE9 : List Int) (decimals : List Nat) (navE9 supply : Int) : List Int :=
  weights.zipIdx.map fun q =>
    inward (unitValue pricesE9 decimals q.2) (wholeTokens supply)
      (outward (unitValue pricesE9 decimals q.2) (wholeTokens supply) (navE9 * q.1 / 10000))

theorem unitsForWeights_eq (hw : ∀ w ∈ weights, 0 ≤ w)
    (hp : ∀ i < weights.length, 0 < pricesE9.getD i 0) (hnav : 0 ≤ navE9) (hS : 0 < supply) :
    unitsForWeights weights pricesE9 decimals navE9 supply =
      .ok (unitsOf weights pricesE9 decimals navE9 supply) := by
  rw [unitsForWeights, if_neg (Int.ne_of_gt hS)]
  refine mapM_eq_map fun q hq => ?_
  obtain ⟨weight, i⟩ := q
  have hprice := hp i (List.snd_lt_of_mem_zipIdx hq)
  show (if pricesE9.getD i 0 = 0 then _ else _) = _
  rw [if_neg (Int.ne_of_gt hprice)]
  exact unit_eq hnav (hw weight (List.fst_mem_of_mem_zipIdx hq)) hprice hS

theorem valuesAt_eq (hw : ∀ w ∈ weights, 0 ≤ w)
    (hp : ∀ i < weights.length, 0 < pricesE9.getD i 0) (hnav : 0 ≤ navE9) (hS : 0 < supply) :
    valuesAt (unitsOf weights pricesE9 decimals navE9 supply) pricesE9 decimals supply =
      .ok (valuesOf weights pricesE9 decimals navE9 supply) := by
  have hindex : (unitsOf weights pricesE9 decimals navE9 supply).zipIdx =
      weights.zipIdx.map fun q => (outward (unitValue pricesE9 decimals q.2) (wholeTokens supply)
        (navE9 * q.1 / 10000), q.2) := by
    unfold unitsOf
    refine List.ext_getElem? fun i => ?_
    cases h : weights[i]? <;> simp [h]
  rw [valuesAt, hindex]
  refine mapM_map_ok fun q hq => ?_
  obtain ⟨weight, i⟩ := q
  have hprice := hp i (List.snd_lt_of_mem_zipIdx hq)
  have hnw : (0 : ℚ) ≤ navE9 * weight := by
    exact_mod_cast Int.mul_nonneg hnav (hw weight (List.fst_mem_of_mem_zipIdx hq))
  exact value_eq (outward_nonneg (unitValue_pos hprice) (wholeTokens_pos hS) (by positivity))
    hprice hS

/-- What the values of all components come to is within what the weights stand for. -/
theorem sum_valuesOf_le (hp : ∀ i < weights.length, 0 < pricesE9.getD i 0) (hS : 0 < supply) :
    ((valuesOf weights pricesE9 decimals navE9 supply).sum : ℚ) ≤ navE9 * weights.sum / 10000 := by
  have hparts : (weights.zipIdx.map fun q => (navE9 : ℚ) * (q.1 : ℚ) / 10000) =
      weights.map fun w : ℤ => (navE9 : ℚ) * (w : ℚ) / 10000 := by
    nth_rewrite 2 [← List.zipIdx_map_fst 0 weights]
    rw [List.map_map]
    rfl
  rw [← sum_parts, ← hparts]
  refine sum_map_le fun q hq => ?_
  obtain ⟨weight, i⟩ := q
  exact inward_outward_le (unitValue_pos (hp i (List.snd_lt_of_mem_zipIdx hq))) (wholeTokens_pos hS)

/-- Units sized from weights never ask for more than the fund is worth, and each
component gets what its weight stands for but for what the roundings take: less than
2, and 2 base units, and one base unit for each whole index token. -/
theorem units_for_weights_tight (hw : ∀ w ∈ weights, 0 ≤ w) (hsum : weights.sum ≤ 10000)
    (hlen : weights.length ≤ pricesE9.length) (hp : ∀ p ∈ pricesE9, 0 < p) (hnav : 0 ≤ navE9)
    (hS : 0 < supply) :
    ∃ units values, unitsForWeights weights pricesE9 decimals navE9 supply = .ok units ∧
      valuesAt units pricesE9 decimals supply = .ok values ∧
      units.length = weights.length ∧ values.length = weights.length ∧ values.sum ≤ navE9 ∧
      ∀ (i : Nat) (w p v : Int), weights[i]? = some w → pricesE9[i]? = some p →
        values[i]? = some v → 0 ≤ (navE9 * w / 10000 - v : ℚ) ∧
          (navE9 * w / 10000 - v : ℚ) < 2 + (2 + supply / 10 ^ 9) * p / 10 ^ decimals.getD i 0 := by
  have hprice : ∀ i < weights.length, 0 < pricesE9.getD i 0 := by
    intro i hi
    rw [List.getD_eq_getElem pricesE9 0 (Nat.lt_of_lt_of_le hi hlen)]
    exact hp _ (List.getElem_mem _)
  refine ⟨_, _, unitsForWeights_eq hw hprice hnav hS, valuesAt_eq hw hprice hnav hS, ?_, ?_, ?_, ?_⟩
  · rw [unitsOf, List.length_map, List.length_zipIdx]
  · rw [valuesOf, List.length_map, List.length_zipIdx]
  · have hle : ((valuesOf weights pricesE9 decimals navE9 supply).sum : ℚ) ≤ _ :=
      sum_valuesOf_le hprice hS
    have hwhole : (navE9 * weights.sum / 10000 : ℚ) ≤ navE9 := by
      have hnav' : (0 : ℚ) ≤ navE9 := by exact_mod_cast hnav
      have hsum' : (weights.sum : ℚ) ≤ 10000 := by exact_mod_cast hsum
      rw [div_le_iff₀ (by norm_num)]
      exact mul_le_mul_of_nonneg_left hsum' hnav'
    exact_mod_cast hle.trans hwhole
  · intro i w p v hweight hpi hv
    obtain ⟨hi, -⟩ := List.getElem?_eq_some_iff.mp hweight
    have hpd : pricesE9.getD i 0 = p := by rw [List.getD_eq_getElem?_getD, hpi, Option.getD_some]
    have hr : 0 < unitValue pricesE9 decimals i := unitValue_pos (hprice i hi)
    have hs := wholeTokens_pos hS
    have hv' : v = inward (unitValue pricesE9 decimals i) (wholeTokens supply)
        (outward (unitValue pricesE9 decimals i) (wholeTokens supply) (navE9 * w / 10000)) := by
      simpa [valuesOf, hweight, eq_comm] using hv
    have hbound : (2 + wholeTokens supply) * unitValue pricesE9 decimals i =
        (2 + supply / 10 ^ 9) * p / 10 ^ decimals.getD i 0 := by
      rw [wholeTokens, unitValue, hpd, mul_div_assoc]
    rw [hv', ← hbound]
    exact ⟨sub_nonneg.mpr (inward_outward_le hr hs), sub_inward_outward_lt hr hs⟩

/-- A fund worth 1000 with ten tokens out, a third of it in a component of 6 decimals. -/
theorem units_for_weights_tight_of_two : ∃ units values,
    unitsForWeights [3333, 6667] [1050000000, 103930000000] [6, 9] 1000000000000 10000000000
      = .ok units ∧
    valuesAt units [1050000000, 103930000000] [6, 9] 10000000000 = .ok values ∧
    values.sum ≤ 1000000000000 := by
  obtain ⟨units, values, hu, hv, -, -, hsum, -⟩ :=
    @units_for_weights_tight [3333, 6667] [1050000000, 103930000000] [6, 9] 1000000000000
      10000000000 (by decide) (by decide) (by decide) (by decide) (by decide) (by decide)
  exact ⟨units, values, hu, hv, hsum⟩

end Targets

end Flock.Sdk
